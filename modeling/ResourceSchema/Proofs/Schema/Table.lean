import ResourceSchema.Proofs.Iteration
import ResourceSchema.Schema.Migration

/-!
# The columns of the tables

The table of a resource has the id, a column for every field and a column for every key that the
resource stores, and these keys are its foreign keys.  A link table has two foreign keys.
-/

namespace ResourceSchema

open Sql

variable {d : Definition} {l : Link} {f : FieldColumn} {t : Table} {c : Column} {r : Reference}
variable {table column localColumn foreignColumn : Ident} {side : Side} {name : String}

/-- The table has a column with the name `name`. -/
def Sql.Table.HasColumn (t : Table) (name : Ident) : Prop :=
  ∃ c ∈ t.columns, c.name = name

/-- The column holds ids of the table `table`. -/
def Sql.Column.RefersTo (c : Column) (table : Ident) : Prop :=
  ∃ r, c.reference = some r ∧ r.table = table ∧ r.column = idColumn

/-! ## Columns -/

theorem toColumn_eq_ok_iff {resource : String} :
    f.toColumn resource = .ok c ↔
      isTypeLiteral f.type.type = true ∧
        c = { name := f.column, type := f.type.type, nullable := f.type.nullable
              default := f.type.default.bind defaultExpression? } := by
  unfold FieldColumn.toColumn typeLiteral?
  split
  · next type h =>
    rw [Option.ite_none_right_eq_some] at h
    obtain ⟨htype, h⟩ := h
    obtain rfl : f.type.type = type := Option.some.inj h
    rw [Except.ok.injEq, and_iff_right htype, eq_comm]
  · next h =>
    constructor
    · intro hok
      cases hok
    · rintro ⟨htype, -⟩
      rw [if_pos htype] at h
      cases h

theorem toColumn?_eq_some_iff :
    l.toColumn? = some c ↔ ∃ column, l.storage.ownColumn? = some column ∧
      c = { name := column, type := keyType, nullable := l.relationship.nullable
            unique := l.relationship.cardinality == .oneToOne
            reference := some (referenceTo ⟨l.related⟩) } := by
  rw [Link.toColumn?, Option.map_eq_some_iff]
  simp only [eq_comm]

theorem ownColumn?_eq_some_iff {st : Storage} :
    st.ownColumn? = some column ↔ st = .ownTable column := by
  cases st with
  | ownTable own => simp [Storage.ownColumn?]
  | hostTable table own => simp [Storage.ownColumn?]
  | associative table side own other => simp [Storage.ownColumn?]

/-! ## The table of a resource -/

theorem toTable_eq_ok_iff :
    d.toTable = .ok t ↔ ∃ fields,
      List.Forall₂ (fun f c ↦ FieldColumn.toColumn d.name f = .ok c)
        (d.attributes ++ d.metaFields) fields ∧
      t = { name := d.table
            columns := Column.asPrimaryKey { name := idColumn, type := idType } ::
              fields ++ d.links.filterMap Link.toColumn? } := by
  rw [Definition.toTable, bind_eq_ok_iff]
  simp only [mapM_eq_ok_iff, pure_eq_ok_iff, eq_comm (b := t)]

section ToTable

variable (made : d.toTable = .ok t)
include made

theorem name_of_toTable : t.name = d.table := by
  obtain ⟨fields, -, rfl⟩ := toTable_eq_ok_iff.mp made
  rfl

/-- Every column of the table is the id, the column of a field or a key that is stored here. -/
theorem mem_columns_of_toTable :
    c ∈ t.columns ↔ c = Column.asPrimaryKey { name := idColumn, type := idType } ∨
      (∃ f ∈ d.attributes ++ d.metaFields, f.toColumn d.name = .ok c) ∨
      ∃ l ∈ d.links, l.toColumn? = some c := by
  obtain ⟨fields, hfields, rfl⟩ := toTable_eq_ok_iff.mp made
  rw [List.cons_append, List.mem_cons, List.mem_append, List.mem_filterMap]
  apply or_congr_right
  apply or_congr_left
  constructor
  · exact exists_of_mem_right hfields
  · rintro ⟨f, hf, hcolumn⟩
    obtain ⟨c', hc', hcolumn'⟩ := exists_of_mem_left hfields hf
    obtain rfl : c = c' := Except.ok.inj (hcolumn.symm.trans hcolumn')
    exact hc'

theorem hasColumn_id : t.HasColumn idColumn :=
  ⟨_, (mem_columns_of_toTable made).mpr (.inl rfl), rfl⟩

theorem hasColumn_field (hf : f ∈ d.attributes ++ d.metaFields) : t.HasColumn f.column := by
  obtain ⟨fields, hfields, -⟩ := toTable_eq_ok_iff.mp made
  obtain ⟨c, -, hcolumn⟩ := exists_of_mem_left hfields hf
  refine ⟨c, (mem_columns_of_toTable made).mpr (.inr (.inl ⟨f, hf, hcolumn⟩)), ?_⟩
  obtain ⟨-, rfl⟩ := toColumn_eq_ok_iff.mp hcolumn
  rfl

/-- A key that the resource stores is a column that holds ids of the related table. -/
theorem exists_column_of_ownTable (hl : l ∈ d.links) (hst : l.storage = .ownTable column) :
    ∃ c ∈ t.columns, c.name = column ∧ c.RefersTo ⟨l.related⟩ := by
  have hcolumn := toColumn?_eq_some_iff.mpr ⟨column, ownColumn?_eq_some_iff.mpr hst, rfl⟩
  exact ⟨_, (mem_columns_of_toTable made).mpr (.inr (.inr ⟨l, hl, hcolumn⟩)), rfl, _, rfl, rfl, rfl⟩

/-- The foreign keys of the table are the keys that the resource stores. -/
theorem exists_link_of_reference (hc : c ∈ t.columns) (hr : c.reference = some r) :
    ∃ l ∈ d.links, l.storage = .ownTable c.name ∧ r.table = ⟨l.related⟩ := by
  rcases (mem_columns_of_toTable made).mp hc with rfl | ⟨f, -, hcolumn⟩ | ⟨l, hl, hcolumn⟩
  · cases hr
  · obtain ⟨-, rfl⟩ := toColumn_eq_ok_iff.mp hcolumn
    cases hr
  · obtain ⟨column, hown, rfl⟩ := toColumn?_eq_some_iff.mp hcolumn
    obtain rfl := Option.some.inj hr
    exact ⟨l, hl, ownColumn?_eq_some_iff.mp hown, rfl⟩

end ToTable

/-! ## Link tables -/

/-- The table links rows of two tables: each of its two columns holds ids of one of them. -/
structure Sql.Table.Links (t : Table)
    (name localColumn foreignColumn localTable foreignTable : Ident) : Prop where
  name : t.name = name
  columns : t.columns.map Column.name = [localColumn, foreignColumn]
  localColumn : ∃ c ∈ t.columns, c.name = localColumn ∧ c.RefersTo localTable
  foreignColumn : ∃ c ∈ t.columns, c.name = foreignColumn ∧ c.RefersTo foreignTable
  reference : ∀ c ∈ t.columns, ∀ r, c.reference = some r →
    r.table = localTable ∨ r.table = foreignTable

theorem links_of_linkTable? (hst : l.storage = .associative table side localColumn foreignColumn)
    (ht : d.linkTable? l = some t) :
    t.Links table localColumn foreignColumn d.table ⟨l.related⟩ := by
  rw [Definition.linkTable?, hst] at ht
  obtain rfl := Option.some.inj ht
  refine ⟨rfl, rfl, ⟨_, List.mem_cons_self, rfl, _, rfl, rfl, rfl⟩,
    ⟨_, List.mem_cons_of_mem _ List.mem_cons_self, rfl, _, rfl, rfl, rfl⟩, fun c hc r hr ↦ ?_⟩
  rcases List.mem_cons.mp hc with rfl | hc
  · obtain rfl := Option.some.inj hr
    exact .inl rfl
  · obtain rfl := List.mem_singleton.mp hc
    obtain rfl := Option.some.inj hr
    exact .inr rfl

theorem exists_linkTable? (d : Definition)
    (hst : l.storage = .associative table side localColumn foreignColumn) :
    ∃ t, d.linkTable? l = some t := by
  rw [Definition.linkTable?, hst]
  exact ⟨_, rfl⟩

theorem isHostedAssociative_iff {st : Storage} :
    st.isHostedAssociative = true ↔
      ∃ table localColumn foreignColumn,
        st = .associative table .host localColumn foreignColumn := by
  cases st with
  | ownTable own => simp [Storage.isHostedAssociative]
  | hostTable table own => simp [Storage.isHostedAssociative]
  | associative table side own other => cases side <;> simp [Storage.isHostedAssociative]

/-- A resource names one link table for each many-to-many relationship that it hosts. -/
theorem mem_linkTables_iff :
    t ∈ d.linkTables ↔ ∃ l ∈ d.links, ∃ table localColumn foreignColumn,
      l.storage = .associative table .host localColumn foreignColumn ∧ d.linkTable? l = some t := by
  simp only [Definition.linkTables, Definition.hostedAssociativeLinks, List.mem_filterMap,
    List.mem_filter, isHostedAssociative_iff]
  constructor
  · rintro ⟨l, ⟨hl, table, localColumn, foreignColumn, hst⟩, ht⟩
    exact ⟨l, hl, table, localColumn, foreignColumn, hst, ht⟩
  · rintro ⟨l, hl, table, localColumn, foreignColumn, hst, ht⟩
    exact ⟨l, ⟨hl, table, localColumn, foreignColumn, hst⟩, ht⟩

end ResourceSchema
