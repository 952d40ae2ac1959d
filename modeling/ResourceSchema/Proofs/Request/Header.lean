import ResourceSchema.Proofs.Request.Outputs
import ResourceSchema.Proofs.Request.Refusal

/-!
# The columns of a result

A read of all fields has the columns of the table in its result, and one for each relationship
whose ids are collected from another table.  What a relationship is called there, and whether there
are arrays, is announced by its alias, which is made of its name and cardinality alone; what the
result has follows from where the key is stored.  The two agree, except for a one-to-many
relationship that stores the key itself: its column is that of the key, with one id.
-/

namespace ResourceSchema

open Sql

variable {ds : List Description} {rs : List Resource} {r : Resource} {s : DefinitionSet}
variable {m : Migration} {d : Definition} {l : Link} {t : Table} {parts : List ResourceTable}
variable {column : Ident} {request : ReadRequest} {c : ReadCommand} {k : Column}

/-! ## Types -/

/-- The type of the values in a column.  A `SERIAL` column holds integers. -/
def Sql.Column.valueType (c : Column) : String := if c.type = idType then keyType else c.type

/-- The type of arrays of values. -/
def arrayType (type : String) : String := type ++ "[]"

/-- The type of related ids: of arrays, or of one id. -/
def idsType (many : Bool) : String := if many then arrayType keyType else keyType

/-! ## Columns -/

/-- What the values in a column of a result are. -/
inductive Origin where
  /-- Those of a column of the table that is read. -/
  | own (column : Ident)
  /-- Those in the column `value` of the rows of `source` that have the id of the row as `key`. -/
  | collected (source key value : Ident)
  | rowCount
deriving DecidableEq

/-- Where the related ids are. -/
def Storage.origin : Storage → Origin
  | ownTable column => .own column
  | hostTable table column => .collected table column idColumn
  | associative table _ localColumn foreignColumn => .collected table localColumn foreignColumn

/-- A column of a result. -/
structure ResultColumn where
  name : String
  type : String
  origin : Origin
deriving DecidableEq

namespace ResultColumn

/-- A column of the table. -/
def ofColumn (c : Column) : ResultColumn := ⟨c.name.raw, c.valueType, .own c.name⟩

/-- A column with what a virtual table collects, all of it or the first value. -/
def ofCollected (v : VirtualTable) (many : Bool) (name : Ident) (value : Column) : ResultColumn :=
  ⟨name.raw, if many then arrayType value.valueType else value.valueType,
    .collected v.source v.key v.value⟩

end ResultColumn

/-- The columns of a table that the migration creates. -/
def Migration.columns (m : Migration) (table : Ident) : List Column :=
  (m.table? table).elim [] Table.columns

namespace ReadCommand

/-- The columns that an output is in the result. -/
def columnsOf (c : ReadCommand) (m : Migration) : Output → List ResultColumn
  | .allColumns => (m.columns c.table).map .ofColumn
  | .column name => ((m.columns c.table).filter (·.name == name)).map .ofColumn
  | .relatedIds virtualTable many name =>
    (c.virtualTables.filter (·.name == virtualTable)).flatMap fun v ↦
      ((m.columns v.source).filter (·.name == v.value)).map (.ofCollected v many name)
  | .totalCount => [⟨totalCountColumn.raw, "BIGINT", .rowCount⟩]

/-- The columns of the result, in their order. -/
def header (c : ReadCommand) (m : Migration) : List ResultColumn :=
  c.outputs.flatMap (c.columnsOf m)

/-- A column of the table keeps its name in the result. -/
theorem name_of_own {q : ResultColumn} (hq : q ∈ c.header m) (horigin : q.origin = .own column) :
    q.name = column.raw := by
  obtain ⟨o, -, hq⟩ := List.mem_flatMap.mp hq
  cases o with
  | allColumns =>
      obtain ⟨k, -, rfl⟩ := List.mem_map.mp hq
      exact congrArg Ident.raw (Origin.own.inj horigin)
  | column name =>
      obtain ⟨k, -, rfl⟩ := List.mem_map.mp hq
      exact congrArg Ident.raw (Origin.own.inj horigin)
  | relatedIds virtualTable many name =>
      obtain ⟨v, -, hq⟩ := List.mem_flatMap.mp hq
      obtain ⟨k, -, rfl⟩ := List.mem_map.mp hq
      cases horigin
  | totalCount =>
      obtain rfl := List.mem_singleton.mp hq
      cases horigin

end ReadCommand

theorem columns_of_table? {name : Ident} (ht : m.table? name = some t) :
    m.columns name = t.columns := by
  rw [Migration.columns, ht]
  rfl

/-- Keys are integers. -/
theorem valueType_of_keyType (h : k.type = keyType) : k.valueType = keyType := by
  rw [Column.valueType, h, ite_self]

/-- Ids are integers. -/
theorem valueType_of_idType (h : k.type = idType) : k.valueType = keyType := if_pos h

section Layout

variable (layout : m.Layout s parts)
include layout

/-- Every foreign key of the migration has the type of keys. -/
theorem type_of_reference (ht : t ∈ m.tables) (hk : k ∈ t.columns) {r : Reference}
    (hr : k.reference = some r) : k.type = keyType := by
  rw [tables_of_layout layout, List.mem_append, List.mem_map, List.mem_flatMap] at ht
  rcases ht with ⟨p, hp, rfl⟩ | ⟨p, -, ht⟩
  · rcases (mem_columns_of_toTable (isFor_of_mem layout hp).2).mp hk with
      rfl | ⟨f, -, hcolumn⟩ | ⟨l, -, hcolumn⟩
    · cases hr
    · obtain ⟨-, rfl⟩ := toColumn_eq_ok_iff.mp hcolumn
      cases hr
    · obtain ⟨column, -, rfl⟩ := toColumn?_eq_some_iff.mp hcolumn
      rfl
  · obtain ⟨l, -, table, localColumn, foreignColumn, hst, htable⟩ := mem_linkTables_iff.mp ht
    rw [Definition.linkTable?, hst] at htable
    obtain rfl := Option.some.inj htable
    rcases List.mem_pair.mp hk with rfl | rfl
    · rfl
    · rfl

variable (distinct : (rs.map Resource.name).Nodup) (built : DefinitionSet.build rs = .ok s)
include distinct built

/-- What a virtual table collects are integers. -/
theorem exists_valueColumn {source key value : Ident} (hd : d ∈ s.definitions) (hl : l ∈ d.links)
    (h : m.Collects source key value d l t) :
    ∃ k ∈ m.columns source, k.name = value ∧ k.valueType = keyType := by
  rw [columns_of_table? h.table]
  rcases h.value with ⟨hsource, rfl, -⟩ | ⟨k, hk, hname, r, href, -, -⟩
  · obtain ⟨e, he, hname⟩ := exists_related built hd hl
    obtain ⟨t', ht', htable⟩ := exists_table? layout distinct built he
    have hsame : e.table = source := hsource ▸ congrArg Ident.mk hname
    obtain rfl := Option.some.inj ((hsame ▸ h.table).symm.trans ht')
    exact ⟨_, (mem_columns_of_toTable htable).mpr (.inl rfl), rfl, valueType_of_idType rfl⟩
  · have ht := ((table?_eq_some_iff layout).mp h.table).1
    exact ⟨k, hk, hname, valueType_of_keyType (type_of_reference layout ht hk href)⟩

end Layout

/-! ## Related ids -/

/-- The relationship is to many rows, and yet its key is stored in the table itself, which has room
for one id. -/
def Link.KeepsOneOfMany (l : Link) : Prop :=
  l.relationship.host = true ∧ l.relationship.cardinality = .oneToMany

theorem Link.KeepsOneOfMany.isToMany (h : l.KeepsOneOfMany) : l.isToMany = true := by
  rw [Link.isToMany, h.2]
  rfl

/-- A relationship that is not read from another table has its key in the table itself. -/
theorem Link.exists_ownTable (h : l.isVirtual = false) :
    ∃ column, l.storage = .ownTable column := by
  rw [isVirtual] at h
  cases hst : l.storage with
  | ownTable column => exact ⟨column, rfl⟩
  | hostTable table column =>
      rw [hst] at h
      cases h
  | associative table side localColumn foreignColumn =>
      rw [hst] at h
      cases h

theorem origin_of_virtualSource? {st : Storage} {source : VirtualSource}
    (h : st.virtualSource? = some source) :
    st.origin = .collected source.table source.key (source.value.getD idColumn) := by
  cases st with
  | ownTable column => cases h
  | hostTable table column =>
      obtain rfl := Option.some.inj h
      rfl
  | associative table side localColumn foreignColumn =>
      obtain rfl := Option.some.inj h
      rfl

section Define

variable (defined : r.define rs = .ok d) (hl : l ∈ d.links)
include defined hl

theorem storage_of_keepsOneOfMany (h : l.KeepsOneOfMany) :
    l.storage = .ownTable ⟨Name.foreignKeyColumn l.name⟩ := by
  obtain ⟨target, hleads⟩ := exists_leadsTo defined hl
  have hst := hleads.storage
  rw [Relationship.storage_host h.1 (by rw [h.2]; decide)] at hst
  exact (Except.ok.inj hst).symm

/-- A key that the table stores has the name of the alias, unless the relationship is to many. -/
theorem alias_of_own (hst : l.storage = .ownTable column) (hfew : ¬ l.KeepsOneOfMany) :
    l.isToMany = false ∧ l.columnAlias.raw = column.raw := by
  obtain ⟨rfl, hhost⟩ := ownColumn?_eq_some defined hl (ownColumn?_eq_some_iff.mpr hst)
  obtain ⟨target, hleads⟩ := exists_leadsTo defined hl
  obtain ⟨-, hmany⟩ := Relationship.storage_eq_ownTable (hst ▸ hleads.storage)
  have htoOne : l.isToMany = false := by
    rw [Link.isToMany]
    cases hcardinality : l.relationship.cardinality with
    | oneToOne | manyToOne => rfl
    | oneToMany => exact absurd ⟨hhost, hcardinality⟩ hfew
    | manyToMany => exact absurd hcardinality hmany
  exact ⟨htoOne, l.columnAlias_of_toOne htoOne⟩

end Define

/-! ## Reads of all fields -/

theorem exists_prepareRead_of_all (d : Definition) (hall : request.fields = none)
    (filter : Option String) : ∃ p, d.prepareRead request filter = .ok p := by
  cases hread : d.prepareRead request filter with
  | ok p => exact ⟨p, rfl⟩
  | error e =>
      obtain ⟨key, hkey, -⟩ := checkFields_eq_error_iff.mp (prepareRead_eq_error_iff.mp hread)
      rw [hall] at hkey
      cases hkey

theorem ReadCommand.Reads.output_mem (hreads : c.Reads d request)
    (hl : l ∈ d.wantedLinks request) : l.output ∈ c.outputs := by
  obtain ⟨counts, houtputs, -⟩ := hreads.outputs
  rw [houtputs]
  exact List.mem_append_left _ (List.mem_append_right _ (List.mem_map_of_mem hl))

section All

variable (hreads : c.Reads d request) (hall : request.fields = none)
include hreads hall

theorem allColumns_mem_outputs : .allColumns ∈ c.outputs := by
  obtain ⟨counts, houtputs, -⟩ := hreads.outputs
  have hbase : d.baseOutputs request = [.allColumns] := by
    rw [Definition.baseOutputs, hall]
    rfl
  rw [houtputs, hbase]
  exact List.mem_cons_self

/-- A key that is stored in the table is a column of the result. -/
theorem own_mem_header (ht : m.table? d.table = some t) (made : d.toTable = .ok t)
    (hl : l ∈ d.links) (hst : l.storage = .ownTable column) :
    ⟨column.raw, keyType, l.storage.origin⟩ ∈ c.header m := by
  have hcolumn := toColumn?_eq_some_iff.mpr ⟨column, ownColumn?_eq_some_iff.mpr hst, rfl⟩
  refine List.mem_flatMap.mpr ⟨_, allColumns_mem_outputs hreads hall, ?_⟩
  rw [ReadCommand.columnsOf, hreads.table, columns_of_table? ht, hst]
  refine List.mem_map.mpr ⟨_, (mem_columns_of_toTable made).mpr (.inr (.inr ⟨l, hl, hcolumn⟩)), ?_⟩
  rw [ResultColumn.ofColumn, valueType_of_keyType rfl]
  rfl

/-- Ids that are collected from another table are a column under the alias. -/
theorem collected_mem_header (layout : m.Layout s parts) (distinct : (rs.map Resource.name).Nodup)
    (built : DefinitionSet.build rs = .ok s) (hd : d ∈ s.definitions) (hl : l ∈ d.links)
    (hvirtual : l.isVirtual = true) :
    ⟨l.columnAlias.raw, idsType l.isToMany, l.storage.origin⟩ ∈ c.header m := by
  have hwanted := mem_wantedLinks_iff.mpr ⟨hl, hvirtual, wants_of_all hall l.name⟩
  obtain ⟨v, hv⟩ := exists_virtualTable? hwanted c.row
  obtain ⟨source, hsource, rfl⟩ := Option.map_eq_some_iff.mp hv
  obtain ⟨t, hcollects⟩ := exists_collects layout distinct built hd hl hsource
  obtain ⟨k, hk, hname, htype⟩ := exists_valueColumn layout distinct built hd hl hcollects
  have hmem := hreads.mem_virtualTables hwanted hv
  refine List.mem_flatMap.mpr ⟨_, hreads.output_mem hwanted, List.mem_flatMap.mpr
    ⟨_, List.mem_filter.mpr ⟨hmem, beq_self_eq_true _⟩, List.mem_map.mpr
      ⟨k, List.mem_filter.mpr ⟨hk, beq_iff_eq.mpr hname⟩, ?_⟩⟩⟩
  rw [ResultColumn.ofCollected, htype, origin_of_virtualSource? hsource]
  rfl

end All

/-- The alias of several ids is not the name of the key: they end in different letters. -/
theorem alias_not_mem_header (hmany : l.isToMany = true)
    (hst : l.storage = .ownTable ⟨Name.foreignKeyColumn l.name⟩) {type : String} :
    ⟨l.columnAlias.raw, type, l.storage.origin⟩ ∉ c.header m := by
  intro hmem
  have hname : l.columnAlias.raw = Name.foreignKeyColumn l.name :=
    ReadCommand.name_of_own hmem (by rw [hst]; rfl)
  rw [Link.isToMany_iff_getLast?, hname, foreignKeyColumn_getLast?] at hmany
  exact absurd hmany (by decide)

/-- **Related ids stand under the alias**, as an array exactly if there may be several, unless the
table itself stores the key of a one-to-many relationship: then there is one id, in the column of
the key. -/
theorem alias_mem_header_iff (accepted : resourcesOf ds = .ok rs)
    (built : DefinitionSet.build rs = .ok s) (migrated : s.migration = .ok m)
    (hd : d ∈ s.definitions) (hl : l ∈ d.links) (hall : request.fields = none)
    (filter : Option String) :
    ∃ p c, d.prepareRead request filter = .ok p ∧ p.command = .read c ∧
      (⟨l.columnAlias.raw, idsType l.isToMany, l.storage.origin⟩ ∈ c.header m ↔
        ¬ l.KeepsOneOfMany) ∧
      (l.KeepsOneOfMany →
        ⟨Name.foreignKeyColumn l.name, keyType, l.storage.origin⟩ ∈ c.header m) := by
  obtain ⟨parts, layout⟩ := migration_eq_ok_iff.mp migrated
  have distinct := accepted_distinct accepted
  obtain ⟨-, hdefine⟩ := define_of_mem built hd
  obtain ⟨t, ht, made⟩ := exists_table? layout distinct built hd
  obtain ⟨p, hp⟩ := exists_prepareRead_of_all d hall filter
  obtain ⟨c, hc, hreads, -⟩ := prepareRead_reads hp
  refine ⟨p, c, hp, hc, ⟨fun hmem hone ↦ ?_, fun hfew ↦ ?_⟩, fun hone ↦ ?_⟩
  · exact alias_not_mem_header hone.isToMany (storage_of_keepsOneOfMany hdefine hl hone) hmem
  · cases hvirtual : l.isVirtual with
    | true => exact collected_mem_header hreads hall layout distinct built hd hl hvirtual
    | false =>
        obtain ⟨column, hst⟩ := Link.exists_ownTable hvirtual
        obtain ⟨htoOne, halias⟩ := alias_of_own hdefine hl hst hfew
        rw [halias, htoOne]
        exact own_mem_header hreads hall ht made hl hst
  · exact own_mem_header hreads hall ht made hl (storage_of_keepsOneOfMany hdefine hl hone)

/-- The cats of a person are read as an array. -/
theorem alias_mem_header_household :
    ∃ rs s m d l, resourcesOf household = .ok rs ∧ DefinitionSet.build rs = .ok s ∧
      s.migration = .ok m ∧ d ∈ s.definitions ∧ l ∈ d.links ∧ l.name = "cats" ∧
      ({} : ReadRequest).fields = none ∧
      ∃ p c, d.prepareRead {} none = .ok p ∧ p.command = .read c ∧
        ⟨"cat_ids", "INTEGER[]", .collected ⟨"cat"⟩ ⟨"owner_id"⟩ idColumn⟩ ∈ c.header m := by
  have hsome : ((resourcesOf household).toOption.any fun rs ↦
      (DefinitionSet.build rs).toOption.any fun s ↦ s.migration.toOption.any fun _ ↦
        (s.get? "person").any fun d ↦ (d.link? "cats").any fun l ↦
          decide (l.columnAlias.raw = "cat_ids" ∧ idsType l.isToMany = "INTEGER[]" ∧
            l.storage.origin = .collected ⟨"cat"⟩ ⟨"owner_id"⟩ idColumn ∧
            l.relationship.host = false)) = true := by
    decide +kernel
  simp only [Option.any_eq_true, toOption_eq_some_iff, decide_eq_true_iff] at hsome
  obtain ⟨rs, accepted, s, built, m, migrated, d, hget, l, hlink, halias, hids, horigin, hguest⟩ :=
    hsome
  obtain ⟨hd, -⟩ := mem_of_get? hget
  obtain ⟨hl, hname⟩ := (link?_eq_some_iff (define_of_mem built hd).2).mp hlink
  have hall : ({} : ReadRequest).fields = none := rfl
  obtain ⟨p, c, hp, hc, hshown, -⟩ :=
    alias_mem_header_iff accepted built migrated hd hl hall none
  have hmem := hshown.mpr fun ⟨hhost, _⟩ ↦ nomatch hguest.symm.trans hhost
  rw [halias, hids, horigin] at hmem
  exact ⟨rs, s, m, d, l, accepted, built, migrated, hd, hl, hname, rfl, p, c, hp, hc, hmem⟩

/-- A person who stores the id of a cat, in a relationship to many. -/
def singlePets : List Description :=
  [(Description.named "person").withRelationship "pets" (.between "cat" .oneToMany true),
   Description.named "cat"]

/-- The pets of a person are announced as many, under a name that the result does not have. -/
theorem alias_not_in_header_singlePets :
    ∃ rs s m d l p c, resourcesOf singlePets = .ok rs ∧ DefinitionSet.build rs = .ok s ∧
      s.migration = .ok m ∧ d ∈ s.definitions ∧ l ∈ d.links ∧ l.columnAlias.raw = "pet_ids" ∧
      l.isToMany = true ∧ d.prepareRead {} none = .ok p ∧ p.command = .read c ∧
      ∀ k ∈ c.header m, k.name ≠ "pet_ids" := by
  have hsome : ((resourcesOf singlePets).toOption.any fun rs ↦
      (DefinitionSet.build rs).toOption.any fun s ↦ s.migration.toOption.any fun m ↦
        s.definitions.any fun d ↦ d.links.any fun l ↦ (d.prepareRead {} none).toOption.any fun p ↦
          p.command.read?.any fun c ↦ decide (l.columnAlias.raw = "pet_ids" ∧ l.isToMany = true ∧
            ∀ k ∈ c.header m, k.name ≠ "pet_ids")) = true := by
    decide +kernel
  simp only [Option.any_eq_true, List.any_eq_true, toOption_eq_some_iff, read?_eq_some_iff,
    decide_eq_true_iff] at hsome
  obtain ⟨rs, accepted, s, built, m, migrated, d, hd, l, hl, p, hp, c, hc, halias, hmany, hnone⟩ :=
    hsome
  exact ⟨rs, s, m, d, l, p, c, accepted, built, migrated, hd, hl, halias, hmany, hp, hc, hnone⟩

end ResourceSchema
