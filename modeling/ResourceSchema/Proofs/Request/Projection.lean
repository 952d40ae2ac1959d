import Mathlib.Data.List.Perm.Basic
import ResourceSchema.Proofs.Request.Outputs

/-!
# Reads of some fields

A read of some fields is the read of all fields with less in it.  It has the subqueries and the
columns of the relationships that are asked for, and it lists columns of the table where the other
takes the table as a whole.  Which rows it reads, and in which order, has nothing to do with fields.
-/

namespace ResourceSchema

open Sql

variable {ds : List Description} {rs : List Resource} {r : Resource} {s : DefinitionSet}
variable {d : Definition} {t : Table} {request : ReadRequest} {filter : Option String}
variable {p p₀ : Prepared} {c c₀ : ReadCommand} {fields : NameSet} {column : Ident}
variable {row : Option Placeholder}

/-! ## What a restricted read is -/

/-- What a relationship adds to a read when another table stores its key: a subquery that collects
the related ids, and a column that takes them from there. -/
structure RelatedColumn where
  relationship : String
  table : CommonTable
  column : String

/-- What a relationship adds to a read. -/
def Definition.relatedColumn? (d : Definition) (row : Option Placeholder) (l : Link) :
    Option RelatedColumn :=
  (virtualTable? row l).map fun v ↦ ⟨l.name, ⟨v.name.escaped, v.render⟩, l.output.render d.table⟩

/-- What the relationships add to a read of all fields, in the order of their names. -/
def Definition.relatedColumns (d : Definition) (row : Option Placeholder) : List RelatedColumn :=
  d.virtualLinks.filterMap (d.relatedColumn? row)

/-- What the relationships among `fields` add to a read. -/
def Definition.relatedColumnsOf (d : Definition) (row : Option Placeholder) (fields : NameSet) :
    List RelatedColumn :=
  (d.relatedColumns row).filter fun k ↦ fields.contains k.relationship

/-- The column that counts the rows on all pages, where a list has pages. -/
def Definition.countColumns (d : Definition) (request : ReadRequest) : List String :=
  if d.counts request then [Output.totalCount.render d.table] else []

/-- The columns `base` of the table `t` are those that `fields` asks for, each of them once. -/
structure Definition.Projects (d : Definition) (fields : NameSet) (t : Table) (base : List Ident) :
    Prop where
  mem_iff : ∀ column, column ∈ base ↔ column = idColumn ∨
    (∃ f ∈ d.metaFields, f.column = column) ∨
    (∃ f ∈ d.attributes, fields.contains f.key = true ∧ f.column = column) ∨
    ∃ l ∈ d.links, fields.contains l.name = true ∧ l.storage.ownColumn? = some column
  nodup : base.Nodup
  hasColumn : ∀ column ∈ base, t.HasColumn column
  /-- Whoever asks for everything gets all columns of the table. -/
  perm : (∀ key ∈ d.resource.attributes.keys ++ d.resource.relationships.keys,
    fields.contains key = true) → base.Perm (t.columns.map Column.name)

/-- The command `c` is the command `c₀`, which reads all fields, restricted to `fields`. -/
structure ReadCommand.Restricts (c c₀ : ReadCommand) (d : Definition) (t : Table)
    (request : ReadRequest) (fields : NameSet) : Prop where
  /-- Neither the rows nor their order depend on the fields. -/
  clauses : c.select =
    { c₀.select with commonTables := c.select.commonTables, columns := c.select.columns }
  commonTables : c.select.commonTables =
    (d.relatedColumnsOf c₀.row fields).map RelatedColumn.table
  allCommonTables : c₀.select.commonTables = (d.relatedColumns c₀.row).map RelatedColumn.table
  columns : ∃ base, d.Projects fields t base ∧ c.select.columns =
    base.map d.table.qualify ++ (d.relatedColumnsOf c₀.row fields).map RelatedColumn.column ++
      d.countColumns request
  allColumns : c₀.select.columns = (d.table.escaped ++ ".*") ::
    (d.relatedColumns c₀.row).map RelatedColumn.column ++ d.countColumns request

/-! ## The columns of the table -/

/-- The columns of the table that a read of some fields lists. -/
def Definition.projection (d : Definition) (fields : NameSet) : List Ident :=
  idColumn :: d.metaFields.map FieldColumn.column ++
    (d.attributes.filter fun f ↦ fields.contains f.key).map FieldColumn.column ++
    (d.links.filter fun l ↦ fields.contains l.name).filterMap fun l ↦ l.storage.ownColumn?

theorem baseOutputs_eq_projection (hfields : request.fields = some fields) :
    d.baseOutputs request = (d.projection fields).map .column := by
  rw [Definition.baseOutputs, hfields]
  simp only [Definition.projection, wants_of_fields hfields, List.map_append, List.map_cons,
    List.map_map, List.map_filterMap]
  rfl

theorem mem_projection_iff :
    column ∈ d.projection fields ↔ column = idColumn ∨
      (∃ f ∈ d.metaFields, f.column = column) ∨
      (∃ f ∈ d.attributes, fields.contains f.key = true ∧ f.column = column) ∨
      ∃ l ∈ d.links, fields.contains l.name = true ∧ l.storage.ownColumn? = some column := by
  simp only [Definition.projection, List.cons_append, List.mem_cons, List.mem_append, List.mem_map,
    List.mem_filter, List.mem_filterMap, or_assoc, and_assoc]

theorem ident_raw_injective : Function.Injective Ident.raw := by
  rintro ⟨raw⟩ ⟨raw'⟩ rfl
  rfl

section Define

variable (defined : r.define rs = .ok d) (made : d.toTable = .ok t)
include defined made

/-- By their names, the columns that are listed are those that a read is known to return. -/
theorem projection_perm_ownNames (hfields : request.fields = some fields) :
    ((d.projection fields).map Ident.raw).Perm (d.ownNames request) := by
  have hperm : ((d.baseOutputs request).flatMap (Output.names t)).Perm (d.ownNames request) :=
    names_baseOutputs defined made
  have hnames : ((d.projection fields).map Output.column).flatMap (Output.names t) =
      (d.projection fields).map Ident.raw := names_column id _
  rwa [baseOutputs_eq_projection hfields, hnames] at hperm

theorem projects_projection (hr : r.WellKeyed) : d.Projects fields t (d.projection fields) := by
  let asked : ReadRequest := { fields := some fields }
  have hperm : ((d.projection fields).map Ident.raw).Perm (d.ownNames asked) :=
    projection_perm_ownNames defined made rfl
  have hown : (d.ownNames asked).Sublist t.columnNames := ownNames_sublist defined made
  refine ⟨fun _ ↦ mem_projection_iff, ?_, fun column hcolumn ↦ ?_, fun hall ↦ ?_⟩
  · have hnodup := (columnNames_nodup defined hr made).sublist hown
    exact (hperm.nodup_iff.mpr hnodup).of_map
  · have hmem := hperm.subset (List.mem_map_of_mem hcolumn)
    obtain ⟨k, hk, hname⟩ := List.mem_map.mp (hown.subset hmem)
    exact ⟨k, hk, ident_raw_injective hname⟩
  · have hlinks : ∀ l ∈ d.links, fields.contains l.name = true := by
      intro l hl
      refine hall l.name (List.mem_append_right _ ?_)
      rw [resource_of_define defined, ← map_name_links defined]
      exact List.mem_map_of_mem hl
    have hcolumns : d.ownNames asked = (t.columns.map Column.name).map Ident.raw := by
      rw [List.map_map]
      exact ownNames_eq_columnNames defined made
        (fun key hkey ↦ hall key (List.mem_append_left _ hkey)) hlinks
    rw [hcolumns] at hperm
    exact (List.map_perm_map_iff ident_raw_injective).mp hperm

end Define

/-! ## The columns of relationships -/

theorem relatedColumnsOf_eq (hfields : request.fields = some fields) :
    d.relatedColumnsOf row fields = (d.wantedLinks request).filterMap (d.relatedColumn? row) := by
  rw [Definition.relatedColumnsOf, Definition.relatedColumns, Definition.wantedLinks,
    List.filter_filterMap, List.filterMap_filter]
  refine List.filterMap_congr fun l _ ↦ ?_
  rw [wants_of_fields hfields, Definition.relatedColumn?]
  cases Definition.virtualTable? row l with
  | none => simp
  | some v => rfl

theorem relatedColumns_eq (hfields : request.fields = none) :
    d.relatedColumns row = (d.wantedLinks request).filterMap (d.relatedColumn? row) := by
  rw [Definition.wantedLinks, List.filter_eq_self.mpr fun l _ ↦ wants_of_all hfields l.name]
  rfl

/-- Every relationship that is read from another table adds a subquery and a column. -/
theorem commonTables_of_reads (hreads : c.Reads d request) :
    c.select.commonTables =
      ((d.wantedLinks request).filterMap (d.relatedColumn? c.row)).map RelatedColumn.table := by
  rw [ReadCommand.select, hreads.virtualTables, List.map_filterMap, List.map_filterMap]
  refine List.filterMap_congr fun l _ ↦ ?_
  rw [Definition.relatedColumn?, Option.map_map]
  rfl

theorem map_output_wantedLinks (d : Definition) (request : ReadRequest)
    (row : Option Placeholder) :
    ((d.wantedLinks request).map Link.output).map (Output.render d.table) =
      ((d.wantedLinks request).filterMap (d.relatedColumn? row)).map RelatedColumn.column := by
  rw [List.map_filterMap, List.map_map, ← List.filterMap_eq_map]
  refine List.filterMap_congr fun l hl ↦ ?_
  obtain ⟨v, hv⟩ := exists_virtualTable? hl row
  rw [Definition.relatedColumn?, hv]
  rfl

/-! ## The rest of the statement -/

/-- A read of all fields is prepared whenever one of some fields is.  The two have the same
parameters, and differ in nothing but virtual tables and outputs. -/
theorem exists_prepareRead_all (h : d.prepareRead request filter = .ok p) :
    ∃ p₀ c₀ virtualTables outputs, d.prepareRead { request with fields := none } filter = .ok p₀ ∧
      p₀.command = .read c₀ ∧ p.command = .read { c₀ with virtualTables, outputs } ∧
      p.parameters = p₀.parameters := by
  obtain ⟨id, asked, page⟩ := request
  obtain ⟨-, -, h⟩ := bind_eq_ok_iff.mp h
  cases id with
  | some id =>
      obtain rfl := pure_eq_ok_iff.mp h
      exact ⟨_, _, _, _, rfl, rfl, rfl, rfl⟩
  | none =>
      dsimp only at h
      split at h
      · next hpaged =>
        obtain rfl := pure_eq_ok_iff.mp h
        exact ⟨_, _, _, _, bind_eq_ok_iff.mpr ⟨(), rfl, if_pos hpaged⟩, rfl, rfl, rfl⟩
      · next hpaged =>
        obtain rfl := pure_eq_ok_iff.mp h
        exact ⟨_, _, _, _, bind_eq_ok_iff.mpr ⟨(), rfl, if_neg hpaged⟩, rfl, rfl, rfl⟩

/-- The columns of a read are those of the table, those of relationships and the count. -/
theorem columns_of_prepareRead (h : d.prepareRead request filter = .ok p)
    (hc : p.command = .read c) (row : Option Placeholder) :
    c.select.columns = (d.baseOutputs request).map (Output.render d.table) ++
      ((d.wantedLinks request).filterMap (d.relatedColumn? row)).map RelatedColumn.column ++
        d.countColumns request := by
  obtain ⟨c', hc', hreads, -⟩ := prepareRead_reads h
  obtain rfl := Command.read.inj (hc.symm.trans hc')
  obtain ⟨c'', hc'', houtputs⟩ := outputs_of_prepareRead h
  obtain rfl := Command.read.inj (hc.symm.trans hc'')
  rw [ReadCommand.select, hreads.table, houtputs, List.map_append, List.map_append,
    map_output_wantedLinks d request row, Definition.countColumns]
  split
  · rfl
  · rfl

/-- **A read of some fields is the restriction of the read of all fields** under the same filter,
which is prepared wherever the other is, with the same parameters. -/
theorem read_restricts (accepted : resourcesOf ds = .ok rs)
    (built : DefinitionSet.build rs = .ok s) (hd : d ∈ s.definitions)
    (hfields : request.fields = some fields) (prepared : d.prepareRead request filter = .ok p) :
    ∃ t p₀ c c₀, d.toTable = .ok t ∧
      d.prepareRead { request with fields := none } filter = .ok p₀ ∧
      p.command = .read c ∧ p₀.command = .read c₀ ∧ p.parameters = p₀.parameters ∧
      c.Restricts c₀ d t request fields := by
  obtain ⟨hmem, hdefine⟩ := define_of_mem built hd
  have hr := accepted_wellKeyed accepted hmem
  obtain ⟨t, made⟩ := exists_toTable hdefine hr
  obtain ⟨p₀, c₀, virtualTables, outputs, prepared₀, hc₀, hc, hparameters⟩ :=
    exists_prepareRead_all prepared
  obtain ⟨_, hc', hreads, -⟩ := prepareRead_reads prepared
  obtain rfl := Command.read.inj (hc.symm.trans hc')
  obtain ⟨_, hc₀', hreads₀, -⟩ := prepareRead_reads prepared₀
  obtain rfl := Command.read.inj (hc₀.symm.trans hc₀')
  have hrelated : d.relatedColumns c₀.row =
      (d.wantedLinks { request with fields := none }).filterMap (d.relatedColumn? c₀.row) :=
    relatedColumns_eq rfl
  refine ⟨t, p₀, _, c₀, made, prepared₀, hc, hc₀, hparameters, rfl, ?_, ?_, ?_, ?_⟩
  · rw [commonTables_of_reads hreads, relatedColumnsOf_eq hfields]
  · rw [commonTables_of_reads hreads₀, hrelated]
  · refine ⟨d.projection fields, projects_projection hdefine made hr, ?_⟩
    rw [columns_of_prepareRead prepared hc c₀.row, baseOutputs_eq_projection hfields,
      relatedColumnsOf_eq hfields, List.map_map]
    rfl
  · rw [columns_of_prepareRead prepared₀ hc₀ c₀.row, hrelated]
    rfl

/-- A list of cats with their owners and their kittens. -/
def ownedCats : ReadRequest := { fields := some (.ofNames ["cats", "owner"]) }

theorem read_restricts_household :
    ∃ rs s d p, resourcesOf household = .ok rs ∧ DefinitionSet.build rs = .ok s ∧
      d ∈ s.definitions ∧ d.name = "cat" ∧ d.prepareRead ownedCats none = .ok p ∧
      ∃ t p₀ c c₀, d.toTable = .ok t ∧
        d.prepareRead { ownedCats with fields := none } none = .ok p₀ ∧
        p.command = .read c ∧ p₀.command = .read c₀ ∧ p.parameters = p₀.parameters ∧
        c.Restricts c₀ d t ownedCats (.ofNames ["cats", "owner"]) := by
  have hsome : ((resourcesOf household).toOption.any fun rs ↦
      (DefinitionSet.build rs).toOption.any fun s ↦ s.definitions.any fun d ↦
        (d.prepareRead ownedCats none).toOption.any fun _ ↦ d.name == "cat") = true := by
    decide +kernel
  simp only [Option.any_eq_true, List.any_eq_true, toOption_eq_some_iff, beq_iff_eq] at hsome
  obtain ⟨rs, accepted, s, built, d, hd, p, prepared, hname⟩ := hsome
  exact ⟨rs, s, d, p, accepted, built, hd, hname, prepared,
    read_restricts accepted built hd rfl prepared⟩

end ResourceSchema
