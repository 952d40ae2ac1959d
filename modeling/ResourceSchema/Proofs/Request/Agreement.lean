import ResourceSchema.Proofs.Relationship.Duality
import ResourceSchema.Proofs.Request.Preparation
import ResourceSchema.Proofs.Schema.Creation

/-!
# Commands fit the tables that a migration creates

Commands and tables are made of the same definitions, but neither looks at the other.  Still, every
table and every column that a command names is one that the migration creates.  Where related ids
are read from another table, the column they are grouped by holds ids of the rows that are read,
and the column they are collected from holds ids of the related resource.
-/

namespace ResourceSchema

open Sql

variable {ds : List Description} {rs : List Resource} {s : DefinitionSet} {m : Migration}
variable {d : Definition} {l : Link} {t : Table} {parts : List ResourceTable} {column : Ident}
variable {source : VirtualSource} {request : ReadRequest} {c : ReadCommand} {p : Prepared}
variable {operation : Operation}

/-! ## What a command names -/

/-- The table with a name. -/
def Migration.table? (m : Migration) (name : Ident) : Option Table :=
  m.tables.find? (·.name == name)

/-- The columns that an output of a read names, each with its table. -/
def Output.columns (table : Ident) : Output → List (Ident × Ident)
  | .allColumns | .totalCount => []
  | .column name => [(table, name)]
  | .relatedIds _ _ _ => [(table, idColumn)]

namespace Command

/-- The tables that a command names, apart from the names in its `WITH` clause. -/
def tables : Command → List Ident
  | .read c => c.table :: c.virtualTables.map VirtualTable.source
  | .insert table _ | .update table _ _ | .delete table _ => [table]

/-- The columns of these tables that a command names, each with its table. -/
def columns : Command → List (Ident × Ident)
  | .read c =>
    (c.table, idColumn) :: c.outputs.flatMap (Output.columns c.table) ++
      c.virtualTables.flatMap fun v ↦ [(v.source, v.key), (v.source, v.value)]
  | .insert table assignments => assignments.map fun a ↦ (table, a.column)
  | .update table assignments _ => (table, idColumn) :: assignments.map fun a ↦ (table, a.column)
  | .delete table _ => [(table, idColumn)]

end Command

/-- Grouped by its key, the table `source` of the migration has for every row of `d` the ids of the
rows that `l` relates it to. -/
structure Migration.Collects (m : Migration) (source key value : Ident) (d : Definition) (l : Link)
    (t : Table) : Prop where
  table : m.table? source = some t
  key : ∃ c ∈ t.columns, c.name = key ∧ c.RefersTo d.table
  value : (source = ⟨l.related⟩ ∧ value = idColumn ∧ t.HasColumn idColumn) ∨
    ∃ c ∈ t.columns, c.name = value ∧ c.RefersTo ⟨l.related⟩

theorem Migration.Collects.hasColumn_key {source key value : Ident}
    (h : m.Collects source key value d l t) : t.HasColumn key := by
  obtain ⟨c, hc, hname, -⟩ := h.key
  exact ⟨c, hc, hname⟩

theorem Migration.Collects.hasColumn_value {source key value : Ident}
    (h : m.Collects source key value d l t) : t.HasColumn value := by
  rcases h.value with ⟨-, rfl, hid⟩ | ⟨c, hc, hname, -⟩
  · exact hid
  · exact ⟨c, hc, hname⟩

/-- The migration creates whatever the command names. -/
structure Command.Fits (command : Command) (s : DefinitionSet) (m : Migration) : Prop where
  table : ∀ name ∈ command.tables, ∃ t, m.table? name = some t
  column : ∀ q ∈ command.columns, ∃ t, m.table? q.1 = some t ∧ t.HasColumn q.2
  /-- Related ids are read from the `WITH` clause. -/
  relatedIds : ∀ c, command = .read c → ∀ table many name,
    .relatedIds table many name ∈ c.outputs → table ∈ c.virtualTables.map VirtualTable.name
  /-- Every virtual table is that of a relationship of the resource that is read. -/
  virtualTable : ∀ c, command = .read c → ∃ d ∈ s.definitions, c.table = d.table ∧
    ∀ v ∈ c.virtualTables, ∃ l ∈ d.links, Definition.virtualTable? c.row l = some v ∧
      ∃ t, m.Collects v.source v.key v.value d l t

/-! ## The columns of the table itself -/

theorem hasColumn_assigned (htable : d.toTable = .ok t) {values : SortedMap Json}
    {assignments : List Assignment} {parameters : Parameters}
    (hassign : d.assign values = .ok (assignments, parameters)) {a : Assignment}
    (ha : a ∈ assignments) : t.HasColumn a.column := by
  obtain ⟨e, -, hcolumn, -⟩ := exists_of_mem_right (assign_spec hassign).2.2 ha
  rcases writableColumn_eq_ok_iff.mp hcolumn with ⟨f, hf, hname⟩ | ⟨-, hown⟩
  · rw [← hname]
    exact hasColumn_field htable (List.mem_of_find?_eq_some hf)
  · obtain ⟨l, hl, hown⟩ := Option.bind_eq_some_iff.mp hown
    obtain ⟨k, hk, hname, -⟩ := exists_column_of_ownTable htable (List.mem_of_find?_eq_some hl)
      (ownColumn?_eq_some_iff.mp hown)
    exact ⟨k, hk, hname⟩

/-- Related ids belong to a relationship of the resource and are read from its virtual table. -/
theorem exists_link_of_relatedIds (hreads : c.Reads d request) {table name : Ident} {many : Bool}
    (ho : .relatedIds table many name ∈ c.outputs) :
    ∃ l ∈ d.links, l.output = .relatedIds table many name ∧
      ∃ v ∈ c.virtualTables, v.name = table ∧ Definition.virtualTable? c.row l = some v := by
  obtain ⟨counts, houtputs, hcounts⟩ := hreads.outputs
  rw [houtputs, List.mem_append, List.mem_append] at ho
  rcases ho with (ho | ho) | ho
  · rcases mem_baseOutputs ho with h | h | ⟨f, -, h⟩ | ⟨l, -, column, -, h⟩
    · cases h
    · cases h
    · cases h
    · cases h
  · obtain ⟨l, hl, houtput⟩ := List.mem_map.mp ho
    obtain ⟨hlink, -, -⟩ := mem_wantedLinks_iff.mp hl
    obtain ⟨rfl, -, -⟩ := Output.relatedIds.inj houtput
    obtain ⟨v, hv⟩ := exists_virtualTable? hl c.row
    exact ⟨l, hlink, houtput, v, hreads.mem_virtualTables hl hv, name_of_virtualTable? hv, hv⟩
  · cases hcounts _ ho

/-- What a read returns from the table itself is a column of it. -/
theorem hasColumn_output (htable : d.toTable = .ok t) (hreads : c.Reads d request) {o : Output}
    (ho : o ∈ c.outputs) {q : Ident × Ident} (hq : q ∈ o.columns c.table) :
    q.1 = d.table ∧ t.HasColumn q.2 := by
  obtain ⟨counts, houtputs, hcounts⟩ := hreads.outputs
  rw [houtputs, List.mem_append, List.mem_append] at ho
  rw [hreads.table] at hq
  have hid := hasColumn_id htable
  rcases ho with (ho | ho) | ho
  · rcases mem_baseOutputs ho with rfl | rfl | ⟨f, hf, rfl⟩ | ⟨l, hl, column, hown, rfl⟩
    · cases hq
    · obtain rfl := List.mem_singleton.mp hq
      exact ⟨rfl, hid⟩
    · obtain rfl := List.mem_singleton.mp hq
      exact ⟨rfl, hasColumn_field htable hf⟩
    · obtain rfl := List.mem_singleton.mp hq
      obtain ⟨k, hk, hname, -⟩ :=
        exists_column_of_ownTable htable hl (ownColumn?_eq_some_iff.mp hown)
      exact ⟨rfl, k, hk, hname⟩
  · obtain ⟨l, -, rfl⟩ := List.mem_map.mp ho
    obtain rfl := List.mem_singleton.mp hq
    exact ⟨rfl, hid⟩
  · obtain rfl := hcounts o ho
    cases hq

/-! ## Tables -/

section Layout

variable (layout : m.Layout s parts)
include layout

theorem table?_eq_some_iff {name : Ident} :
    m.table? name = some t ↔ t ∈ m.tables ∧ t.name = name := by
  show m.tables.find? (fun t ↦ t.name == name) = some t ↔ t ∈ m.tables ∧ t.name = name
  apply find?_key_eq_some_iff
  have hdistinct := layout.creatable.distinct
  rw [← tables_of_layout layout] at hdistinct
  refine List.Nodup.of_map Ident.raw ?_
  rw [List.map_map]
  exact hdistinct

variable (distinct : (rs.map Resource.name).Nodup) (built : DefinitionSet.build rs = .ok s)
include distinct built

/-- The table of every resource is created. -/
theorem exists_table? (hd : d ∈ s.definitions) :
    ∃ t, m.table? d.table = some t ∧ d.toTable = .ok t := by
  obtain ⟨p, hp, rfl⟩ := exists_resourceTable built layout distinct hd
  refine ⟨p.table, (table?_eq_some_iff layout).mpr ⟨?_, table_name_of_mem layout hp⟩,
    (isFor_of_mem layout hp).2⟩
  rw [tables_of_layout layout]
  exact List.mem_append_left _ (List.mem_map_of_mem hp)

/-- The table of every many-to-many relationship is created by its host. -/
theorem exists_linkTable (hd : d ∈ s.definitions) (hl : l ∈ d.links)
    {table hostColumn guestColumn : Ident}
    (hst : l.storage = .associative table .host hostColumn guestColumn) :
    ∃ t, m.table? table = some t ∧ t.Links table hostColumn guestColumn d.table ⟨l.related⟩ := by
  obtain ⟨t, ht⟩ := exists_linkTable? d hst
  have hlinks := links_of_linkTable? hst ht
  refine ⟨t, (table?_eq_some_iff layout).mpr ⟨?_, hlinks.name⟩, hlinks⟩
  obtain ⟨p, hp, rfl⟩ := exists_resourceTable built layout distinct hd
  have hmem := mem_linkTables_iff.mpr ⟨l, hl, table, hostColumn, guestColumn, hst, ht⟩
  rw [tables_of_layout layout]
  exact List.mem_append_right _ (List.mem_flatMap.mpr ⟨p, hp, hmem⟩)

/-! ## Where related ids are read -/

theorem collects_of_host (hd : d ∈ s.definitions) (hl : l ∈ d.links)
    (hhost : l.relationship.host = true) (hsource : l.storage.virtualSource? = some source) :
    ∃ t, m.Collects source.table source.key (source.value.getD idColumn) d l t := by
  obtain ⟨-, hdefine⟩ := define_of_mem built hd
  obtain ⟨target, hleads⟩ := exists_leadsTo hdefine hl
  have hst := hleads.storage
  by_cases hmany : l.relationship.cardinality = .manyToMany
  · rw [Relationship.storage_host_manyToMany hhost hmany] at hst
    have hst := (Except.ok.inj hst).symm
    obtain ⟨t, ht, hlinks⟩ := exists_linkTable layout distinct built hd hl hst
    rw [hst] at hsource
    obtain rfl := Option.some.inj hsource
    exact ⟨t, ht, hlinks.localColumn, .inr hlinks.foreignColumn⟩
  · rw [Relationship.storage_host hhost hmany] at hst
    rw [← Except.ok.inj hst] at hsource
    cases hsource

/-- A guest is read from what its host creates: from the column in which the host stores its key,
or from the link table that the host names, the other way round. -/
theorem collects_of_guest (hd : d ∈ s.definitions) (hl : l ∈ d.links)
    (hguest : l.relationship.host = false) (hsource : l.storage.virtualSource? = some source) :
    ∃ t, m.Collects source.table source.key (source.value.getD idColumn) d l t := by
  obtain ⟨e, he, hname, h, hh, hends⟩ := exists_isGuestOf distinct built hd hl hguest
  have hrelated : (⟨l.related⟩ : Ident) = e.table := congrArg Ident.mk hname.symm
  have hback : (⟨h.related⟩ : Ident) = d.table := congrArg Ident.mk hends.related
  by_cases hmany : l.relationship.cardinality = .manyToMany
  · obtain ⟨table, hostColumn, guestColumn, hhst, hst⟩ := hends.linkTable hmany
    obtain ⟨t, ht, hlinks⟩ := exists_linkTable layout distinct built he hh hhst
    rw [hback] at hlinks
    rw [hst] at hsource
    obtain rfl := Option.some.inj hsource
    refine ⟨t, ht, hlinks.foreignColumn, .inr ?_⟩
    rw [hrelated]
    exact hlinks.localColumn
  · obtain ⟨column, hhst, hst⟩ := hends.column hmany
    obtain ⟨t, ht, htable⟩ := exists_table? layout distinct built he
    have hcolumn := exists_column_of_ownTable htable hh hhst
    rw [hback] at hcolumn
    rw [hst] at hsource
    obtain rfl := Option.some.inj hsource
    exact ⟨t, ht, hcolumn, .inl ⟨hrelated.symm, rfl, hasColumn_id htable⟩⟩

theorem exists_collects (hd : d ∈ s.definitions) (hl : l ∈ d.links)
    (hsource : l.storage.virtualSource? = some source) :
    ∃ t, m.Collects source.table source.key (source.value.getD idColumn) d l t := by
  cases hhost : l.relationship.host with
  | true => exact collects_of_host layout distinct built hd hl hhost hsource
  | false => exact collects_of_guest layout distinct built hd hl hhost hsource

/-! ## Commands -/

/-- A command that names the table of `d` alone, and columns that this table has. -/
theorem fits_of_write (hd : d ∈ s.definitions) {command : Command}
    (hwrite : ∀ c, command ≠ .read c) (htables : command.tables = [d.table])
    (hcolumns : ∀ q ∈ command.columns, q.1 = d.table ∧
      ∀ t, d.toTable = .ok t → t.HasColumn q.2) : command.Fits s m := by
  obtain ⟨t, ht, htable⟩ := exists_table? layout distinct built hd
  refine ⟨fun name hname ↦ ?_, fun q hq ↦ ?_, fun c hc ↦ absurd hc (hwrite c),
    fun c hc ↦ absurd hc (hwrite c)⟩
  · rw [htables] at hname
    obtain rfl := List.mem_singleton.mp hname
    exact ⟨t, ht⟩
  · obtain ⟨hname, hcolumn⟩ := hcolumns q hq
    exact ⟨t, hname ▸ ht, hcolumn t htable⟩

theorem read_fits (hd : d ∈ s.definitions) (hreads : c.Reads d request) :
    (Command.read c).Fits s m := by
  obtain ⟨t, ht, htable⟩ := exists_table? layout distinct built hd
  have hvirtual (v) (hv : v ∈ c.virtualTables) : ∃ l ∈ d.links,
      Definition.virtualTable? c.row l = some v ∧ ∃ t, m.Collects v.source v.key v.value d l t := by
    rw [hreads.virtualTables] at hv
    obtain ⟨l, hl, hv⟩ := List.mem_filterMap.mp hv
    obtain ⟨hl, -, -⟩ := mem_wantedLinks_iff.mp hl
    obtain ⟨source, hsource, rfl⟩ := Option.map_eq_some_iff.mp hv
    exact ⟨l, hl, hv, exists_collects layout distinct built hd hl hsource⟩
  refine ⟨fun name hname ↦ ?_, fun q hq ↦ ?_, ?_, ?_⟩
  · rcases List.mem_cons.mp hname with rfl | hname
    · exact ⟨t, hreads.table ▸ ht⟩
    · obtain ⟨v, hv, rfl⟩ := List.mem_map.mp hname
      obtain ⟨l, -, -, u, hcollects⟩ := hvirtual v hv
      exact ⟨u, hcollects.table⟩
  · rw [Command.columns, List.mem_append, List.mem_cons, List.mem_flatMap, List.mem_flatMap] at hq
    rcases hq with (rfl | ⟨o, ho, hq⟩) | ⟨v, hv, hq⟩
    · exact ⟨t, hreads.table ▸ ht, hasColumn_id htable⟩
    · obtain ⟨hname, hcolumn⟩ := hasColumn_output htable hreads ho hq
      exact ⟨t, hname ▸ ht, hcolumn⟩
    · obtain ⟨l, -, -, u, hcollects⟩ := hvirtual v hv
      rcases List.mem_pair.mp hq with rfl | rfl
      · exact ⟨u, hcollects.table, hcollects.hasColumn_key⟩
      · exact ⟨u, hcollects.table, hcollects.hasColumn_value⟩
  · rintro _ ⟨⟩ table many name ho
    obtain ⟨-, -, -, v, hv, hname, -⟩ := exists_link_of_relatedIds hreads ho
    exact List.mem_map.mpr ⟨v, hv, hname⟩
  · rintro _ ⟨⟩
    exact ⟨d, hd, hreads.table, hvirtual⟩

theorem command_fits (hd : operation.definition ∈ s.definitions) {filter : Option String}
    (hprepared : operation.prepare filter = .ok p) : p.command.Fits s m := by
  cases operation with
  | read d request action =>
      obtain ⟨c, hcommand, hreads, -⟩ := prepareRead_reads hprepared
      rw [hcommand]
      exact read_fits layout distinct built hd hreads
  | create d values =>
      obtain ⟨assignments, parameters, hassign, rfl⟩ := exists_assign_of_create hprepared
      refine fits_of_write layout distinct built hd (fun _ ↦ nofun) rfl fun q hq ↦ ?_
      obtain ⟨a, ha, rfl⟩ := List.mem_map.mp hq
      exact ⟨rfl, fun t htable ↦ hasColumn_assigned htable hassign ha⟩
  | update d id values =>
      obtain ⟨assignments, parameters, row, bound, hassign, -, rfl⟩ :=
        exists_assign_of_update hprepared
      refine fits_of_write layout distinct built hd (fun _ ↦ nofun) rfl fun q hq ↦ ?_
      rcases List.mem_cons.mp hq with rfl | hq
      · exact ⟨rfl, fun t htable ↦ hasColumn_id htable⟩
      · obtain ⟨a, ha, rfl⟩ := List.mem_map.mp hq
        exact ⟨rfl, fun t htable ↦ hasColumn_assigned htable hassign ha⟩
  | delete d id =>
      obtain rfl := Except.ok.inj hprepared
      refine fits_of_write layout distinct built hd (fun _ ↦ nofun) rfl fun q hq ↦ ?_
      obtain rfl := List.mem_singleton.mp hq
      exact ⟨rfl, fun t htable ↦ hasColumn_id htable⟩

end Layout

/-- **Commands fit the tables.**  Whatever a request on accepted resources compiles to, the
migration of these resources creates what it names. -/
theorem compile_fits (accepted : resourcesOf ds = .ok rs) (built : DefinitionSet.build rs = .ok s)
    (migrated : s.migration = .ok m) {compiler : QueryCompiler}
    (hset : compiler.definitions = s) {request : Request} {statement : Statement}
    (compiled : compiler.compile request = .ok statement) :
    ∃ p, compiler.prepare request = .ok p ∧ statement = p.statement ∧ p.command.Fits s m := by
  obtain ⟨parts, layout⟩ := migration_eq_ok_iff.mp migrated
  obtain ⟨p, hp, h⟩ := bind_eq_ok_iff.mp compiled
  obtain rfl := pure_eq_ok_iff.mp h
  obtain ⟨operation, haccept, hprepare⟩ := bind_eq_ok_iff.mp hp
  rw [hset] at haccept
  obtain ⟨name, hget⟩ := exists_get?_of_accept haccept
  obtain ⟨hd, -⟩ := mem_of_get? hget
  exact ⟨p, hp, rfl, command_fits layout (accepted_distinct accepted) built hd hprepare⟩

/-- Reads the cats of every person. -/
def catsOfPersons : Request := .read "person" {}

theorem compile_fits_household :
    ∃ rs s m, resourcesOf household = .ok rs ∧ DefinitionSet.build rs = .ok s ∧
      s.migration = .ok m ∧ ∃ statement,
        (⟨s, none⟩ : QueryCompiler).compile catsOfPersons = .ok statement ∧
        ∃ p, (⟨s, none⟩ : QueryCompiler).prepare catsOfPersons = .ok p ∧
          statement = p.statement ∧ p.command.Fits s m := by
  have hsome : ((resourcesOf household).toOption.bind fun rs ↦
      (DefinitionSet.build rs).toOption.bind fun s ↦ s.migration.toOption.bind fun _ ↦
        ((⟨s, none⟩ : QueryCompiler).compile catsOfPersons).toOption).isSome = true := by
    decide +kernel
  obtain ⟨statement, h⟩ := Option.isSome_iff_exists.mp hsome
  simp only [Option.bind_eq_some_iff, toOption_eq_some_iff] at h
  obtain ⟨rs, hrs, s, hs, m, hm, hstatement⟩ := h
  exact ⟨rs, s, m, hrs, hs, hm, statement, hstatement, compile_fits hrs hs hm rfl hstatement⟩

end ResourceSchema
