import ResourceSchema.Proofs.Dependency.Cycle
import ResourceSchema.Proofs.Schema.Columns

/-!
# When there is a migration

The resources of an accepted set can always be created one by one.  What can go wrong is that they
depend on each other in a cycle, and that link tables, whose names are put together from those of
two resources, meet each other, a resource, or have one name for both columns.  Nothing else keeps
a set from having a migration, and a migration has one table for each resource and each hosted
many-to-many relationship.
-/

namespace ResourceSchema

open Sql

variable {ds : List Description} {rs : List Resource} {r target : Resource} {s : DefinitionSet}
variable {d : Definition} {l : Link} {t : Table} {ts : List Table} {m : Migration}
variable {draft draft' : Draft} {parts : List ResourceTable} {out : List String} {e : CompileError}

/-! ## Link tables -/

/-- The name of the link table of a relationship that the resource `source` declares, if it is a
hosted many-to-many relationship. -/
def Relationship.linkName? (source : String) (rel : Relationship) : Option String :=
  if rel.host && rel.cardinality == .manyToMany then
    some (Name.associativeTable source rel.resource)
  else none

/-- The names of the link tables of a resource. -/
def Resource.linkNames (r : Resource) : List String :=
  r.relationships.values.filterMap (Relationship.linkName? r.name)

/-- A hosted many-to-many relationship has a link table with two columns. -/
theorem linkTable?_of_host (hst : l.relationship.storage r.name l.name target = .ok l.storage)
    (htarget : target.name = l.related) (hhost : l.relationship.host = true)
    (hmany : l.relationship.cardinality = .manyToMany) (d : Definition) :
    ∃ t, d.linkTable? l = some t ∧
      t.name = ⟨Name.associativeTable r.name l.relationship.resource⟩ ∧
      t.columnNames = [Name.associativeHostColumn r.name,
        Name.associativeGuestColumn r.name l.relationship.resource l.name] := by
  rw [Relationship.storage_host_manyToMany hhost hmany, Except.ok.injEq, eq_comm, htarget] at hst
  rw [Definition.linkTable?, hst]
  exact ⟨_, rfl, rfl, rfl⟩

theorem linkName?_eq_none {source : String} {rel : Relationship}
    (h : (rel.host && rel.cardinality == .manyToMany) = false) : rel.linkName? source = none := by
  rw [Relationship.linkName?, h]
  rfl

theorem linkName?_eq_some {source : String} {rel : Relationship}
    (h : (rel.host && rel.cardinality == .manyToMany) = true) :
    rel.linkName? source = some (Name.associativeTable source rel.resource) := by
  rw [Relationship.linkName?, h]
  rfl

section Define

variable (defined : r.define rs = .ok d)
include defined

/-- A link table belongs to a hosted many-to-many relationship. -/
theorem exists_link_of_linkTable (ht : t ∈ d.linkTables) :
    ∃ name rel, r.relationships.get? name = some rel ∧
      (rel.host = true ∧ rel.cardinality = .manyToMany) ∧
      t.name = ⟨Name.associativeTable r.name rel.resource⟩ ∧
      t.columnNames = [Name.associativeHostColumn r.name,
        Name.associativeGuestColumn r.name rel.resource name] := by
  obtain ⟨l, hl, table, localColumn, foreignColumn, hst, hlink⟩ := mem_linkTables_iff.mp ht
  obtain ⟨target, hleads⟩ := exists_leadsTo defined hl
  have hhosted := Relationship.isHostedAssociative_storage hleads.storage
  rw [hst, eq_comm, Storage.isHostedAssociative, Bool.and_eq_true, beq_iff_eq] at hhosted
  obtain ⟨u, hu, hname, hcolumns⟩ :=
    linkTable?_of_host hleads.storage hleads.target_name hhosted.1 hhosted.2 d
  obtain rfl : t = u := Option.some.inj (hlink.symm.trans hu)
  exact ⟨l.name, l.relationship, hleads.declared, hhosted, hname, hcolumns⟩

theorem exists_linkTable_of_host {name : String} {rel : Relationship}
    (hrel : r.relationships.get? name = some rel) (hhost : rel.host = true)
    (hmany : rel.cardinality = .manyToMany) :
    ∃ t ∈ d.linkTables, t.columnNames = [Name.associativeHostColumn r.name,
      Name.associativeGuestColumn r.name rel.resource name] := by
  obtain ⟨l, hl, rfl, rfl⟩ := exists_link defined hrel
  obtain ⟨target, hleads⟩ := exists_leadsTo defined hl
  obtain ⟨t, ht, -, hcolumns⟩ :=
    linkTable?_of_host hleads.storage hleads.target_name hhost hmany d
  have hst := hleads.storage
  rw [Relationship.storage_host_manyToMany hhost hmany, Except.ok.injEq, eq_comm] at hst
  exact ⟨t, mem_linkTables_iff.mpr ⟨l, hl, _, _, _, hst, ht⟩, hcolumns⟩

/-- The link tables of a resource have the names of its hosted many-to-many relationships. -/
theorem map_name_linkTables : d.linkTables.map (fun t ↦ t.name.raw) = r.linkNames := by
  obtain ⟨-, hlinks⟩ := Resource.define_eq_ok_iff.mp defined
  rw [Definition.linkTables, Definition.hostedAssociativeLinks, List.filterMap_filter,
    List.map_filterMap, Resource.linkNames, SortedMap.values, List.filterMap_map]
  refine (filterMap_eq_filterMap_of_forall₂ hlinks fun e l hlink ↦ ?_).symm
  obtain ⟨hname, hrel, target, htarget, hstorage⟩ := Resource.link_eq_ok_iff.mp hlink
  obtain ⟨-, htargetName⟩ := mem_of_resourceNamed? htarget
  rw [← hname, ← hrel] at hstorage
  rw [← hrel] at htargetName
  have hhosted := Relationship.isHostedAssociative_storage hstorage
  dsimp only [Function.comp_apply]
  rw [hhosted, ← hrel]
  split
  · next h =>
    obtain ⟨hhost, hmany⟩ := Bool.and_eq_true_iff.mp h
    obtain ⟨t, ht, htName, -⟩ :=
      linkTable?_of_host hstorage htargetName hhost (beq_iff_eq.mp hmany) d
    rw [linkName?_eq_some h, ht, Option.map_some, htName]
  · next h => exact linkName?_eq_none (Bool.not_eq_true _ ▸ h)

end Define

/-- The columns of a link table have one name exactly where a resource is linked to itself under
its own name. -/
theorem linkColumns_nodup_iff {host guest relationship : String} :
    [Name.associativeHostColumn host,
      Name.associativeGuestColumn host guest relationship].Nodup ↔
        ¬ (guest = host ∧ relationship = host) := by
  rw [List.nodup_cons, List.mem_singleton, and_iff_left (List.nodup_singleton _),
    Name.associativeHostColumn, Name.associativeGuestColumn, foreignKeyColumn_injective.eq_iff]
  split
  · next h => rw [and_iff_right h.symm, eq_comm]
  · next h =>
    refine iff_of_true h ?_
    rintro ⟨hself, -⟩
    exact h hself.symm

/-! ## All resources -/

/-- What keeps a set of resources from having a migration does not happen. -/
structure Migratable (rs : List Resource) : Prop where
  acyclic : ∀ name,
    ¬ Relation.TransGen (fun source dep ↦ ∃ r ∈ rs, r.name = source ∧ r.DependsOn dep) name name
  linkNames_nodup : (rs.flatMap Resource.linkNames).Nodup
  linkNames_new : ∀ name ∈ rs.flatMap Resource.linkNames, name ∉ rs.map Resource.name
  /-- No resource hosts a many-to-many relationship to itself under its own name. -/
  selfLinks : ∀ r ∈ rs, ∀ rel, r.relationships.get? r.name = some rel → rel.host = true →
    rel.cardinality = .manyToMany → rel.resource ≠ r.name

theorem acyclic_ofResources_iff :
    (DependencyGraph.ofResources rs).Acyclic ↔ ∀ name,
      ¬ Relation.TransGen (fun source dep ↦ ∃ r ∈ rs, r.name = source ∧ r.DependsOn dep)
        name name := by
  have hedge : (DependencyGraph.ofResources rs).Edge =
      fun source dep ↦ ∃ r ∈ rs, r.name = source ∧ r.DependsOn dep := by
    funext source dep
    exact propext DependencyGraph.mem_dependenciesOf_ofResources
  rw [DependencyGraph.Acyclic, hedge]

section Build

variable (built : DefinitionSet.build rs = .ok s) (distinct : (rs.map Resource.name).Nodup)
variable (hparts : List.Forall₂ (fun name p ↦ ResourceTable.IsFor p s name) out parts)
variable (hperm : out.Perm (rs.map Resource.name))

include hparts

theorem map_name_parts : (parts.map ResourceTable.table).map (fun t ↦ t.name.raw) = out := by
  have h := map_eq_map_of_forall₂ hparts (f := id) (g := fun p ↦ p.table.name.raw)
    fun name p hfor ↦ by
      rw [name_of_toTable hfor.table]
      exact (mem_of_get? hfor.found).2.symm
  rw [List.map_id] at h
  rw [List.map_map]
  exact h.symm

include built

theorem define_of_part {p : ResourceTable} (hp : p ∈ parts) :
    p.definition.resource ∈ rs ∧ p.definition.resource.define rs = .ok p.definition := by
  obtain ⟨name, -, hfor⟩ := exists_of_mem_right hparts hp
  exact define_of_mem built (mem_of_get? hfor.found).1

include distinct hperm

theorem exists_part (hr : r ∈ rs) : ∃ p ∈ parts, r.define rs = .ok p.definition := by
  have hname : r.name ∈ out := hperm.mem_iff.mpr (List.mem_map_of_mem hr)
  obtain ⟨p, hp, hfor⟩ := exists_of_mem_left hparts hname
  obtain ⟨d, hget, hdefine⟩ := exists_get? built distinct hr
  obtain rfl : d = p.definition := Option.some.inj (hget.symm.trans hfor.found)
  exact ⟨p, hp, hdefine⟩

theorem resources_perm : (parts.map fun p ↦ p.definition.resource).Perm rs := by
  have hnames : (parts.map fun p ↦ p.definition.resource).map Resource.name = out := by
    rw [← map_name_parts hparts, List.map_map, List.map_map]
    refine List.map_congr_left fun p hp ↦ ?_
    obtain ⟨name, -, hfor⟩ := exists_of_mem_right hparts hp
    exact (congrArg Ident.raw (name_of_toTable hfor.table)).symm
  have hnodup := List.Nodup.of_map _ (hnames ▸ hperm.nodup_iff.mpr distinct)
  refine (List.perm_ext_iff_of_nodup hnodup (distinct.of_map _)).mpr fun r ↦ ?_
  rw [List.mem_map]
  constructor
  · rintro ⟨p, hp, rfl⟩
    exact (define_of_part built hparts hp).1
  · intro hr
    obtain ⟨p, hp, hdefine⟩ := exists_part built distinct hparts hperm hr
    exact ⟨p, hp, resource_of_define hdefine⟩

theorem linkNames_perm :
    ((parts.flatMap fun p ↦ p.definition.linkTables).map fun t ↦ t.name.raw).Perm
      (rs.flatMap Resource.linkNames) := by
  have hnames : (parts.flatMap fun p ↦ p.definition.linkTables).map (fun t ↦ t.name.raw) =
      (parts.map fun p ↦ p.definition.resource).flatMap Resource.linkNames := by
    rw [List.map_flatMap, List.flatMap_map]
    refine List.flatMap_congr fun p hp ↦ ?_
    exact map_name_linkTables (define_of_part built hparts hp).2
  rw [hnames]
  exact (resources_perm built distinct hparts hperm).flatMap_right _

/-- Where the resources exist, the link tables can be created exactly if their names are new and
no columns of one have the same name. -/
theorem creatable_linkTables_iff :
    Creatable out.reverse (parts.flatMap fun p ↦ p.definition.linkTables) ↔
      (rs.flatMap Resource.linkNames).Nodup ∧
      (∀ name ∈ rs.flatMap Resource.linkNames, name ∉ rs.map Resource.name) ∧
      ∀ r ∈ rs, ∀ rel, r.relationships.get? r.name = some rel → rel.host = true →
        rel.cardinality = .manyToMany → rel.resource ≠ r.name := by
  have hlinks := linkNames_perm built distinct hparts hperm
  have hnew : (∀ t ∈ parts.flatMap fun p ↦ p.definition.linkTables, t.name.raw ∉ out.reverse) ↔
      ∀ name ∈ rs.flatMap Resource.linkNames, name ∉ rs.map Resource.name := by
    simp only [List.mem_reverse, hperm.mem_iff, ← hlinks.mem_iff, List.forall_mem_map]
  have hcolumns : (∀ t ∈ parts.flatMap fun p ↦ p.definition.linkTables, t.columnNames.Nodup) ↔
      ∀ r ∈ rs, ∀ rel, r.relationships.get? r.name = some rel → rel.host = true →
        rel.cardinality = .manyToMany → rel.resource ≠ r.name := by
    constructor
    · intro hnodup r hr rel hrel hhost hmany hself
      obtain ⟨p, hp, hdefine⟩ := exists_part built distinct hparts hperm hr
      obtain ⟨t, ht, heq⟩ := exists_linkTable_of_host hdefine hrel hhost hmany
      have hdistinct := hnodup t (List.mem_flatMap.mpr ⟨p, hp, ht⟩)
      rw [heq, linkColumns_nodup_iff] at hdistinct
      exact hdistinct ⟨hself, rfl⟩
    · intro hself t ht
      obtain ⟨p, hp, ht⟩ := List.mem_flatMap.mp ht
      obtain ⟨hr, hdefine⟩ := define_of_part built hparts hp
      obtain ⟨name, rel, hrel, ⟨hhost, hmany⟩, -, heq⟩ := exists_link_of_linkTable hdefine ht
      rw [heq, linkColumns_nodup_iff]
      rintro ⟨htarget, rfl⟩
      exact hself _ hr rel hrel hhost hmany htarget
  rw [← hnew, ← hcolumns, ← hlinks.nodup_iff]
  exact ⟨fun ⟨h, h', h''⟩ ↦ ⟨h, h', h''⟩, fun ⟨h, h', h''⟩ ↦ ⟨h, h', h''⟩⟩

end Build

/-! ## The resources can be created -/

section Accepted

variable (accepted : resourcesOf ds = .ok rs) (built : DefinitionSet.build rs = .ok s)
include accepted built

/-- In any order the resources of an accepted set have tables that can be created. -/
theorem exists_parts (hperm : out.Perm (rs.map Resource.name)) :
    ∃ parts, List.Forall₂ (fun name p ↦ ResourceTable.IsFor p s name) out parts ∧
      Creatable [] (parts.map ResourceTable.table) := by
  have distinct := accepted_distinct accepted
  have hsome : ∀ name ∈ out, ∃ p : ResourceTable, p.IsFor s name := by
    intro name hname
    obtain ⟨r, hr, rfl⟩ := List.mem_map.mp (hperm.mem_iff.mp hname)
    obtain ⟨d, hget, hdefine⟩ := exists_get? built distinct hr
    obtain ⟨t, ht⟩ := exists_toTable hdefine (accepted_wellKeyed accepted hr)
    exact ⟨⟨d, t⟩, hget, ht⟩
  obtain ⟨parts, hparts⟩ := exists_forall₂_iff.mpr hsome
  refine ⟨parts, hparts, ?_, fun _ _ ↦ List.not_mem_nil, fun t ht ↦ ?_⟩
  · rw [map_name_parts hparts]
    exact hperm.nodup_iff.mpr distinct
  · obtain ⟨p, hp, rfl⟩ := List.mem_map.mp ht
    obtain ⟨name, -, hfor⟩ := exists_of_mem_right hparts hp
    obtain ⟨hr, hdefine⟩ := define_of_part built hparts hp
    exact columnNames_nodup hdefine (accepted_wellKeyed accepted hr) hfor.table

/-- There is a migration exactly if nothing of what can go wrong does. -/
theorem exists_migration_iff : (∃ m, s.migration = .ok m) ↔ Migratable rs := by
  have distinct := accepted_distinct accepted
  have hclosed := DependencyGraph.closed_ofResources rs
  constructor
  · rintro ⟨m, hm⟩
    obtain ⟨parts, layout⟩ := migration_eq_ok_iff.mp hm
    have hordered := layout.ordered
    rw [resources_of_build built] at hordered
    have hlinks := (creatable_append_iff.mp layout.creatable).2
    rw [map_name_parts layout.resources, List.append_nil] at hlinks
    obtain ⟨hnodup, hnew, hself⟩ := (creatable_linkTables_iff built distinct layout.resources
      (order_perm built layout distinct)).mp hlinks
    exact ⟨acyclic_ofResources_iff.mp (DependencyGraph.acyclic_of_order hordered),
      hnodup, hnew, hself⟩
  · rintro ⟨hacyclic, hnodup, hnew, hself⟩
    obtain ⟨out, hout⟩ := (DependencyGraph.exists_order_iff hclosed).mpr
      (acyclic_ofResources_iff.mpr hacyclic)
    rw [← resources_of_build built] at hout
    have hperm := perm_of_order built distinct hout
    obtain ⟨parts, hparts, hresources⟩ := exists_parts accepted built hperm
    have hlinks := (creatable_linkTables_iff built distinct hparts hperm).mpr ⟨hnodup, hnew, hself⟩
    refine ⟨⟨out, _⟩, migration_eq_ok_iff.mpr ⟨parts, hout, hparts, rfl, ?_⟩⟩
    rw [creatable_append_iff, map_name_parts hparts, List.append_nil]
    exact ⟨hresources, hlinks⟩

end Accepted

/-! ## Why there is no migration -/

theorem create_eq_error (h : draft.create t = .error e) :
    e = .duplicateTable t.name.raw ∨
      (t.name.raw ∉ draft.names ∧ ∃ column, e = .duplicateColumn t.name.raw column) := by
  unfold Draft.create at h
  split at h
  · exact .inl (Except.error.inj h).symm
  · next hnew =>
    split at h
    · next column _ =>
      refine .inr ⟨fun hmem ↦ hnew (List.contains_iff_mem.mpr hmem), column, ?_⟩
      exact (Except.error.inj h).symm
    · cases h

/-- A table that cannot be created has a name that was there, or that was not there at the start
either and columns of one name. -/
theorem foldlM_create_eq_error (h : ts.foldlM Draft.create draft = .error e) :
    ∃ t ∈ ts, e = .duplicateTable t.name.raw ∨
      (t.name.raw ∉ draft.names ∧ ∃ column, e = .duplicateColumn t.name.raw column) := by
  induction ts generalizing draft with
  | nil => cases h
  | cons t rest ih =>
      rw [List.foldlM_cons] at h
      rcases bind_eq_error_iff.mp h with hfirst | ⟨next, hnext, hrest⟩
      · exact ⟨t, List.mem_cons_self, create_eq_error hfirst⟩
      · obtain ⟨-, rfl⟩ := create_eq_ok_iff.mp hnext
        obtain ⟨u, hu, herror⟩ := ih hrest
        refine ⟨u, List.mem_cons_of_mem _ hu, herror.imp_right fun ⟨hnew, hcolumn⟩ ↦ ?_⟩
        exact ⟨fun hmem ↦ hnew (List.mem_cons_of_mem _ hmem), hcolumn⟩

/-- The errors that keep a set of resources from having a migration: they cannot be ordered, or a
link table has a name or two columns that it cannot have. -/
inductive MigrationError (rs : List Resource) : CompileError → Prop where
  | cyclic (names : List String) : MigrationError rs (.schema (.cyclic names))
  | linkTable (table : String) (hlink : table ∈ rs.flatMap Resource.linkNames) :
      MigrationError rs (.duplicateTable table)
  | linkColumn (table column : String) (hlink : table ∈ rs.flatMap Resource.linkNames)
      (hnew : table ∉ rs.map Resource.name) : MigrationError rs (.duplicateColumn table column)

theorem migrationError_of_eq_error (accepted : resourcesOf ds = .ok rs)
    (built : DefinitionSet.build rs = .ok s) (h : s.migration = .error e) :
    MigrationError rs e := by
  have distinct := accepted_distinct accepted
  unfold DefinitionSet.migration at h
  rcases bind_eq_error_iff.mp h with horder | ⟨out, hout, h⟩
  · cases hordered : (DependencyGraph.ofResources s.resources).order with
    | ok out =>
        rw [hordered] at horder
        cases horder
    | error reason =>
        rw [hordered] at horder
        obtain ⟨-, rfl⟩ := DependencyGraph.order_eq_error_iff.mp hordered
        obtain rfl := Except.error.inj horder
        exact .cyclic _
  · have hperm := perm_of_order built distinct (mapError_eq_ok_iff.mp hout)
    obtain ⟨parts, hparts, hresources⟩ := exists_parts accepted built hperm
    have hfold : out.foldlM (Draft.createResource s) {} =
        .ok (parts.foldl Draft.pushResource {}) :=
      foldlM_createResource_eq_ok_iff.mpr ⟨parts, hparts, hresources, rfl⟩
    have hnames : parts.map (fun p ↦ p.table.name.raw) = out := by
      rw [← map_name_parts hparts, List.map_map]
      rfl
    rw [foldl_pushResource, hnames] at hfold
    rcases bind_eq_error_iff.mp h with hnone | ⟨draft, hdraft, h⟩
    · exact nomatch hnone.symm.trans hfold
    obtain rfl := Except.ok.inj (hfold.symm.trans hdraft)
    rcases bind_eq_error_iff.mp h with hlinks | ⟨_, -, hlast⟩
    · obtain ⟨t, ht, herror⟩ := foldlM_create_eq_error hlinks
      have hlink : t.name.raw ∈ rs.flatMap Resource.linkNames :=
        (linkNames_perm built distinct hparts hperm).mem_iff.mp (List.mem_map_of_mem ht)
      rcases herror with rfl | ⟨hnew, column, rfl⟩
      · exact .linkTable _ hlink
      · refine .linkColumn _ column hlink fun hmem ↦ hnew ?_
        exact List.mem_append_left _ (List.mem_reverse.mpr (hperm.mem_iff.mpr hmem))
    · exact nomatch hlast

/-! ## What a migration creates -/

/-- The migration creates one table for each resource and one for each hosted many-to-many
relationship, and no name comes twice among them or among the columns of one. -/
structure Migration.Tabulates (m : Migration) (rs : List Resource) : Prop where
  names_nodup : (m.tables.map fun t ↦ t.name.raw).Nodup
  columns_nodup : ∀ t ∈ m.tables, t.columnNames.Nodup
  names : (m.tables.map fun t ↦ t.name.raw).Perm
    (rs.map Resource.name ++ rs.flatMap Resource.linkNames)

theorem tabulates_of_migration (accepted : resourcesOf ds = .ok rs)
    (built : DefinitionSet.build rs = .ok s) (h : s.migration = .ok m) : m.Tabulates rs := by
  have distinct := accepted_distinct accepted
  obtain ⟨parts, layout⟩ := migration_eq_ok_iff.mp h
  have hperm := order_perm built layout distinct
  have htables := tables_of_layout layout
  refine ⟨?_, ?_, ?_⟩
  · rw [htables]
    exact layout.creatable.distinct
  · rw [htables]
    exact layout.creatable.columns
  · rw [htables, List.map_append, map_name_parts layout.resources]
    exact hperm.append (linkNames_perm built distinct layout.resources hperm)

/-- **When there is a migration.**  An accepted set has one exactly if its resources do not depend
on each other in a cycle, its link tables have names that are distinct and new, and no resource is
linked to itself under its own name.  No other error can come up, and a migration that is made has
one table for each resource and each link. -/
theorem migration_iff_migratable (accepted : resourcesOf ds = .ok rs)
    (built : DefinitionSet.build rs = .ok s) :
    ((∃ m, s.migration = .ok m) ↔ Migratable rs) ∧
    (∀ e, s.migration = .error e → MigrationError rs e) ∧
    ∀ m, s.migration = .ok m → m.Tabulates rs := by
  refine ⟨exists_migration_iff accepted built, fun e he ↦ ?_, fun m hm ↦ ?_⟩
  · exact migrationError_of_eq_error accepted built he
  · exact tabulates_of_migration accepted built hm

theorem migration_iff_migratable_household :
    ∃ rs s m, resourcesOf household = .ok rs ∧ DefinitionSet.build rs = .ok s ∧
      Migratable rs ∧ s.migration = .ok m ∧ m.Tabulates rs := by
  have hsome : (migrationOf? household).isSome = true := by decide +kernel
  obtain ⟨rs, s, m, hrs, hs, hm⟩ := exists_of_migrationOf? hsome
  obtain ⟨hiff, -, htables⟩ := migration_iff_migratable hrs hs
  exact ⟨rs, s, m, hrs, hs, hiff.mp ⟨m, hm⟩, hm, htables m hm⟩

end ResourceSchema
