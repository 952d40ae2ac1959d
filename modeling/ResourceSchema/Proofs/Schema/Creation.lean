import ResourceSchema.Proofs.Dependency.Graph
import ResourceSchema.Proofs.Description.Acceptance
import ResourceSchema.Proofs.Schema.Migration

/-!
# A migration refers to nothing that is not there

The order of the resources comes from their relationships, the foreign keys of their tables from
where linking stores the keys.  Both agree: the table that a foreign key refers to is the table
itself or one of a dependency, and that one is created before.  Triggers and link tables come after
the tables they are about.
-/

namespace ResourceSchema

open Sql

variable {ds : List Description} {rs : List Resource} {r : Resource} {s : DefinitionSet}
variable {m : Migration} {d : Definition} {l : Link} {t : Table} {c : Column} {ref : Reference}
variable {parts : List ResourceTable} {p : ResourceTable} {step : Step} {before after : List Step}
variable {name : String} {rel : Relationship}

/-! ## Keys and dependencies -/

theorem Relationship.storage_eq_ownTable {source : String} {target : Resource} {column : Ident}
    (h : rel.storage source name target = .ok (.ownTable column)) :
    rel.host = true ∧ rel.cardinality ≠ .manyToMany := by
  by_cases hmany : rel.cardinality = .manyToMany
  · cases hhost : rel.host with
    | true =>
        rw [storage_host_manyToMany hhost hmany] at h
        cases h
    | false =>
        obtain ⟨_, _, hst⟩ := (storage_guest_manyToMany_eq_ok_iff hhost hmany).mp h
        cases hst
  · cases hhost : rel.host with
    | true => exact ⟨rfl, hmany⟩
    | false =>
        obtain ⟨_, _, hst⟩ := (storage_guest_eq_ok_iff hhost hmany).mp h
        cases hst

/-- A key that a resource stores is the id of the resource itself or of a dependency. -/
theorem Link.LeadsTo.dependsOn {target : Resource} {column : Ident} (h : l.LeadsTo rs r target)
    (hst : l.storage = .ownTable column) : l.related = r.name ∨ r.DependsOn l.related := by
  by_cases hself : l.related = r.name
  · exact .inl hself
  · have hstorage := h.storage
    rw [hst] at hstorage
    obtain ⟨hhost, hmany⟩ := Relationship.storage_eq_ownTable hstorage
    refine .inr ⟨l.relationship, SortedMap.mem_values_iff.mpr ⟨l.name, h.declared⟩, ?_, rfl⟩
    have hself' : l.relationship.resource ≠ r.name := hself
    simp [Relationship.isDependency, hhost, hmany, hself']

/-- The dependencies of the resources of a set that is built are resources of the set. -/
theorem dependency_mem (built : DefinitionSet.build rs = .ok s) (hr : r ∈ rs)
    (hdep : r.DependsOn name) : name ∈ rs.map Resource.name := by
  obtain ⟨rel, hrel, -, rfl⟩ := hdep
  obtain ⟨key, hkey⟩ := SortedMap.mem_values_iff.mp hrel
  obtain ⟨d, -, hdefine⟩ := exists_definition built hr
  obtain ⟨l, hl, -, rfl⟩ := exists_link hdefine hkey
  obtain ⟨target, hleads⟩ := exists_leadsTo hdefine hl
  exact List.mem_map.mpr ⟨target, hleads.target_mem, hleads.target_name⟩

/-! ## What is created before -/

section Build

variable (built : DefinitionSet.build rs = .ok s) (distinct : (rs.map Resource.name).Nodup)
include built distinct

/-- An order of the resources has every one of them once. -/
theorem perm_of_order {out : List String}
    (ordered : (DependencyGraph.ofResources s.resources).order = .ok out) :
    out.Perm (rs.map Resource.name) := by
  rw [resources_of_build built] at ordered
  obtain ⟨hnodup, hmem, -⟩ := DependencyGraph.arranges_of_order ordered
  refine (List.perm_ext_iff_of_nodup hnodup distinct).mpr fun name ↦ ?_
  rw [hmem, DependencyGraph.contains_ofResources fun r hr target ↦ dependency_mem built hr]

end Build

section Layout

variable (built : DefinitionSet.build rs = .ok s) (layout : m.Layout s parts)
include built layout

/-- The order of a migration has every resource once. -/
theorem order_perm (distinct : (rs.map Resource.name).Nodup) :
    m.order.Perm (rs.map Resource.name) :=
  perm_of_order built distinct layout.ordered

theorem exists_resourceTable (distinct : (rs.map Resource.name).Nodup) (hd : d ∈ s.definitions) :
    ∃ p ∈ parts, p.definition = d := by
  have hname : d.name ∈ m.order := by
    rw [(order_perm built layout distinct).mem_iff, ← map_name_definitions built]
    exact List.mem_map_of_mem hd
  obtain ⟨p, hp, hfor⟩ := exists_of_mem_left layout.resources hname
  have hget := (get?_eq_some_iff built distinct).mpr ⟨hd, rfl⟩
  exact ⟨p, hp, Option.some.inj (hfor.found.symm.trans hget)⟩

/-- The table that a foreign key of a resource refers to is its own or one before it. -/
theorem exists_referenced {first last : List ResourceTable} (hparts : parts = first ++ p :: last)
    (hc : c ∈ p.table.columns) (href : c.reference = some ref) :
    ref.table = p.table.name ∨ ∃ q ∈ first, q.table.name = ref.table := by
  have hfirst : ∀ q ∈ first, q ∈ parts := fun q hq ↦ hparts ▸ List.mem_append_left _ hq
  have hp : p ∈ parts := hparts ▸ List.mem_append_right _ List.mem_cons_self
  obtain ⟨hd, htable⟩ := isFor_of_mem layout hp
  obtain ⟨l, hl, hst, href⟩ := exists_link_of_reference htable hc href
  obtain ⟨hr, hdefine⟩ := define_of_mem built hd
  obtain ⟨target, hleads⟩ := exists_leadsTo hdefine hl
  rcases hleads.dependsOn hst with hself | hdep
  · refine .inl ?_
    rw [href, table_name_of_mem layout hp, hself]
    rfl
  · have hmem := DependencyGraph.mem_dependenciesOf_ofResources.mpr ⟨_, hr, rfl, hdep⟩
    rw [← resources_of_build built] at hmem
    obtain ⟨-, -, hordered⟩ := DependencyGraph.arranges_of_order layout.ordered
    have hsplit : m.order = first.map (fun q ↦ q.definition.name) ++
        p.definition.name :: last.map fun q ↦ q.definition.name := by
      rw [← names_of_layout layout, hparts, List.map_append, List.map_cons]
    obtain ⟨q, hq, hname⟩ := List.mem_map.mp (hordered _ _ _ hsplit _ hmem)
    refine .inr ⟨q, hq, ?_⟩
    rw [table_name_of_mem layout (hfirst q hq), href, ← hname]
    rfl

end Layout

theorem createTable_mem_flatMap {first : List ResourceTable} (hp : p ∈ first) :
    .createTable p.table ∈ first.flatMap ResourceTable.steps :=
  List.mem_flatMap.mpr ⟨p, hp, p.mem_steps⟩

/-- The column that the trigger refreshes is there where there is a trigger. -/
theorem hasColumn_updatedAt (accepted : resourcesOf ds = .ok rs) (hr : d.resource ∈ rs)
    (htable : d.toTable = .ok t) (h : d.resource.builtIns.updatedAt = true) :
    t.HasColumn updatedAtColumn := by
  obtain ⟨a, ha⟩ := SortedMap.contains_eq_true_iff.mp (accepted_updatedAt accepted hr h)
  have hfield : ⟨BuiltIn.updatedAt.key, updatedAtColumn, a⟩ ∈ d.metaFields :=
    List.mem_map.mpr ⟨_, SortedMap.get?_eq_some_iff.mp ha, rfl⟩
  exact hasColumn_field htable (List.mem_append_right _ hfield)

/-! ## The migration -/

/-- A migration that refers to nothing that it has not created before. -/
structure Migration.RefersBack (m : Migration) (s : DefinitionSet) : Prop where
  /-- A foreign key refers to the table it is in or to one that is created before. -/
  reference : ∀ before t after, m.steps = before ++ .createTable t :: after →
    ∀ c ∈ t.columns, ∀ ref, c.reference = some ref →
      ref.table = t.name ∨ ∃ u, .createTable u ∈ before ∧ u.name = ref.table
  /-- A trigger comes after its table, which has the column that the trigger refreshes. -/
  trigger : ∀ before table after, m.steps = before ++ .updatedAtTrigger table :: after →
    ∃ t, .createTable t ∈ before ∧ t.name = table ∧ t.HasColumn updatedAtColumn
  /-- The first statement creates the function that every trigger executes. -/
  function : (∃ body, m.statements.head? =
      some ("CREATE OR REPLACE FUNCTION " ++ updatedAtFunction.escaped ++ "() " ++ body)) ∧
    ∀ table, .updatedAtTrigger table ∈ m.steps → ∃ event, (Step.updatedAtTrigger table).render =
      event ++ " EXECUTE PROCEDURE " ++ updatedAtFunction.escaped ++ "()"
  /-- A link table comes after the two tables that it links. -/
  linkTable : ∀ d ∈ s.definitions, ∀ l ∈ d.links, l.storage.isHostedAssociative = true →
    ∃ t, d.linkTable? l = some t ∧ .createTable t ∈ m.steps ∧
      ∀ before after, m.steps = before ++ .createTable t :: after →
        (∃ u, .createTable u ∈ before ∧ u.name = d.table) ∧
        ∃ u, .createTable u ∈ before ∧ u.name = ⟨l.related⟩
  /-- The order has every resource once. -/
  order : m.order.Nodup ∧ m.order.Perm (s.definitions.map Definition.name)
  /-- The tables of the resources are created in this order. -/
  tables : (m.tables.map fun t ↦ t.name.raw).filter (· ∈ s.definitions.map Definition.name) =
    m.order

section Compiled

variable (accepted : resourcesOf ds = .ok rs) (built : DefinitionSet.build rs = .ok s)
variable (layout : m.Layout s parts)
include accepted built layout

theorem exists_created_resource (hd : d ∈ s.definitions) :
    ∃ u, .createTable u ∈ parts.flatMap ResourceTable.steps ∧ u.name = d.table := by
  obtain ⟨p, hp, rfl⟩ := exists_resourceTable built layout (accepted_distinct accepted) hd
  exact ⟨p.table, createTable_mem_flatMap hp, table_name_of_mem layout hp⟩

theorem exists_created_related (hd : d ∈ s.definitions) (hl : l ∈ d.links) :
    ∃ u, .createTable u ∈ parts.flatMap ResourceTable.steps ∧ u.name = ⟨l.related⟩ := by
  obtain ⟨e, he, hname⟩ := exists_related built hd hl
  obtain ⟨u, hu, huname⟩ := exists_created_resource accepted built layout he
  refine ⟨u, hu, huname.trans ?_⟩
  rw [← hname]
  rfl

theorem reference_of_layout (hsplit : m.steps = before ++ .createTable t :: after)
    (hc : c ∈ t.columns) (href : c.reference = some ref) :
    ref.table = t.name ∨ ∃ u, .createTable u ∈ before ∧ u.name = ref.table := by
  rcases createTable_of_layout layout hsplit with
    ⟨first, p, last, hparts, rfl, rfl⟩ | ⟨p, hp, ht, inner, rfl⟩
  · refine (exists_referenced built layout hparts hc href).imp_right ?_
    rintro ⟨q, hq, hname⟩
    exact ⟨q.table, List.mem_cons_of_mem _ (createTable_mem_flatMap hq), hname⟩
  · obtain ⟨l, hl, table, localColumn, foreignColumn, hst, ht⟩ := mem_linkTables_iff.mp ht
    obtain ⟨hd, -⟩ := isFor_of_mem layout hp
    have hcreated : ∃ u, .createTable u ∈ parts.flatMap ResourceTable.steps ∧
        u.name = ref.table := by
      rcases (links_of_linkTable? hst ht).reference c hc ref href with hlocal | hforeign
      · rw [hlocal]
        exact exists_created_resource accepted built layout hd
      · rw [hforeign]
        exact exists_created_related accepted built layout hd hl
    obtain ⟨u, hu, hname⟩ := hcreated
    exact .inr ⟨u, List.mem_append_left _ (List.mem_cons_of_mem _ hu), hname⟩

theorem trigger_of_layout {table : Ident}
    (hsplit : m.steps = before ++ .updatedAtTrigger table :: after) :
    ∃ t, .createTable t ∈ before ∧ t.name = table ∧ t.HasColumn updatedAtColumn := by
  obtain ⟨p, hp, rfl, hbuiltIn, hcreate⟩ := updatedAtTrigger_of_layout layout hsplit
  obtain ⟨hd, htable⟩ := isFor_of_mem layout hp
  obtain ⟨hr, -⟩ := define_of_mem built hd
  exact ⟨p.table, hcreate, table_name_of_mem layout hp,
    hasColumn_updatedAt accepted hr htable hbuiltIn⟩

theorem linkTable_of_layout (hd : d ∈ s.definitions) (hl : l ∈ d.links)
    (hhosted : l.storage.isHostedAssociative = true) :
    ∃ t, d.linkTable? l = some t ∧ .createTable t ∈ m.steps ∧
      ∀ before after, m.steps = before ++ .createTable t :: after →
        (∃ u, .createTable u ∈ before ∧ u.name = d.table) ∧
        ∃ u, .createTable u ∈ before ∧ u.name = ⟨l.related⟩ := by
  obtain ⟨table, localColumn, foreignColumn, hst⟩ := isHostedAssociative_iff.mp hhosted
  obtain ⟨t, ht⟩ := exists_linkTable? d hst
  have hmem : t ∈ d.linkTables :=
    mem_linkTables_iff.mpr ⟨l, hl, table, localColumn, foreignColumn, hst, ht⟩
  obtain ⟨p, hp, rfl⟩ := exists_resourceTable built layout (accepted_distinct accepted) hd
  refine ⟨t, ht, ?_, fun before after hsplit ↦ ?_⟩
  · rw [layout.steps]
    exact List.mem_append_right _ (List.mem_map_of_mem (List.mem_flatMap.mpr ⟨p, hp, hmem⟩))
  · rcases createTable_of_layout layout hsplit with
      ⟨first, q, last, hparts, rfl, -⟩ | ⟨_, -, -, inner, rfl⟩
    · have hq : q ∈ parts := hparts ▸ List.mem_append_right _ List.mem_cons_self
      exact absurd rfl (linkTable_name_ne layout hq hp hmem)
    · obtain ⟨u, hu, hname⟩ := exists_created_resource accepted built layout hd
      obtain ⟨v, hv, hrelated⟩ := exists_created_related accepted built layout hd hl
      exact ⟨⟨u, List.mem_append_left _ (List.mem_cons_of_mem _ hu), hname⟩,
        v, List.mem_append_left _ (List.mem_cons_of_mem _ hv), hrelated⟩

theorem tables_order_of_layout :
    (m.tables.map fun t ↦ t.name.raw).filter (· ∈ s.definitions.map Definition.name) =
      m.order := by
  have hnames : parts.map (fun p ↦ p.table.name.raw) = m.order := by
    rw [← names_of_layout layout]
    refine List.map_congr_left fun p hp ↦ ?_
    rw [table_name_of_mem layout hp]
    rfl
  have hlinks : ((parts.flatMap fun p ↦ p.definition.linkTables).map fun t ↦ t.name.raw).filter
      (· ∈ s.definitions.map Definition.name) = [] := by
    rw [List.filter_eq_nil_iff]
    intro name hname hmem
    obtain ⟨t, ht, rfl⟩ := List.mem_map.mp hname
    obtain ⟨q, hq, ht⟩ := List.mem_flatMap.mp ht
    obtain ⟨d, hd, hdname⟩ := List.mem_map.mp (of_decide_eq_true hmem)
    obtain ⟨p, hp, rfl⟩ := exists_resourceTable built layout (accepted_distinct accepted) hd
    refine linkTable_name_ne layout hp hq ht ?_
    rw [table_name_of_mem layout hp]
    exact hdname
  rw [tables_of_layout layout, List.map_append, List.filter_append, hlinks, List.append_nil,
    List.map_map]
  refine (List.filter_eq_self.mpr fun name hname ↦ ?_).trans hnames
  have hmem : name ∈ m.order := hnames ▸ hname
  rw [(order_perm built layout (accepted_distinct accepted)).mem_iff,
    ← map_name_definitions built] at hmem
  exact decide_eq_true hmem

end Compiled

theorem append_split {text first last : String} (h : text = first ++ last) (start : String) :
    start ++ text = start ++ first ++ last := by
  rw [h, String.append_assoc]

theorem exists_function_body : ∃ body, renderUpdatedAtFunction =
    "CREATE OR REPLACE FUNCTION " ++ updatedAtFunction.escaped ++ "() " ++ body := by
  have hsplit : "() RETURNS TRIGGER AS $$\nBEGIN\n    NEW." =
      "() " ++ "RETURNS TRIGGER AS $$\nBEGIN\n    NEW." := by
    decide +kernel
  refine ⟨"RETURNS TRIGGER AS $$\nBEGIN\n    NEW." ++ updatedAtColumn.escaped ++
    " = now();\n    RETURN NEW;\nEND;\n$$ LANGUAGE plpgsql", ?_⟩
  rw [← String.append_assoc, ← String.append_assoc]
  exact congrArg (fun text ↦ text ++ updatedAtColumn.escaped ++ _) (append_split hsplit _)

theorem exists_trigger_event (table : Ident) : ∃ event, renderUpdatedAtTrigger table =
    event ++ " EXECUTE PROCEDURE " ++ updatedAtFunction.escaped ++ "()" := by
  have hsplit : " FOR EACH ROW EXECUTE PROCEDURE " = " FOR EACH ROW" ++ " EXECUTE PROCEDURE " := by
    decide +kernel
  exact ⟨_, congrArg (fun text ↦ text ++ updatedAtFunction.escaped ++ "()") (append_split hsplit _)⟩

/-- **A migration refers to nothing that is not there.** -/
theorem migration_refersBack (accepted : resourcesOf ds = .ok rs)
    (built : DefinitionSet.build rs = .ok s) (migrated : s.migration = .ok m) : m.RefersBack s := by
  obtain ⟨parts, layout⟩ := migration_eq_ok_iff.mp migrated
  have hperm := order_perm built layout (accepted_distinct accepted)
  refine ⟨fun before t after hsplit c hc ref href ↦ ?_, fun before table after hsplit ↦ ?_,
    ⟨?_, fun table _ ↦ exists_trigger_event table⟩, fun d hd l hl hhosted ↦ ?_, ⟨?_, ?_⟩, ?_⟩
  · exact reference_of_layout accepted built layout hsplit hc href
  · exact trigger_of_layout accepted built layout hsplit
  · obtain ⟨body, hbody⟩ := exists_function_body
    refine ⟨body, ?_⟩
    rw [← hbody, Migration.statements, layout.steps]
    rfl
  · exact linkTable_of_layout accepted built layout hd hl hhosted
  · exact hperm.nodup_iff.mpr (accepted_distinct accepted)
  · rw [map_name_definitions built]
    exact hperm
  · exact tables_order_of_layout accepted built layout

/-- Cats with an owner and a mother, and persons with friends. -/
def household : List Description :=
  [((Description.named "cat").withRelationship "owner" (.between "person" .manyToOne true)
    |>.withRelationship "mother" (.between "cat" .manyToOne true)),
   (Description.named "person").withRelationship "friends" (.between "person" .manyToMany true)]

theorem migration_refersBack_household :
    ∃ rs s m, resourcesOf household = .ok rs ∧ DefinitionSet.build rs = .ok s ∧
      s.migration = .ok m ∧ m.RefersBack s := by
  have hsome : (migrationOf? household).isSome = true := by decide +kernel
  obtain ⟨rs, s, m, hrs, hs, hm⟩ := exists_of_migrationOf? hsome
  exact ⟨rs, s, m, hrs, hs, hm, migration_refersBack hrs hs hm⟩

end ResourceSchema
