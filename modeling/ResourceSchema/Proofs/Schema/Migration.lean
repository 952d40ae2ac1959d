import ResourceSchema.Proofs.Schema.Linking
import ResourceSchema.Proofs.Schema.Table

/-!
# How a migration is laid out

A migration that is made creates the tables of the resources, in the order of their dependencies
and each with its trigger, and then the link tables.  It is made exactly if this order exists, every
resource of it has a table, and no name comes twice among the tables or among the columns of one.
-/

namespace ResourceSchema

open Sql

variable {s : DefinitionSet} {m : Migration} {d : Definition} {l : Link} {f : FieldColumn}
variable {t : Table} {ts : List Table} {draft draft' : Draft} {name : String} {names : List String}

/-! ## Tables that can be created -/

theorem firstRepeated?_eq_none_iff {seen : List String} :
    firstRepeated? seen names = none ↔ names.Nodup ∧ ∀ name ∈ names, name ∉ seen := by
  induction names generalizing seen with
  | nil => simp [firstRepeated?]
  | cons first rest ih =>
      rw [firstRepeated?]
      split
      · next h =>
        have hseen : first ∈ seen := List.contains_iff_mem.mp h
        constructor
        · intro hnone
          cases hnone
        · rintro ⟨-, hfresh⟩
          exact absurd hseen (hfresh first List.mem_cons_self)
      · next h =>
        have hseen : first ∉ seen := fun hmem ↦ h (List.contains_iff_mem.mpr hmem)
        rw [ih, List.nodup_cons]
        constructor
        · rintro ⟨hnodup, hfresh⟩
          refine ⟨⟨fun hmem ↦ hfresh first hmem List.mem_cons_self, hnodup⟩, ?_⟩
          intro name hname
          rcases List.mem_cons.mp hname with rfl | hname
          · exact hseen
          · exact fun hmem ↦ hfresh name hname (List.mem_cons_of_mem _ hmem)
        · rintro ⟨⟨hfirst, hnodup⟩, hfresh⟩
          refine ⟨hnodup, fun name hname hmem ↦ ?_⟩
          rcases List.mem_cons.mp hmem with rfl | hmem
          · exact hfirst hname
          · exact hfresh name (List.mem_cons_of_mem _ hname) hmem

/-- The names of the columns. -/
def Sql.Table.columnNames (t : Table) : List String := t.columns.map fun c ↦ c.name.raw

/-- The tables can be created one after the other where those with the names `names` exist. -/
structure Creatable (names : List String) (ts : List Table) : Prop where
  distinct : (ts.map fun t ↦ t.name.raw).Nodup
  fresh : ∀ t ∈ ts, t.name.raw ∉ names
  columns : ∀ t ∈ ts, t.columnNames.Nodup

theorem creatable_nil (names : List String) : Creatable names [] where
  distinct := List.nodup_nil
  fresh := fun _ ht ↦ nomatch ht
  columns := fun _ ht ↦ nomatch ht

theorem creatable_cons_iff :
    Creatable names (t :: ts) ↔
      (t.name.raw ∉ names ∧ t.columnNames.Nodup) ∧ Creatable (t.name.raw :: names) ts := by
  constructor
  · rintro ⟨hdistinct, hfresh, hcolumns⟩
    obtain ⟨hfirst, hdistinct⟩ := List.nodup_cons.mp hdistinct
    refine ⟨⟨hfresh t List.mem_cons_self, hcolumns t List.mem_cons_self⟩, hdistinct, ?_, ?_⟩
    · intro u hu hmem
      rcases List.mem_cons.mp hmem with hname | hmem
      · exact hfirst (List.mem_map.mpr ⟨u, hu, hname⟩)
      · exact hfresh u (List.mem_cons_of_mem _ hu) hmem
    · exact fun u hu ↦ hcolumns u (List.mem_cons_of_mem _ hu)
  · rintro ⟨⟨hnew, hnodup⟩, hdistinct, hfresh, hcolumns⟩
    refine ⟨List.nodup_cons.mpr ⟨fun hmem ↦ ?_, hdistinct⟩, ?_, ?_⟩
    · obtain ⟨u, hu, hname⟩ := List.mem_map.mp hmem
      exact hfresh u hu (List.mem_cons.mpr (.inl hname))
    · intro u hu
      rcases List.mem_cons.mp hu with rfl | hu
      · exact hnew
      · exact fun hmem ↦ hfresh u hu (List.mem_cons_of_mem _ hmem)
    · intro u hu
      rcases List.mem_cons.mp hu with rfl | hu
      · exact hnodup
      · exact hcolumns u hu

/-- Some of the tables can be created where all of them can. -/
theorem Creatable.sublist {us : List Table} (h : Creatable names ts) (hus : us.Sublist ts) :
    Creatable names us where
  distinct := h.distinct.sublist (hus.map _)
  fresh := fun t ht ↦ h.fresh t (hus.subset ht)
  columns := fun t ht ↦ h.columns t (hus.subset ht)

theorem creatable_append_iff {us : List Table} :
    Creatable names (ts ++ us) ↔
      Creatable names ts ∧ Creatable ((ts.map fun t ↦ t.name.raw).reverse ++ names) us := by
  induction ts generalizing names with
  | nil => exact (and_iff_right (creatable_nil names)).symm
  | cons t rest ih =>
      rw [List.cons_append, creatable_cons_iff, ih, creatable_cons_iff, List.map_cons,
        List.reverse_cons, List.append_assoc, List.singleton_append]
      exact and_assoc.symm

/-! ## Drafts -/

/-- The draft with one more table. -/
def Draft.push (draft : Draft) (t : Table) : Draft :=
  { draft with
    names := t.name.raw :: draft.names
    steps := draft.steps ++ [.createTable t] }

theorem create_eq_ok_iff :
    draft.create t = .ok draft' ↔
      (t.name.raw ∉ draft.names ∧ t.columnNames.Nodup) ∧ draft' = draft.push t := by
  unfold Draft.create
  split
  · next h =>
    constructor
    · intro hok
      cases hok
    · rintro ⟨⟨hnew, -⟩, -⟩
      exact absurd (List.contains_iff_mem.mp h) hnew
  · next h =>
    have hnew : t.name.raw ∉ draft.names := fun hmem ↦ h (List.contains_iff_mem.mpr hmem)
    split
    · next column hrepeated =>
      constructor
      · intro hok
        cases hok
      · rintro ⟨⟨-, hnodup⟩, -⟩
        have hnone := firstRepeated?_eq_none_iff.mpr
          ⟨hnodup, fun _ _ ↦ List.not_mem_nil (α := String)⟩
        exact nomatch hrepeated.symm.trans hnone
    · next hnone =>
      obtain ⟨hnodup, -⟩ := firstRepeated?_eq_none_iff.mp hnone
      rw [Except.ok.injEq]
      constructor
      · rintro rfl
        exact ⟨⟨hnew, hnodup⟩, rfl⟩
      · rintro ⟨-, rfl⟩
        rfl

theorem foldlM_create_eq_ok_iff :
    ts.foldlM Draft.create draft = .ok draft' ↔
      Creatable draft.names ts ∧ draft' = ts.foldl Draft.push draft := by
  induction ts generalizing draft with
  | nil =>
      rw [List.foldlM_nil, pure_eq_ok_iff, and_iff_right (creatable_nil _), eq_comm]
      rfl
  | cons t rest ih =>
      rw [List.foldlM_cons, bind_eq_ok_iff, creatable_cons_iff, List.foldl_cons]
      simp only [create_eq_ok_iff, ih]
      constructor
      · rintro ⟨_, ⟨hnew, rfl⟩, hrest, rfl⟩
        exact ⟨⟨hnew, hrest⟩, rfl⟩
      · rintro ⟨⟨hnew, hrest⟩, rfl⟩
        exact ⟨_, ⟨hnew, rfl⟩, hrest, rfl⟩

theorem steps_foldl_push (ts : List Table) (draft : Draft) :
    (ts.foldl Draft.push draft).steps = draft.steps ++ ts.map .createTable := by
  induction ts generalizing draft with
  | nil => exact (List.append_nil _).symm
  | cons t rest ih =>
      rw [List.foldl_cons, ih, Draft.push, List.append_assoc]
      rfl

/-! ## Resources -/

/-- A resource in a migration: its definition, and the table that is made of it. -/
structure ResourceTable where
  definition : Definition
  table : Table

namespace ResourceTable

/-- The statements for a resource. -/
def steps (p : ResourceTable) : List Step :=
  .createTable p.table ::
    if p.definition.resource.builtIns.updatedAt then [.updatedAtTrigger p.definition.table] else []

/-- The resource is the one with the name `name`. -/
structure IsFor (p : ResourceTable) (s : DefinitionSet) (name : String) : Prop where
  found : s.get? name = some p.definition
  table : p.definition.toTable = .ok p.table

end ResourceTable

/-- The draft with one more resource. -/
def Draft.pushResource (draft : Draft) (p : ResourceTable) : Draft where
  names := p.table.name.raw :: draft.names
  steps := draft.steps ++ p.steps
  linkTables := draft.linkTables ++ p.definition.linkTables

theorem createResource_eq_ok_iff :
    draft.createResource s name = .ok draft' ↔
      ∃ p : ResourceTable, p.IsFor s name ∧
        (p.table.name.raw ∉ draft.names ∧ p.table.columnNames.Nodup) ∧
        draft' = draft.pushResource p := by
  unfold Draft.createResource
  split
  · next hnone =>
    constructor
    · intro hok
      cases hok
    · rintro ⟨p, hfor, -⟩
      exact nomatch hnone.symm.trans hfor.found
  · next d hd =>
    simp only [bind_eq_ok_iff, create_eq_ok_iff, pure_eq_ok_iff]
    constructor
    · rintro ⟨t, ht, _, ⟨hnew, rfl⟩, rfl⟩
      refine ⟨⟨d, t⟩, ⟨hd, ht⟩, hnew, ?_⟩
      simp [Draft.push, Draft.pushResource, ResourceTable.steps]
    · rintro ⟨⟨d', t⟩, ⟨hfound, ht⟩, hnew, rfl⟩
      obtain rfl : d = d' := Option.some.inj (hd.symm.trans hfound)
      refine ⟨t, ht, _, ⟨hnew, rfl⟩, ?_⟩
      simp [Draft.push, Draft.pushResource, ResourceTable.steps]

theorem foldlM_createResource_eq_ok_iff :
    names.foldlM (Draft.createResource s) draft = .ok draft' ↔
      ∃ parts : List ResourceTable,
        List.Forall₂ (fun name p ↦ ResourceTable.IsFor p s name) names parts ∧
        Creatable draft.names (parts.map ResourceTable.table) ∧
        draft' = parts.foldl Draft.pushResource draft := by
  induction names generalizing draft with
  | nil =>
      rw [List.foldlM_nil, pure_eq_ok_iff]
      constructor
      · rintro rfl
        exact ⟨[], .nil, creatable_nil _, rfl⟩
      · rintro ⟨parts, hparts, -, rfl⟩
        cases hparts
        rfl
  | cons name rest ih =>
      rw [List.foldlM_cons, bind_eq_ok_iff]
      simp only [createResource_eq_ok_iff, ih]
      constructor
      · rintro ⟨_, ⟨p, hfor, hnew, rfl⟩, parts, hparts, hcreatable, rfl⟩
        exact ⟨p :: parts, .cons hfor hparts, creatable_cons_iff.mpr ⟨hnew, hcreatable⟩, rfl⟩
      · rintro ⟨parts, hparts, hcreatable, rfl⟩
        cases hparts with
        | cons hfor hparts =>
            obtain ⟨hnew, hcreatable⟩ := creatable_cons_iff.mp hcreatable
            exact ⟨_, ⟨_, hfor, hnew, rfl⟩, _, hparts, hcreatable, rfl⟩

theorem foldl_pushResource (parts : List ResourceTable) (draft : Draft) :
    parts.foldl Draft.pushResource draft =
      { names := (parts.map fun p ↦ p.table.name.raw).reverse ++ draft.names
        steps := draft.steps ++ parts.flatMap ResourceTable.steps
        linkTables := draft.linkTables ++ parts.flatMap fun p ↦ p.definition.linkTables } := by
  induction parts generalizing draft with
  | nil => simp
  | cons p rest ih =>
      rw [List.foldl_cons, ih]
      simp [Draft.pushResource]

/-! ## Migrations -/

/-- The statements of a migration for the resources `parts`. -/
structure Migration.Layout (m : Migration) (s : DefinitionSet) (parts : List ResourceTable) :
    Prop where
  ordered : (DependencyGraph.ofResources s.resources).order = .ok m.order
  resources : List.Forall₂ (fun name p ↦ ResourceTable.IsFor p s name) m.order parts
  steps : m.steps = .updatedAtFunction :: parts.flatMap ResourceTable.steps ++
    (parts.flatMap fun p ↦ p.definition.linkTables).map .createTable
  creatable : Creatable []
    (parts.map ResourceTable.table ++ parts.flatMap fun p ↦ p.definition.linkTables)

/-- A migration is made exactly if it can be laid out. -/
theorem migration_eq_ok_iff : s.migration = .ok m ↔ ∃ parts, m.Layout s parts := by
  rw [DefinitionSet.migration, bind_eq_ok_iff]
  simp only [mapError_eq_ok_iff, bind_eq_ok_iff, foldlM_createResource_eq_ok_iff,
    foldlM_create_eq_ok_iff, pure_eq_ok_iff]
  constructor
  · rintro ⟨order, horder, _, ⟨parts, hparts, hresources, rfl⟩, _, ⟨hlinks, rfl⟩, rfl⟩
    rw [foldl_pushResource] at hlinks ⊢
    refine ⟨parts, horder, hparts, ?_, creatable_append_iff.mpr ⟨hresources, ?_⟩⟩
    · rw [steps_foldl_push]
      rfl
    · rw [List.map_map]
      exact hlinks
  · rintro ⟨parts, horder, hparts, hsteps, hcreatable⟩
    obtain ⟨hresources, hlinks⟩ := creatable_append_iff.mp hcreatable
    rw [List.map_map] at hlinks
    refine ⟨m.order, horder, _, ⟨parts, hparts, hresources, rfl⟩, _, ⟨?_, rfl⟩, ?_⟩
    · rw [foldl_pushResource]
      exact hlinks
    · rw [foldl_pushResource, steps_foldl_push]
      exact congrArg (Migration.mk m.order) hsteps.symm

/-! ## The statements of a layout -/

variable {parts : List ResourceTable} {p : ResourceTable} {step : Step} {before after : List Step}

/-- The table that a statement creates. -/
def Step.table? : Step → Option Table
  | createTable table => some table
  | updatedAtFunction | updatedAtTrigger _ => none

theorem tables_eq (m : Migration) : m.tables = m.steps.filterMap Step.table? := by
  rw [Migration.tables]
  congr 1
  funext step
  cases step with
  | updatedAtFunction | createTable | updatedAtTrigger => rfl

theorem ResourceTable.mem_steps (p : ResourceTable) : .createTable p.table ∈ p.steps :=
  List.mem_cons_self

theorem ResourceTable.filterMap_flatMap_steps (parts : List ResourceTable) :
    (parts.flatMap ResourceTable.steps).filterMap Step.table? = parts.map ResourceTable.table := by
  induction parts with
  | nil => rfl
  | cons p rest ih =>
      rw [List.flatMap_cons, List.filterMap_append, ih, ResourceTable.steps]
      split
      · rfl
      · rfl

theorem ResourceTable.steps_eq_append_cons {inner rest : List Step}
    (h : p.steps = inner ++ step :: rest) :
    (inner = [] ∧ step = .createTable p.table) ∨
      (.createTable p.table ∈ inner ∧ step = .updatedAtTrigger p.definition.table ∧
        p.definition.resource.builtIns.updatedAt = true) := by
  unfold ResourceTable.steps at h
  cases inner with
  | nil =>
      obtain ⟨rfl, -⟩ := List.cons_eq_cons.mp h
      exact .inl ⟨rfl, rfl⟩
  | cons first inner =>
      rw [List.cons_append] at h
      obtain ⟨rfl, htrigger⟩ := List.cons_eq_cons.mp h
      have hstep : step ∈ inner ++ step :: rest := List.mem_append_right _ List.mem_cons_self
      rw [← htrigger] at hstep
      split at hstep
      · next hbuiltIn =>
        exact .inr ⟨List.mem_cons_self, List.mem_singleton.mp hstep, hbuiltIn⟩
      · cases hstep

section Layout

variable (layout : m.Layout s parts)
include layout

theorem tables_of_layout :
    m.tables = parts.map ResourceTable.table ++ parts.flatMap fun p ↦ p.definition.linkTables := by
  rw [tables_eq, layout.steps, List.filterMap_append, List.filterMap_cons_none rfl,
    ResourceTable.filterMap_flatMap_steps, List.filterMap_map]
  congr 1
  exact List.filterMap_some

/-- A statement is the first one, stands with its resource, or creates a link table when all
resources are done. -/
theorem split_of_layout (h : m.steps = before ++ step :: after) :
    (before = [] ∧ step = .updatedAtFunction) ∨
    (∃ first p last inner rest, parts = first ++ p :: last ∧ p.steps = inner ++ step :: rest ∧
      before = .updatedAtFunction :: first.flatMap ResourceTable.steps ++ inner) ∨
    (∃ p ∈ parts, ∃ t ∈ p.definition.linkTables, step = .createTable t ∧
      ∃ inner, before = .updatedAtFunction :: parts.flatMap ResourceTable.steps ++ inner) := by
  rw [layout.steps] at h
  rcases append_eq_append_cons h with ⟨rest, hfirst⟩ | ⟨inner, rfl, hlinks⟩
  · cases before with
    | nil =>
        obtain ⟨rfl, -⟩ := List.cons_eq_cons.mp hfirst
        exact .inl ⟨rfl, rfl⟩
    | cons _ before =>
        obtain ⟨rfl, hsteps⟩ := List.cons_eq_cons.mp hfirst
        obtain ⟨first, p, last, inner, rest, hparts, hp, rfl⟩ := flatMap_eq_append_cons hsteps
        exact .inr (.inl ⟨first, p, last, inner, rest, hparts, hp, rfl⟩)
  · have hstep : step ∈ inner ++ step :: after := List.mem_append_right _ List.mem_cons_self
    rw [← hlinks] at hstep
    obtain ⟨t, ht, rfl⟩ := List.mem_map.mp hstep
    obtain ⟨p, hp, ht⟩ := List.mem_flatMap.mp ht
    exact .inr (.inr ⟨p, hp, t, ht, rfl, inner, rfl⟩)

/-- A table is created for its resource, behind the resources before it, or is a link table and
created when all resources are done. -/
theorem createTable_of_layout (h : m.steps = before ++ .createTable t :: after) :
    (∃ first p last, parts = first ++ p :: last ∧ t = p.table ∧
      before = .updatedAtFunction :: first.flatMap ResourceTable.steps) ∨
    (∃ p ∈ parts, t ∈ p.definition.linkTables ∧
      ∃ inner, before = .updatedAtFunction :: parts.flatMap ResourceTable.steps ++ inner) := by
  rcases split_of_layout layout h with
    ⟨-, hstep⟩ | ⟨first, p, last, inner, rest, hparts, hp, rfl⟩ | ⟨p, hp, u, hu, hstep, hbefore⟩
  · cases hstep
  · rcases ResourceTable.steps_eq_append_cons hp with ⟨rfl, hstep⟩ | ⟨-, hstep, -⟩
    · refine .inl ⟨first, p, last, hparts, Step.createTable.inj hstep, ?_⟩
      exact List.append_nil _
    · cases hstep
  · obtain rfl := Step.createTable.inj hstep
    exact .inr ⟨p, hp, hu, hbefore⟩

/-- A trigger stands behind the table of its resource. -/
theorem updatedAtTrigger_of_layout {table : Ident}
    (h : m.steps = before ++ .updatedAtTrigger table :: after) :
    ∃ p ∈ parts, table = p.definition.table ∧ p.definition.resource.builtIns.updatedAt = true ∧
      .createTable p.table ∈ before := by
  rcases split_of_layout layout h with
    ⟨-, hstep⟩ | ⟨first, p, last, inner, rest, rfl, hp, rfl⟩ | ⟨p, -, u, -, hstep, -⟩
  · cases hstep
  · rcases ResourceTable.steps_eq_append_cons hp with ⟨-, hstep⟩ | ⟨hcreate, hstep, hbuiltIn⟩
    · cases hstep
    · exact ⟨p, List.mem_append_right _ List.mem_cons_self, Step.updatedAtTrigger.inj hstep,
        hbuiltIn, List.mem_append_right _ hcreate⟩
  · cases hstep

theorem names_of_layout : parts.map (fun p ↦ p.definition.name) = m.order := by
  have h := map_eq_map_of_forall₂ layout.resources (f := id) (g := fun p ↦ p.definition.name)
    fun name p hfor ↦ (mem_of_get? hfor.found).2.symm
  rw [List.map_id] at h
  exact h.symm

theorem isFor_of_mem (hp : p ∈ parts) :
    p.definition ∈ s.definitions ∧ p.definition.toTable = .ok p.table := by
  obtain ⟨name, -, hfor⟩ := exists_of_mem_right layout.resources hp
  exact ⟨(mem_of_get? hfor.found).1, hfor.table⟩

theorem table_name_of_mem (hp : p ∈ parts) : p.table.name = p.definition.table :=
  name_of_toTable (isFor_of_mem layout hp).2

/-- No link table has the name of the table of a resource. -/
theorem linkTable_name_ne {q : ResourceTable} (hp : p ∈ parts) (hq : q ∈ parts)
    (ht : t ∈ q.definition.linkTables) : p.table.name.raw ≠ t.name.raw := by
  have hdistinct := layout.creatable.distinct
  rw [List.map_append, List.nodup_append] at hdistinct
  obtain ⟨-, -, hdisjoint⟩ := hdistinct
  exact hdisjoint _ (List.mem_map_of_mem (List.mem_map_of_mem hp))
    _ (List.mem_map_of_mem (List.mem_flatMap.mpr ⟨q, hq, ht⟩))

end Layout

/-! ## From descriptions -/

/-- The migration of a set of descriptions, without the reason where there is none. -/
def migrationOf? (ds : List Description) : Option Migration := do
  let rs ← (resourcesOf ds).toOption
  let s ← (DefinitionSet.build rs).toOption
  s.migration.toOption

theorem toOption_eq_some_iff {ε α : Type} {x : Except ε α} {a : α} :
    x.toOption = some a ↔ x = .ok a := by
  cases x with
  | error e => simp [Except.toOption]
  | ok b => simp [Except.toOption]

theorem exists_of_migrationOf? {ds : List Description} (h : (migrationOf? ds).isSome = true) :
    ∃ rs s m, resourcesOf ds = .ok rs ∧ DefinitionSet.build rs = .ok s ∧ s.migration = .ok m := by
  obtain ⟨m, hm⟩ := Option.isSome_iff_exists.mp h
  simp only [migrationOf?, Option.bind_eq_bind, Option.bind_eq_some_iff, toOption_eq_some_iff] at hm
  obtain ⟨rs, hrs, s, hs, hm⟩ := hm
  exact ⟨rs, s, m, hrs, hs, hm⟩

end ResourceSchema
