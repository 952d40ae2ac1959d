import Mathlib.Data.List.Perm.Basic
import ResourceSchema.Proofs.Schema.Creation
import ResourceSchema.Request.Compiler

/-!
# The order of resources

Resources are looked up by their names, and where names are distinct a look-up finds the same in
every order.  So a relationship is linked in every order as it is in one, and the definitions are
the same but for their order.  The graph of dependencies knows no order at all.  What is made of a
set looks at the graph and looks definitions up, and so it is the same for every order.
-/

namespace ResourceSchema

open Sql

variable {rs rs' : List Resource} {r : Resource} {s s' : DefinitionSet}

/-! ## Linking -/

section Perm

variable (perm : rs.Perm rs') (distinct : (rs.map Resource.name).Nodup)
include perm distinct

theorem resourceNamed?_perm (name : String) : resourceNamed? rs' name = resourceNamed? rs name :=
  find?_reverse_key_perm perm distinct

theorem link_perm (r : Resource) (name : String) (rel : Relationship) :
    r.link rs' name rel = r.link rs name rel := by
  unfold Resource.link
  rw [resourceNamed?_perm perm distinct]

theorem define_perm (r : Resource) : r.define rs' = r.define rs := by
  unfold Resource.define
  simp only [link_perm perm distinct]

/-- A set that can be linked can be linked in every order, and has the same definitions. -/
theorem exists_build_perm (built : DefinitionSet.build rs = .ok s) :
    ∃ s', DefinitionSet.build rs' = .ok s' ∧ s.definitions.Perm s'.definitions := by
  obtain ⟨ds, hdefine, hds⟩ := List.perm_comp_forall₂ perm.symm (build_eq_ok_iff.mp built)
  refine ⟨⟨ds⟩, build_eq_ok_iff.mpr ?_, hds.symm⟩
  simpa only [define_perm perm distinct] using hdefine

theorem definitions_perm (built : DefinitionSet.build rs = .ok s)
    (built' : DefinitionSet.build rs' = .ok s') : s.definitions.Perm s'.definitions := by
  obtain ⟨s₀, hs₀, hperm⟩ := exists_build_perm perm distinct built
  obtain rfl : s₀ = s' := Except.ok.inj (hs₀.symm.trans built')
  exact hperm

theorem get?_perm (built : DefinitionSet.build rs = .ok s)
    (built' : DefinitionSet.build rs' = .ok s') (name : String) : s'.get? name = s.get? name := by
  rw [← map_name_definitions built] at distinct
  exact find?_reverse_key_perm
    (definitions_perm perm (map_name_definitions built ▸ distinct) built built') distinct

theorem exists_build_iff_perm :
    (∃ s, DefinitionSet.build rs = .ok s) ↔ ∃ s', DefinitionSet.build rs' = .ok s' := by
  have distinct' := (perm.map Resource.name).nodup_iff.mp distinct
  constructor
  · rintro ⟨s, built⟩
    obtain ⟨s', built', -⟩ := exists_build_perm perm distinct built
    exact ⟨s', built'⟩
  · rintro ⟨s', built'⟩
    obtain ⟨s, built, -⟩ := exists_build_perm perm.symm distinct' built'
    exact ⟨s, built⟩

end Perm

/-! ## What is made of a set -/

/-- The resource that a request is about. -/
def Request.resource : Request → String
  | read resource _ | create resource _ | update resource _ | delete resource _ => resource

section Request

variable {request : Request}

theorem allowing_congr {resource : String} (found : s'.get? resource = s.get? resource)
    (action : Action) : s'.allowing resource action = s.allowing resource action := by
  unfold DefinitionSet.allowing
  rw [found]

theorem accept_congr (found : s'.get? request.resource = s.get? request.resource) :
    request.accept s' = request.accept s := by
  have hallowing := allowing_congr found
  cases request with
  | read | create | update | delete =>
      unfold Request.accept
      simp only [Request.resource] at hallowing
      simp only [hallowing]

/-- A statement is made of what a look-up of its resource finds. -/
theorem compile_congr (found : s'.get? request.resource = s.get? request.resource)
    (authorization : Option Authorization) :
    (⟨s', authorization⟩ : QueryCompiler).compile request =
      (⟨s, authorization⟩ : QueryCompiler).compile request := by
  unfold QueryCompiler.compile QueryCompiler.prepare
  rw [accept_congr found]
  rfl

end Request

section Found

variable (found : ∀ name, s'.get? name = s.get? name)
include found

theorem createResource_of_get? (draft : Draft) (name : String) :
    Draft.createResource s' draft name = Draft.createResource s draft name := by
  unfold Draft.createResource
  rw [found]

/-- A migration is made of the graph and of what look-ups find. -/
theorem migration_of_get?
    (hgraph : DependencyGraph.ofResources s'.resources = DependencyGraph.ofResources s.resources) :
    s'.migration = s.migration := by
  have hcreate : Draft.createResource s' = Draft.createResource s :=
    funext fun draft ↦ funext fun name ↦ createResource_of_get? found draft name
  unfold DefinitionSet.migration
  rw [hgraph, hcreate]

theorem compile_of_get? (authorization : Option Authorization) (request : Request) :
    (⟨s', authorization⟩ : QueryCompiler).compile request =
      (⟨s, authorization⟩ : QueryCompiler).compile request :=
  compile_congr (found request.resource) authorization

end Found

/-- **The order of resources does not matter.**  A set can be linked in every order or in none, and
in every order it has the same migration, and the same statement for every request, or fails with
the same error. -/
theorem same_schema_of_perm (perm : rs.Perm rs') (distinct : (rs.map Resource.name).Nodup) :
    ((∃ s, DefinitionSet.build rs = .ok s) ↔ ∃ s', DefinitionSet.build rs' = .ok s') ∧
    ∀ s s', DefinitionSet.build rs = .ok s → DefinitionSet.build rs' = .ok s' →
      s'.migration = s.migration ∧ ∀ authorization request,
        (⟨s', authorization⟩ : QueryCompiler).compile request =
          (⟨s, authorization⟩ : QueryCompiler).compile request := by
  refine ⟨exists_build_iff_perm perm distinct, fun s s' built built' ↦ ?_⟩
  have found := get?_perm perm distinct built built'
  refine ⟨migration_of_get? found ?_, compile_of_get? found⟩
  rw [resources_of_build built, resources_of_build built']
  exact DependencyGraph.ofResources_perm perm

/-- Persons may come before their cats or after them. -/
theorem same_schema_household :
    ∃ rs s s', resourcesOf household = .ok rs ∧ DefinitionSet.build rs = .ok s ∧
      DefinitionSet.build rs.reverse = .ok s' ∧ s ≠ s' ∧ s.migration.isOk = true ∧
      s'.migration = s.migration ∧ ∀ request,
        (⟨s', none⟩ : QueryCompiler).compile request =
          (⟨s, none⟩ : QueryCompiler).compile request := by
  have hsome : ((resourcesOf household).toOption.any fun rs ↦
      (DefinitionSet.build rs).toOption.any fun s ↦ decide (rs.map Resource.name).Nodup &&
        decide (rs ≠ rs.reverse) && s.migration.isOk) = true := by
    decide +kernel
  simp only [Option.any_eq_true, toOption_eq_some_iff, Bool.and_eq_true, decide_eq_true_iff]
    at hsome
  obtain ⟨rs, accepted, s, built, ⟨distinct, hne⟩, hmigration⟩ := hsome
  obtain ⟨hiff, hsame⟩ := same_schema_of_perm (List.reverse_perm rs).symm distinct
  obtain ⟨s', built'⟩ := hiff.mp ⟨s, built⟩
  obtain ⟨hmigrations, hcompile⟩ := hsame s s' built built'
  refine ⟨rs, s, s', accepted, built, built', ?_, hmigration, hmigrations, hcompile none⟩
  rintro rfl
  exact hne ((resources_of_build built).symm.trans (resources_of_build built'))

end ResourceSchema
