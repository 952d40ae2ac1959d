import ResourceSchema.Proofs.Description.Validity
import ResourceSchema.Proofs.Relationship.Precedence
import ResourceSchema.Proofs.Schema.Creation

/-!
# The order of descriptions

A set of descriptions is accepted in every order or in none.  Each description becomes the same
resource in every order exactly if no name is contested: where host relationships of two resources
ask for one name of a third, the resource that comes first gets it.
-/

namespace ResourceSchema

variable {ds ds' : List Description} {rs : List Resource}

theorem issues_perm (perm : ds.Perm ds') : issues ds = [] ↔ issues ds' = [] := by
  rw [issues_eq_nil_iff, issues_eq_nil_iff, (perm.map Description.name).nodup_iff]
  simp only [perm.mem_iff]

theorem distinct_of_issues (hissues : issues ds = []) :
    ((ds.map Description.complete).map Resource.name).Nodup := by
  rw [List.map_map]
  exact (issues_eq_nil_iff.mp hissues).2

/-- What a description becomes depends on the set through the host relationships in it. -/
theorem resourcesOf_eq_ok_iff_map :
    resourcesOf ds = .ok rs ↔ issues ds = [] ∧
      rs = ds.map fun d ↦ d.complete.withInverses (ds.map Description.complete) := by
  rw [resourcesOf_eq_ok_iff]
  refine and_congr_right fun hissues ↦ ?_
  rw [addInverses_eq_map (distinct_of_issues hissues), List.map_map]
  rfl

theorem zip_of_resourcesOf (accepted : resourcesOf ds = .ok rs) :
    ds.zip rs =
      ds.map fun d ↦ (d, d.complete.withInverses (ds.map Description.complete)) := by
  obtain ⟨-, rfl⟩ := resourcesOf_eq_ok_iff_map.mp accepted
  conv_lhs =>
    arg 1
    rw [← List.map_id ds]
  exact List.zip_map'

/-- Where a name is contested, two orders give it to different resources. -/
theorem not_perm_of_contested (accepted : resourcesOf ds = .ok rs)
    (contested : Contested (ds.map Description.complete)) :
    ∃ ds' rs', ds.Perm ds' ∧ resourcesOf ds' = .ok rs' ∧ ¬ (ds.zip rs).Perm (ds'.zip rs') := by
  obtain ⟨hissues, -⟩ := resourcesOf_eq_ok_iff_map.mp accepted
  obtain ⟨r, hr, h, hh, k, hk, hsources, hname, hadds, hadds'⟩ := contested
  obtain ⟨d, hd, rfl⟩ := List.mem_map.mp hr
  -- in every order, `d` becomes the resource that it becomes in `ds`
  by_contra! same
  have hsame {ds' : List Description} (perm : ds.Perm ds') :
      d.complete.withInverses (ds'.map Description.complete) =
        d.complete.withInverses (ds.map Description.complete) := by
    have accepted' := resourcesOf_eq_ok_iff_map.mpr ⟨(issues_perm perm).mp hissues, rfl⟩
    have hzip := same ds' _ perm accepted'
    rw [zip_of_resourcesOf accepted, zip_of_resourcesOf accepted'] at hzip
    obtain ⟨d', -, hd'⟩ := List.mem_map.mp
      (hzip.mem_iff.mp (List.mem_map_of_mem (f := fun d ↦ (d, _)) hd))
    obtain ⟨rfl, hresource⟩ := Prod.mk.inj hd'
    exact hresource
  -- but the name goes to whichever resource comes first
  have hfirst {h : Hosted} (hh : h ∈ (ds.map Description.complete).flatMap Resource.hosted)
      (hadds : h.adds d.complete = true) :
      ∃ rel, (d.complete.withInverses (ds.map Description.complete)).relationships.get?
        h.inverseName = some rel ∧ rel.resource = h.source := by
    obtain ⟨a, ha, hh⟩ := List.mem_flatMap.mp hh
    obtain ⟨first, hmem, rfl⟩ := List.mem_map.mp ha
    have perm := List.perm_cons_erase hmem
    rw [← hsame perm, (mem_hosted_iff.mp hh).1]
    exact get?_withInverses_first (distinct_of_issues ((issues_perm perm).mp hissues)) hh hadds
  obtain ⟨rel, hrel, hsource⟩ := hfirst hh hadds
  obtain ⟨rel', hrel', hsource'⟩ := hfirst hk hadds'
  rw [← hname, hrel, Option.some.injEq] at hrel'
  exact hsources (hsource.symm.trans ((congrArg Relationship.resource hrel').trans hsource'))

/-- **When the order of descriptions does not matter.**  An accepted set is accepted in every order.
In every order each description becomes the same resource, exactly if no two resources ask for one
name of a third to be seen under. -/
theorem same_resources_iff_not_contested (accepted : resourcesOf ds = .ok rs) :
    (∀ ds', ds.Perm ds' → ∃ rs', resourcesOf ds' = .ok rs') ∧
    ((∀ ds' rs', ds.Perm ds' → resourcesOf ds' = .ok rs' → (ds.zip rs).Perm (ds'.zip rs')) ↔
      ¬ Contested (ds.map Description.complete)) := by
  obtain ⟨hissues, -⟩ := resourcesOf_eq_ok_iff_map.mp accepted
  refine ⟨fun ds' perm ↦ ?_, fun same contested ↦ ?_, fun uncontested ds' rs' perm accepted' ↦ ?_⟩
  · exact ⟨_, resourcesOf_eq_ok_iff_map.mpr ⟨(issues_perm perm).mp hissues, rfl⟩⟩
  · obtain ⟨ds', rs', perm, accepted', hdiffer⟩ := not_perm_of_contested accepted contested
    exact hdiffer (same ds' rs' perm accepted')
  · rw [zip_of_resourcesOf accepted, zip_of_resourcesOf accepted']
    have hsame (d) (hd : d ∈ ds) := withInverses_perm (perm.map Description.complete)
      (distinct_of_issues hissues) uncontested (List.mem_map_of_mem (f := Description.complete) hd)
    have hmaps := List.map_congr_left fun d hd ↦ congrArg (Prod.mk d) (hsame d hd)
    exact (List.Perm.of_eq hmaps.symm).trans (perm.map _)

/-- In a household, persons see cats and friends, and cats see kittens, in every order. -/
theorem same_resources_household :
    ∃ rs, resourcesOf household = .ok rs ∧ ∀ ds' rs', household.Perm ds' →
      resourcesOf ds' = .ok rs' → (household.zip rs).Perm (ds'.zip rs') := by
  obtain ⟨rs, accepted⟩ := exists_eq_ok (x := resourcesOf household) (by decide +kernel)
  have uncontested : ¬ Contested (household.map Description.complete) := by decide +kernel
  exact ⟨rs, accepted, (same_resources_iff_not_contested accepted).2.mpr uncontested⟩

/-- Cats and dogs, each with a keeper, and both called pets in the plural. -/
def shelter : List Description :=
  [{ (Description.named "cat").withRelationship "keeper" (.between "person" .manyToOne true) with
      pluralForm := some "pets" },
   { (Description.named "dog").withRelationship "keeper" (.between "person" .manyToOne true) with
      pluralForm := some "pets" },
   Description.named "person"]

/-- The pets of a person are cats or dogs, whichever come first. -/
theorem not_same_resources_shelter :
    ∃ rs rs', shelter.Perm shelter.reverse ∧ resourcesOf shelter = .ok rs ∧
      resourcesOf shelter.reverse = .ok rs' ∧
      ¬ (shelter.zip rs).Perm (shelter.reverse.zip rs') := by
  have hsome : ((resourcesOf shelter).toOption.any fun rs ↦
      (resourcesOf shelter.reverse).toOption.any fun rs' ↦
        !decide ((shelter.zip rs).Perm (shelter.reverse.zip rs'))) = true := by
    decide +kernel
  simp only [Option.any_eq_true, toOption_eq_some_iff, Bool.not_eq_true',
    decide_eq_false_iff_not] at hsome
  obtain ⟨rs, accepted, rs', accepted', hdiffer⟩ := hsome
  exact ⟨rs, rs', (List.reverse_perm shelter).symm, accepted, accepted', hdiffer⟩

end ResourceSchema
