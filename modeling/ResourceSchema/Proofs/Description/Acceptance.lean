import ResourceSchema.Proofs.Relationship.Inverse
import ResourceSchema.Schema.Compilation

/-!
# What an accepted set of descriptions becomes

A set without issues becomes one resource for each description, with nothing changed by the
inverses that are added but relationships.  So the names stay distinct, and the fields that the
database maintains are still there.
-/

namespace ResourceSchema

variable {ds : List Description} {rs : List Resource} {r : Resource}

/-- A resource without its relationships. -/
def Resource.bare (r : Resource) : Resource := { r with relationships := .empty }

theorem map_bare_addInverses (rs : List Resource) :
    (addInverses rs).map Resource.bare = rs.map Resource.bare := by
  have h := congrArg (List.map Resource.bare) (map_hosting_addInverses rs)
  rwa [List.map_map, List.map_map] at h

/-! ## Validity -/

theorem validate_eq_ok_iff {u : Unit} : validate ds = .ok u ↔ issues ds = [] := by
  unfold validate
  split
  · next h => exact ⟨fun _ ↦ List.isEmpty_iff.mp h, fun _ ↦ rfl⟩
  · next h =>
    constructor
    · intro hv
      cases hv
    · exact fun hv ↦ absurd (List.isEmpty_iff.mpr hv) h

theorem resourcesOf_eq_ok_iff :
    resourcesOf ds = .ok rs ↔ issues ds = [] ∧ rs = addInverses (ds.map Description.complete) := by
  rw [resourcesOf, bind_eq_ok_iff]
  simp only [validate_eq_ok_iff, pure_eq_ok_iff]
  constructor
  · rintro ⟨-, hissues, rfl⟩
    exact ⟨hissues, rfl⟩
  · rintro ⟨hissues, rfl⟩
    exact ⟨(), hissues, rfl⟩

/-- A set has no duplicates to report exactly if no name comes twice. -/
theorem duplicateIssues_eq_nil_iff :
    duplicateIssues ds = [] ↔ (ds.map Description.name).Nodup := by
  rw [duplicateIssues, List.flatMap_eq_nil_iff, List.nodup_iff_count_le_one]
  simp only [NameSet.mem_keys_ofNames, ite_eq_right_iff, List.cons_ne_nil, imp_false, Nat.not_lt]
  constructor
  · intro h name
    by_cases hmem : name ∈ ds.map Description.name
    · exact h name hmem
    · rw [List.count_eq_zero_of_not_mem hmem]
      exact Nat.zero_le 1
  · exact fun h name _ ↦ h name

/-! ## Accepted resources -/

/-- The fields that the database maintains are among the meta fields. -/
theorem BuiltIns.contains_addTo {b : BuiltIns} {fields : SortedMap Attribute} {key : String} :
    (b.addTo fields).contains key = true ↔
      (∃ builtIn ∈ b.toList, key = builtIn.key) ∨ fields.contains key = true :=
  foldl_iff (fun m (builtIn : BuiltIn) ↦ m.insert builtIn.key builtIn.toAttribute)
    (fun m ↦ m.contains key = true) (fun _ _ ↦ SortedMap.contains_insert) b.toList fields

theorem BuiltIns.mem_toList {b : BuiltIns} : .updatedAt ∈ b.toList ↔ b.updatedAt = true := by
  cases b with
  | mk createdAt updatedAt => cases createdAt <;> cases updatedAt <;> decide

theorem Description.contains_metaFields_complete {d : Description}
    (h : d.complete.builtIns.updatedAt = true) :
    d.complete.metaFields.contains BuiltIn.updatedAt.key = true :=
  BuiltIns.contains_addTo.mpr (.inl ⟨.updatedAt, BuiltIns.mem_toList.mpr h, rfl⟩)

section Accepted

variable (accepted : resourcesOf ds = .ok rs)
include accepted

theorem map_name_accepted : rs.map Resource.name = ds.map Description.name := by
  obtain ⟨-, rfl⟩ := resourcesOf_eq_ok_iff.mp accepted
  rw [map_name_addInverses, List.map_map]
  rfl

/-- Accepted resources have distinct names. -/
theorem accepted_distinct : (rs.map Resource.name).Nodup := by
  obtain ⟨hissues, -⟩ := resourcesOf_eq_ok_iff.mp accepted
  rw [map_name_accepted accepted, ← duplicateIssues_eq_nil_iff]
  exact (List.append_eq_nil_iff.mp hissues).2

/-- An accepted resource is what some description describes, but for its relationships. -/
theorem exists_description (hr : r ∈ rs) : ∃ d ∈ ds, d.complete.bare = r.bare := by
  obtain ⟨-, rfl⟩ := resourcesOf_eq_ok_iff.mp accepted
  have hbare := List.mem_map_of_mem (f := Resource.bare) hr
  rw [map_bare_addInverses, List.map_map] at hbare
  exact List.mem_map.mp hbare

/-- Where the database maintains the time of the last update, there is a meta field for it. -/
theorem accepted_updatedAt (hr : r ∈ rs) (h : r.builtIns.updatedAt = true) :
    r.metaFields.contains BuiltIn.updatedAt.key = true := by
  obtain ⟨d, -, hbare⟩ := exists_description accepted hr
  show r.bare.metaFields.contains BuiltIn.updatedAt.key = true
  change r.bare.builtIns.updatedAt = true at h
  rw [← hbare] at h ⊢
  exact Description.contains_metaFields_complete h

end Accepted

end ResourceSchema
