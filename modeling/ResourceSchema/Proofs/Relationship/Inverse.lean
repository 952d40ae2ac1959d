import Mathlib.Data.List.Forall2
import ResourceSchema.Proofs.SortedMap
import ResourceSchema.Relationship.Inverse

/-!
# What is added to make relationships visible

The inverses that are added are guests, under names that were free.  So everything that a resource
declares is still there, and its host relationships are those it declares.  Whatever looks at host
relationships only cannot tell the resources before from those after.

Every host relationship is settled by the time its turn is over, and stays settled.  So once all
inverses have been added, adding them again changes nothing.
-/

namespace ResourceSchema

variable {rs rs' : List Resource} {r r' : Resource} {h : Hosted} {hs : List Hosted}
variable {name : String} {rel : Relationship}

/-- The resource with its host relationships alone. -/
def Resource.hosting (r : Resource) : Resource :=
  { r with relationships := r.relationships.filter fun _ rel ↦ rel.host }

/-! ## One inverse -/

/-- An inverse is added under a name that is free. -/
theorem Hosted.addInverse_eq (h : Hosted) (target : Resource) :
    h.addInverse target = target ∨
      (target.relationships.get? h.inverseName = none ∧
        h.addInverse target = { target with
          relationships := target.relationships.insert h.inverseName h.inverse }) := by
  unfold addInverse
  split
  · exact .inl rfl
  · next hnew =>
    refine .inr ⟨?_, rfl⟩
    simp only [isTaken, Bool.or_eq_true, not_or] at hnew
    exact Option.not_isSome_iff_eq_none.mp hnew.2.1

theorem filter_host_insert {m : SortedMap Relationship} (hfree : m.get? name = none)
    (hguest : rel.host = false) :
    (m.insert name rel).filter (fun _ rel ↦ rel.host) = m.filter fun _ rel ↦ rel.host := by
  apply SortedMap.ext
  intro key
  rw [SortedMap.get?_filter, SortedMap.get?_filter, SortedMap.get?_insert]
  split
  · next e => simp [e, hfree, hguest]
  · rfl

theorem Hosted.hosting_addInverse (h : Hosted) (target : Resource) :
    (h.addInverse target).hosting = target.hosting := by
  rcases h.addInverse_eq target with heq | ⟨hfree, heq⟩
  · rw [heq]
  · rw [heq, Resource.hosting, Resource.hosting]
    congr 1
    exact filter_host_insert hfree rfl

/-! ## All inverses -/

theorem map_hosting_changeFirst (name : String) {f : Resource → Resource}
    (hf : ∀ r, (f r).hosting = r.hosting) (rs : List Resource) :
    (changeFirst name f rs).map Resource.hosting = rs.map Resource.hosting := by
  induction rs with
  | nil => rfl
  | cons r rest ih =>
      rw [changeFirst]
      split
      · rw [List.map_cons, List.map_cons, hf]
      · rw [List.map_cons, List.map_cons, ih]

theorem map_hosting_foldl_addInverse (hosted : List Hosted) (rs : List Resource) :
    (hosted.foldl addInverse rs).map Resource.hosting = rs.map Resource.hosting := by
  induction hosted generalizing rs with
  | nil => rfl
  | cons h rest ih =>
      rw [List.foldl_cons, ih, addInverse, map_hosting_changeFirst _ h.hosting_addInverse]

/-- The host relationships stay as they are, and so does all that is no relationship. -/
theorem map_hosting_addInverses (rs : List Resource) :
    (addInverses rs).map Resource.hosting = rs.map Resource.hosting :=
  map_hosting_foldl_addInverse _ rs

theorem map_name_addInverses (rs : List Resource) :
    (addInverses rs).map Resource.name = rs.map Resource.name := by
  have h := congrArg (List.map Resource.name) (map_hosting_addInverses rs)
  rwa [List.map_map, List.map_map] at h

/-! ## What is kept and what is added -/

/-- The resource `r'` has all relationships of `r`, and the others are inverses of relationships in
`hs`. -/
structure Resource.GainsInverses (hs : List Hosted) (r r' : Resource) : Prop where
  name : r'.name = r.name
  kept : ∀ name rel, r.relationships.get? name = some rel → r'.relationships.get? name = some rel
  added : ∀ name rel, r'.relationships.get? name = some rel →
    r.relationships.get? name = some rel ∨
      ∃ h ∈ hs, h.relationship.resource = r.name ∧ h.inverseName = name ∧ h.inverse = rel

theorem Resource.GainsInverses.refl (hs : List Hosted) (r : Resource) : r.GainsInverses hs r where
  name := rfl
  kept := fun _ _ hrel ↦ hrel
  added := fun _ _ hrel ↦ .inl hrel

theorem Resource.GainsInverses.addInverse (hgains : r.GainsInverses hs r') (hh : h ∈ hs)
    (htarget : r'.name = h.relationship.resource) : r.GainsInverses hs (h.addInverse r') := by
  rcases h.addInverse_eq r' with heq | ⟨hfree, heq⟩
  · rw [heq]
    exact hgains
  · rw [heq]
    refine ⟨hgains.name, fun name rel hrel ↦ ?_, fun name rel hrel ↦ ?_⟩
    · have hkept := hgains.kept name rel hrel
      have hne : name ≠ h.inverseName := by
        rintro rfl
        exact nomatch hfree.symm.trans hkept
      exact (SortedMap.get?_insert_of_ne _ _ hne).trans hkept
    · rw [SortedMap.get?_insert] at hrel
      split at hrel
      · next hname =>
        exact .inr ⟨h, hh, htarget.symm.trans hgains.name, hname.symm, Option.some.inj hrel⟩
      · exact hgains.added name rel hrel

theorem gainsInverses_addInverse (hgains : List.Forall₂ (Resource.GainsInverses hs) rs rs')
    (hh : h ∈ hs) : List.Forall₂ (Resource.GainsInverses hs) rs (addInverse rs' h) := by
  unfold addInverse
  induction hgains with
  | nil => exact .nil
  | cons hfirst hrest ih =>
      rw [changeFirst]
      split
      · next hname => exact .cons (hfirst.addInverse hh hname) hrest
      · exact .cons hfirst ih

theorem gainsInverses_foldl (hgains : List.Forall₂ (Resource.GainsInverses hs) rs rs')
    {hosted : List Hosted} (hhosted : ∀ h ∈ hosted, h ∈ hs) :
    List.Forall₂ (Resource.GainsInverses hs) rs (hosted.foldl addInverse rs') := by
  induction hosted generalizing rs' with
  | nil => exact hgains
  | cons h rest ih =>
      exact ih (gainsInverses_addInverse hgains (hhosted h List.mem_cons_self))
        fun h hmem ↦ hhosted h (List.mem_cons_of_mem _ hmem)

/-- Every resource keeps what it declares and gains inverses of host relationships. -/
theorem gainsInverses_addInverses (rs : List Resource) :
    List.Forall₂ (Resource.GainsInverses (rs.flatMap Resource.hosted)) rs (addInverses rs) :=
  gainsInverses_foldl (List.forall₂_same.mpr fun r _ ↦ .refl _ r) fun _ hmem ↦ hmem

/-- What stands under a name that was free is the inverse of a host relationship that leads here. -/
theorem exists_hosted_of_free (distinct : (rs.map Resource.name).Nodup) (hr : r ∈ rs)
    (hr' : r' ∈ addInverses rs) (hname : r'.name = r.name)
    (hfree : r.relationships.get? name = none) (hrel : r'.relationships.get? name = some rel) :
    ∃ h ∈ rs.flatMap Resource.hosted,
      h.relationship.resource = r.name ∧ h.inverseName = name ∧ h.inverse = rel := by
  obtain ⟨r₀, hr₀, hgains⟩ := exists_of_mem_right (gainsInverses_addInverses rs) hr'
  obtain rfl : r₀ = r := List.inj_on_of_nodup_map distinct hr₀ hr (hgains.name.symm.trans hname)
  exact (hgains.added name rel hrel).resolve_left fun hdeclared ↦
    nomatch hfree.symm.trans hdeclared

theorem mem_hosted_iff :
    h ∈ r.hosted ↔ h.source = r.name ∧ h.sourcePlural = r.pluralForm ∧
      r.relationships.get? h.name = some h.relationship ∧ h.relationship.host = true := by
  rw [Resource.hosted, List.mem_map]
  simp only [Prod.exists, ← SortedMap.get?_eq_some_iff, SortedMap.get?_filter_eq_some_iff]
  constructor
  · rintro ⟨name, rel, hrel, rfl⟩
    exact ⟨rfl, rfl, hrel⟩
  · rintro ⟨hsource, hplural, hrel⟩
    exact ⟨h.name, h.relationship, hrel, by rw [← hsource, ← hplural]⟩

theorem hosted_hosting (r : Resource) : r.hosting.hosted = r.hosted := by
  simp only [Resource.hosted, Resource.hosting, SortedMap.filter, List.filter_filter, Bool.and_self]

/-- Inverses add nothing that would have to be visible from another end. -/
theorem flatMap_hosted_addInverses (rs : List Resource) :
    (addInverses rs).flatMap Resource.hosted = rs.flatMap Resource.hosted := by
  have hhosted (rs : List Resource) :
      rs.flatMap Resource.hosted = (rs.map Resource.hosting).flatMap Resource.hosted := by
    simp only [List.flatMap_map, hosted_hosting]
  rw [hhosted, map_hosting_addInverses, ← hhosted]

/-! ## When nothing is left to add -/

/-- Nothing is added to `target` for `h`: it declares an inverse, or the name is taken. -/
def Hosted.Settled (h : Hosted) (target : Resource) : Prop :=
  h.isDeclared target = true ∨ h.isTaken target = true

theorem isInverse_iff {target : Resource} :
    h.isInverse target name rel = true ↔ ¬ (target.name = h.source ∧ name = h.name) ∧
      rel.resource = h.source ∧ rel.cardinality = h.inverseCardinality ∧
        ∀ inverse, rel.inverse = some inverse → inverse = h.name := by
  simp only [Hosted.isInverse, Bool.and_eq_true, Bool.not_eq_true', Bool.and_eq_false_iff,
    beq_eq_false_iff_ne, beq_iff_eq, Option.all_eq_true, not_and_or, and_assoc, ne_eq]

namespace Hosted

variable {target : Resource}

theorem isDeclared_iff :
    h.isDeclared target = true ↔ ∃ name rel, target.relationships.get? name = some rel ∧
      h.isInverse target name rel = true :=
  SortedMap.any_eq_true_iff

theorem isTaken_iff :
    h.isTaken target = true ↔ target.relationships.contains h.inverseName = true ∨
      target.attributes.contains h.inverseName = true :=
  Bool.or_eq_true_iff

theorem addInverse_of_settled (hsettled : h.Settled target) : h.addInverse target = target := by
  rw [addInverse, if_pos (Bool.or_eq_true_iff.mpr hsettled)]

/-- An inverse that is added takes its name itself. -/
theorem settled_addInverse (h : Hosted) (target : Resource) : h.Settled (h.addInverse target) := by
  unfold addInverse
  split
  · next hsettled => exact Bool.or_eq_true_iff.mp hsettled
  · exact .inr (isTaken_iff.mpr (.inl (SortedMap.contains_insert.mpr (.inl rfl))))

/-- What is declared or taken stays so, whatever else is added. -/
theorem Settled.addInverse (hsettled : h.Settled target) (other : Hosted) :
    h.Settled (other.addInverse target) := by
  rcases other.addInverse_eq target with heq | ⟨hfree, heq⟩
  · rwa [heq]
  · rw [heq]
    rcases hsettled with hdeclared | htaken
    · obtain ⟨name, rel, hrel, hinverse⟩ := isDeclared_iff.mp hdeclared
      have hne : name ≠ other.inverseName := by
        rintro rfl
        exact nomatch hfree.symm.trans hrel
      exact .inl (isDeclared_iff.mpr
        ⟨name, rel, (SortedMap.get?_insert_of_ne _ _ hne).trans hrel, hinverse⟩)
    · refine .inr (isTaken_iff.mpr ((isTaken_iff.mp htaken).imp_left fun hname ↦ ?_))
      exact SortedMap.contains_insert.mpr (.inr hname)

end Hosted

/-- The first resource of a list with a name, the one that inverses are added to. -/
def firstNamed? (rs : List Resource) (name : String) : Option Resource :=
  rs.find? (·.name == name)

theorem firstNamed?_cons (r : Resource) (rest : List Resource) (name : String) :
    firstNamed? (r :: rest) name = if r.name = name then some r else firstNamed? rest name := by
  rw [firstNamed?, List.find?_cons, firstNamed?]
  split
  · next hname => rw [if_pos (beq_iff_eq.mp hname)]
  · next hname => rw [if_neg (beq_eq_false_iff_ne.mp hname)]

theorem firstNamed?_changeFirst {f : Resource → Resource} (hf : ∀ r, (f r).name = r.name)
    (name other : String) (rs : List Resource) :
    firstNamed? (changeFirst name f rs) other =
      if other = name then (firstNamed? rs other).map f else firstNamed? rs other := by
  induction rs with
  | nil => simp [firstNamed?, changeFirst]
  | cons r rest ih =>
      rw [changeFirst]
      split
      · next hname =>
        rw [firstNamed?_cons, firstNamed?_cons, hf, hname]
        by_cases hother : other = name
        · simp [hother]
        · rw [if_neg (Ne.symm hother), if_neg hother, if_neg (Ne.symm hother)]
      · next hname =>
        rw [firstNamed?_cons, firstNamed?_cons, ih]
        by_cases hother : r.name = other
        · rw [if_pos hother, if_pos hother, if_neg fun e ↦ hname (hother.trans e)]
        · rw [if_neg hother, if_neg hother]

/-- Nothing is left to add for `h`. -/
def Hosted.SettledIn (h : Hosted) (rs : List Resource) : Prop :=
  ∀ target, firstNamed? rs h.relationship.resource = some target → h.Settled target

theorem changeFirst_eq_self {f : Resource → Resource}
    (hf : ∀ target, firstNamed? rs name = some target → f target = target) :
    changeFirst name f rs = rs := by
  induction rs with
  | nil => rfl
  | cons r rest ih =>
      rw [changeFirst]
      simp only [firstNamed?_cons] at hf
      split
      · next hname => rw [hf r (if_pos hname)]
      · next hname =>
        exact congrArg (r :: ·) (ih fun target htarget ↦ hf target ((if_neg hname).trans htarget))

theorem addInverse_of_settledIn (hsettled : h.SettledIn rs) : addInverse rs h = rs :=
  changeFirst_eq_self fun target htarget ↦ Hosted.addInverse_of_settled (hsettled target htarget)

theorem Hosted.name_addInverse (h : Hosted) (target : Resource) :
    (h.addInverse target).name = target.name := by
  rcases h.addInverse_eq target with heq | ⟨-, heq⟩
  · rw [heq]
  · rw [heq]

theorem settledIn_addInverse (rs : List Resource) (h : Hosted) :
    h.SettledIn (addInverse rs h) := by
  intro target htarget
  rw [addInverse, firstNamed?_changeFirst h.name_addInverse, if_pos rfl,
    Option.map_eq_some_iff] at htarget
  obtain ⟨before, -, rfl⟩ := htarget
  exact h.settled_addInverse before

theorem Hosted.SettledIn.addInverse (hsettled : h.SettledIn rs) (other : Hosted) :
    h.SettledIn (ResourceSchema.addInverse rs other) := by
  intro target htarget
  rw [ResourceSchema.addInverse, firstNamed?_changeFirst other.name_addInverse] at htarget
  split at htarget
  · obtain ⟨before, hbefore, rfl⟩ := Option.map_eq_some_iff.mp htarget
    exact (hsettled before hbefore).addInverse other
  · exact hsettled target htarget

theorem Hosted.SettledIn.foldl (hsettled : h.SettledIn rs) (hosted : List Hosted) :
    h.SettledIn (hosted.foldl ResourceSchema.addInverse rs) :=
  List.foldlRecOn hosted _ hsettled fun _ hrs other _ ↦ hrs.addInverse other

theorem settledIn_foldl {hosted : List Hosted} (hh : h ∈ hosted) (rs : List Resource) :
    h.SettledIn (hosted.foldl addInverse rs) := by
  induction hosted generalizing rs with
  | nil => cases hh
  | cons first rest ih =>
      rw [List.foldl_cons]
      rcases List.mem_cons.mp hh with rfl | hh
      · exact (settledIn_addInverse rs h).foldl rest
      · exact ih hh _

/-- When all inverses are added, each host relationship has found its inverse or its name taken. -/
theorem settledIn_addInverses (hh : h ∈ rs.flatMap Resource.hosted) :
    h.SettledIn (addInverses rs) :=
  settledIn_foldl hh rs

/-- What has to be visible when all inverses are added had to be visible before. -/
theorem settledIn_of_mem_addInverses (hh : h ∈ (addInverses rs).flatMap Resource.hosted) :
    h.SettledIn (addInverses rs) := by
  rw [flatMap_hosted_addInverses] at hh
  exact settledIn_addInverses hh

/-- Where nothing is left to add, nothing is added. -/
theorem addInverses_eq_self (hsettled : ∀ h ∈ rs.flatMap Resource.hosted, h.SettledIn rs) :
    addInverses rs = rs :=
  List.foldlRecOn (motive := fun rs' ↦ rs' = rs) (rs.flatMap Resource.hosted) addInverse rfl
    fun rs' hrs' h hh ↦ by rw [hrs', addInverse_of_settledIn (hsettled h hh)]

/-- **Adding inverses twice is adding them once**, whatever the resources are. -/
theorem addInverses_idempotent (rs : List Resource) :
    addInverses (addInverses rs) = addInverses rs :=
  addInverses_eq_self fun _ hh ↦ settledIn_of_mem_addInverses hh

end ResourceSchema
