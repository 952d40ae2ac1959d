import Mathlib.Data.List.Find
import ResourceSchema.Proofs.Relationship.Inverse

/-!
# Which inverse gets a name

Where names are distinct, what is added to one resource has nothing to do with what is added to
another.  Whether the inverse of a host relationship is added depends on what the target declares,
and on one thing more: whether the name of the inverse was given away before.  So a resource ends up
with the relationships that it declares and, under every name that is free, with the inverse of the
first host relationship that asks for it.

The order of the resources decides only between host relationships of different resources that ask
for one name.  Where there are none, it does not matter.
-/

namespace ResourceSchema

variable {rs rs' : List Resource} {r a : Resource} {h k : Hosted} {hs : List Hosted}
variable {name : String}

/-! ## One resource -/

/-- The resource and the relationship that are to be seen from the other end. -/
def Hosted.origin (h : Hosted) : String × String := (h.source, h.name)

/-- The inverse of `h` is missing in `r`, and its name is free there. -/
def Hosted.adds (h : Hosted) (r : Resource) : Bool :=
  r.name == h.relationship.resource && !h.isDeclared r && !h.isTaken r

/-- The resource when the turn of `h` is over. -/
def Resource.receive (r : Resource) (h : Hosted) : Resource :=
  if r.name = h.relationship.resource then h.addInverse r else r

theorem adds_iff :
    h.adds r = true ↔
      r.name = h.relationship.resource ∧ h.isDeclared r = false ∧ h.isTaken r = false := by
  simp only [Hosted.adds, Bool.and_eq_true, Bool.not_eq_true', beq_iff_eq, and_assoc]

theorem get?_inverseName_of_adds (hadds : h.adds r = true) :
    r.relationships.get? h.inverseName = none := by
  obtain ⟨-, -, hfree⟩ := adds_iff.mp hadds
  rw [Hosted.isTaken, Bool.or_eq_false_iff] at hfree
  exact Option.not_isSome_iff_eq_none.mp (Bool.eq_false_iff.mp hfree.1)

theorem receive_of_adds (hadds : h.adds r = true) :
    r.receive h = { r with relationships := r.relationships.insert h.inverseName h.inverse } := by
  obtain ⟨hname, hdeclared, hfree⟩ := adds_iff.mp hadds
  rw [Resource.receive, if_pos hname, Hosted.addInverse, hdeclared, hfree]
  rfl

theorem receive_of_not_adds (hadds : h.adds r = false) : r.receive h = r := by
  unfold Resource.receive
  split
  · next hname =>
    refine Hosted.addInverse_of_settled (Bool.or_eq_true_iff.mp ?_)
    by_contra hnew
    obtain ⟨hdeclared, hfree⟩ := Bool.or_eq_false_iff.mp (Bool.eq_false_iff.mpr hnew)
    exact Bool.eq_false_iff.mp hadds (adds_iff.mpr ⟨hname, hdeclared, hfree⟩)
  · rfl

theorem name_receive (r : Resource) (h : Hosted) : (r.receive h).name = r.name := by
  unfold Resource.receive
  split
  · exact h.name_addInverse r
  · rfl

/-- An inverse that is added is no inverse of another host relationship. -/
theorem isDeclared_receive (horigin : k.origin ≠ h.origin) :
    k.isDeclared (r.receive h) = k.isDeclared r := by
  cases hadds : h.adds r with
  | false => rw [receive_of_not_adds hadds]
  | true =>
      rw [receive_of_adds hadds, Bool.eq_iff_iff, Hosted.isDeclared_iff, Hosted.isDeclared_iff]
      constructor
      · rintro ⟨name, rel, hrel, hinverse⟩
        rw [SortedMap.get?_insert] at hrel
        split at hrel
        · obtain rfl := Option.some.inj hrel
          obtain ⟨-, hsource, -, hnamed⟩ := isInverse_iff.mp hinverse
          exact absurd (Prod.ext hsource (hnamed h.name rfl)).symm horigin
        · exact ⟨name, rel, hrel, hinverse⟩
      · rintro ⟨name, rel, hrel, hinverse⟩
        have hne : name ≠ h.inverseName := by
          rintro rfl
          exact nomatch (get?_inverseName_of_adds hadds).symm.trans hrel
        exact ⟨name, rel, (SortedMap.get?_insert_of_ne _ _ hne).trans hrel, hinverse⟩

/-- An inverse that is added takes no name but its own. -/
theorem isTaken_receive (hname : k.inverseName ≠ h.inverseName) :
    k.isTaken (r.receive h) = k.isTaken r := by
  cases hadds : h.adds r with
  | false => rw [receive_of_not_adds hadds]
  | true =>
      rw [receive_of_adds hadds, Hosted.isTaken, Hosted.isTaken, SortedMap.contains,
        SortedMap.get?_insert_of_ne _ _ hname]
      rfl

theorem adds_receive (horigin : k.origin ≠ h.origin) (hname : k.inverseName ≠ h.inverseName) :
    k.adds (r.receive h) = k.adds r := by
  rw [Hosted.adds, Hosted.adds, name_receive, isDeclared_receive horigin, isTaken_receive hname]

/-- The inverse under a name that is free is that of the first host relationship to ask for it. -/
theorem get?_foldl_receive (distinct : (hs.map Hosted.origin).Nodup) (r : Resource)
    (name : String) :
    (hs.foldl Resource.receive r).relationships.get? name =
      (r.relationships.get? name).or
        ((hs.find? fun h ↦ h.adds r && h.inverseName == name).map Hosted.inverse) := by
  induction hs generalizing r with
  | nil => exact (Option.or_none).symm
  | cons h rest ih =>
      obtain ⟨hfirst, hrest⟩ := List.nodup_cons.mp distinct
      have horigin (k) (hk : k ∈ rest) : k.origin ≠ h.origin := fun e ↦
        hfirst (e ▸ List.mem_map_of_mem hk)
      rw [List.foldl_cons, ih hrest, List.find?_cons]
      cases hadds : h.adds r with
      | false => rw [receive_of_not_adds hadds, Bool.false_and]
      | true =>
          by_cases hname : h.inverseName = name
          · subst hname
            rw [receive_of_adds hadds, SortedMap.get?_insert_self, get?_inverseName_of_adds hadds,
              beq_self_eq_true]
            rfl
          · -- the others see what is declared, and the name they ask for, as it was
            have hsame : rest.find? (fun k ↦ k.adds (r.receive h) && k.inverseName == name) =
                rest.find? fun k ↦ k.adds r && k.inverseName == name := by
              refine List.find?_congr fun k hk ↦ ?_
              by_cases hk' : k.inverseName = name
              · rw [adds_receive (horigin k hk) (hk' ▸ Ne.symm hname)]
              · rw [beq_eq_false_iff_ne.mpr hk', Bool.and_false, Bool.and_false]
            rw [hsame, receive_of_adds hadds, SortedMap.get?_insert_of_ne _ _ (Ne.symm hname),
              beq_eq_false_iff_ne.mpr hname]
            rfl

/-- Nothing but relationships is added. -/
theorem foldl_receive_eq (hs : List Hosted) (r : Resource) :
    hs.foldl Resource.receive r =
      { r with relationships := (hs.foldl Resource.receive r).relationships } := by
  refine List.foldlRecOn (motive := fun r' : Resource ↦
    r' = { r with relationships := r'.relationships }) hs _ rfl fun r' hr' h _ ↦ ?_
  cases hadds : h.adds r' with
  | false => rwa [receive_of_not_adds hadds]
  | true => rw [receive_of_adds hadds, hr']

/-! ## All resources -/

/-- The resource with the inverses that host relationships of `rs` add to it. -/
def Resource.withInverses (rs : List Resource) (r : Resource) : Resource :=
  (rs.flatMap Resource.hosted).foldl Resource.receive r

theorem changeFirst_eq_map (distinct : (rs.map Resource.name).Nodup) (name : String)
    (f : Resource → Resource) :
    changeFirst name f rs = rs.map fun r ↦ if r.name = name then f r else r := by
  induction rs with
  | nil => rfl
  | cons r rest ih =>
      obtain ⟨hfirst, hrest⟩ := List.nodup_cons.mp distinct
      rw [changeFirst, List.map_cons]
      split
      · next hname =>
        have hothers : ∀ b ∈ rest, (if b.name = name then f b else b) = id b := fun b hb ↦
          if_neg fun e ↦ hfirst (List.mem_map.mpr ⟨b, hb, e.trans hname.symm⟩)
        rw [List.map_congr_left hothers, List.map_id]
      · rw [ih hrest]

theorem foldl_addInverse_eq_map (distinct : (rs.map Resource.name).Nodup) (hs : List Hosted) :
    hs.foldl addInverse rs = rs.map fun r ↦ hs.foldl Resource.receive r := by
  induction hs generalizing rs with
  | nil => exact (List.map_id rs).symm
  | cons h rest ih =>
      have hstep : addInverse rs h = rs.map (·.receive h) :=
        changeFirst_eq_map distinct _ _
      have hnames : ((rs.map (·.receive h)).map Resource.name).Nodup := by
        rw [List.map_map]
        exact (List.map_congr_left fun r _ ↦ name_receive r h) ▸ distinct
      rw [List.foldl_cons, hstep, ih hnames, List.map_map]
      rfl

/-- Inverses are added to each resource on its own. -/
theorem addInverses_eq_map (distinct : (rs.map Resource.name).Nodup) :
    addInverses rs = rs.map (Resource.withInverses rs) :=
  foldl_addInverse_eq_map distinct _

theorem origin_nodup (distinct : (rs.map Resource.name).Nodup) :
    ((rs.flatMap Resource.hosted).map Hosted.origin).Nodup := by
  rw [List.map_flatMap, List.nodup_flatMap]
  constructor
  · intro r _
    have hnames : (r.hosted.map Hosted.name).Nodup := by
      rw [Resource.hosted, List.map_map]
      exact SortedMap.keys_nodup (r.relationships.filter fun _ rel ↦ rel.host)
    refine List.Nodup.of_map Prod.snd ?_
    rwa [List.map_map]
  · refine (List.pairwise_map.mp distinct).imp fun hne ↦ ?_
    refine List.disjoint_left.mpr fun origin hfirst hsecond ↦ hne ?_
    obtain ⟨h, hh, rfl⟩ := List.mem_map.mp hfirst
    obtain ⟨k, hk, horigin⟩ := List.mem_map.mp hsecond
    obtain ⟨hsource, -⟩ := mem_hosted_iff.mp hh
    obtain ⟨hsource', -⟩ := mem_hosted_iff.mp hk
    exact hsource.symm.trans ((congrArg Prod.fst horigin).symm.trans hsource')

/-- The host relationship of `a` whose inverse is to be called `name` in `r`. -/
def Resource.claim? (a r : Resource) (name : String) : Option Hosted :=
  a.hosted.find? fun h ↦ h.adds r && h.inverseName == name

theorem claim?_eq_some (hclaim : a.claim? r name = some h) :
    h ∈ a.hosted ∧ h.adds r = true ∧ h.inverseName = name := by
  have hfound := List.find?_some hclaim
  rw [Bool.and_eq_true, beq_iff_eq] at hfound
  exact ⟨List.mem_of_find?_eq_some hclaim, hfound⟩

/-- Under a name that is free, the first resource with a claim to it is seen. -/
theorem get?_withInverses (distinct : (rs.map Resource.name).Nodup) (r : Resource)
    (name : String) :
    (r.withInverses rs).relationships.get? name =
      (r.relationships.get? name).or ((rs.findSome? (·.claim? r name)).map Hosted.inverse) := by
  rw [Resource.withInverses, get?_foldl_receive (origin_nodup distinct), List.find?_flatMap]
  rfl

/-! ## When the order matters -/

/-- Host relationships of two resources ask for one name of a third. -/
def Contested (rs : List Resource) : Prop :=
  ∃ r ∈ rs, ∃ h ∈ rs.flatMap Resource.hosted, ∃ k ∈ rs.flatMap Resource.hosted,
    h.source ≠ k.source ∧ h.inverseName = k.inverseName ∧ h.adds r = true ∧ k.adds r = true

instance (rs : List Resource) : Decidable (Contested rs) :=
  inferInstanceAs (Decidable (∃ r ∈ rs, ∃ h ∈ rs.flatMap Resource.hosted,
    ∃ k ∈ rs.flatMap Resource.hosted, _))

/-- Without contested names, a resource gains the same inverses in every order. -/
theorem withInverses_perm (perm : rs.Perm rs') (distinct : (rs.map Resource.name).Nodup)
    (uncontested : ¬ Contested rs) (hr : r ∈ rs) : r.withInverses rs' = r.withInverses rs := by
  have distinct' := (perm.map Resource.name).nodup_iff.mp distinct
  have hrelationships :
      (r.withInverses rs').relationships = (r.withInverses rs).relationships := by
    apply SortedMap.ext
    intro name
    rw [get?_withInverses distinct, get?_withInverses distinct', findSome?_perm perm]
    intro a ha b hb hclaim hclaim'
    obtain ⟨h, hh⟩ := Option.isSome_iff_exists.mp hclaim
    obtain ⟨k, hk⟩ := Option.isSome_iff_exists.mp hclaim'
    obtain ⟨hh, hadds, hname⟩ := claim?_eq_some hh
    obtain ⟨hk, hadds', hname'⟩ := claim?_eq_some hk
    by_contra hne
    refine uncontested ⟨r, hr, h, List.mem_flatMap.mpr ⟨a, ha, hh⟩, k,
      List.mem_flatMap.mpr ⟨b, hb, hk⟩, fun hsources ↦ hne ?_, hname.trans hname'.symm, hadds,
      hadds'⟩
    obtain ⟨hsource, -⟩ := mem_hosted_iff.mp hh
    obtain ⟨hsource', -⟩ := mem_hosted_iff.mp hk
    exact List.inj_on_of_nodup_map distinct ha hb
      (hsource.symm.trans (hsources.trans hsource'))
  calc r.withInverses rs'
      = { r with relationships := (r.withInverses rs').relationships } := foldl_receive_eq _ r
    _ = { r with relationships := (r.withInverses rs).relationships } := by rw [hrelationships]
    _ = r.withInverses rs := (foldl_receive_eq _ r).symm

/-- The first resource in the list gets the names that it asks for. -/
theorem get?_withInverses_first (distinct : ((a :: rs).map Resource.name).Nodup)
    (hh : h ∈ a.hosted) (hadds : h.adds r = true) :
    ∃ rel, (r.withInverses (a :: rs)).relationships.get? h.inverseName = some rel ∧
      rel.resource = a.name := by
  have hclaims : (a.claim? r h.inverseName).isSome = true := by
    rw [Resource.claim?, List.find?_isSome]
    exact ⟨h, hh, by rw [hadds, beq_self_eq_true]; rfl⟩
  obtain ⟨k, hk⟩ := Option.isSome_iff_exists.mp hclaims
  obtain ⟨hmem, -⟩ := claim?_eq_some hk
  obtain ⟨hsource, -⟩ := mem_hosted_iff.mp hmem
  refine ⟨k.inverse, ?_, hsource⟩
  rw [get?_withInverses distinct, get?_inverseName_of_adds hadds, List.findSome?_cons, hk]
  rfl

end ResourceSchema
