import ResourceSchema.Proofs.Description.Acceptance
import ResourceSchema.Proofs.Schema.Conservation

/-!
# Every host relationship is seen from the other end

A host relationship of one resource is read by a guest of the other, from the column or the link
table in which the host stores its key.  The guest is declared, or it is the inverse that was
added.  There are two reasons why the other end may have no such guest: the name of the inverse is
taken, or the other end declares a host relationship of its own that could be the inverse, and
declarations are never changed.
-/

namespace ResourceSchema

variable {ds : List Description} {rs : List Resource} {s : DefinitionSet}
variable {a b : Definition} {g l : Link} {h : Hosted} {name : String} {rel : Relationship}

/-- A host relationship of the definition, as it is to be seen from the other end. -/
def Definition.hosted (d : Definition) (l : Link) : Hosted :=
  ⟨d.name, d.resource.pluralForm, l.name, l.relationship⟩

/-- Why the resource `b` at the other end of a host relationship may have no guest to read it. -/
inductive Hosted.Hidden (h : Hosted) (b : Resource) : Prop
  /-- An attribute has the name of the inverse. -/
  | attribute (taken : b.attributes.contains h.inverseName = true)
  /-- Another relationship has the name of the inverse. -/
  | relationship (rel : Relationship)
      (taken : b.relationships.get? h.inverseName = some rel) (other : rel ≠ h.inverse)
  /-- A host relationship of `b` could be the inverse. -/
  | host (name : String) (rel : Relationship)
      (declared : b.relationships.get? name = some rel) (host : rel.host = true)
      (back : h.isInverse b name rel = true)

/-- The guest `g` of `b` reads the key of the relationship `l` of `a` where `l` stores it. -/
structure Link.ReadsBack (g : Link) (b : Definition) (l : Link) (a : Definition) : Prop where
  mem : g ∈ b.links
  other : ¬ (b.name = a.name ∧ g.name = l.name)
  isVirtual : g.isVirtual = true
  storage : g.storage = l.storage.opposite a.table

/-! ## The storage of a guest -/

theorem Link.IsGuestOf.storage_eq {a b : Resource} (hends : g.IsGuestOf l a b) :
    g.storage = l.storage.opposite ⟨a.name⟩ := by
  by_cases hmany : g.relationship.cardinality = .manyToMany
  · obtain ⟨table, hostColumn, guestColumn, hhost, hguest⟩ := hends.linkTable hmany
    rw [hhost, hguest]
    rfl
  · obtain ⟨column, hhost, hguest⟩ := hends.column hmany
    rw [hhost, hguest]
    rfl

theorem Link.IsGuestOf.isVirtual {a b : Resource} (hends : g.IsGuestOf l a b) :
    g.isVirtual = true := by
  rw [Link.isVirtual]
  by_cases hmany : g.relationship.cardinality = .manyToMany
  · obtain ⟨table, hostColumn, guestColumn, -, hguest⟩ := hends.linkTable hmany
    rw [hguest]
    rfl
  · obtain ⟨column, -, hguest⟩ := hends.column hmany
    rw [hguest]
    rfl

/-- A guest that could be the inverse of a host relationship has it for its counterpart. -/
theorem counterpart_of_isInverse {a b : Resource} (hh : h ∈ a.hosted)
    (hb : h.relationship.resource = b.name) (hinverse : h.isInverse b name rel = true)
    {host : String} (hcounterpart : rel.counterpart b.name a = .ok host) : host = h.name := by
  obtain ⟨-, -, hdeclared, hhost⟩ := mem_hosted_iff.mp hh
  obtain ⟨-, -, hcardinality, hnamed⟩ := isInverse_iff.mp hinverse
  cases hinv : rel.inverse with
  | some inverse =>
      obtain ⟨-, hname⟩ := (Relationship.counterpart_eq_ok_iff_of_inverse hinv).mp hcounterpart
      exact hname.trans (hnamed inverse hinv)
  | none =>
      obtain ⟨-, hunique⟩ := (Relationship.counterpart_eq_ok_iff_of_none hinv).mp hcounterpart
      refine (hunique h.name ⟨h.relationship, hdeclared, ?_⟩).symm
      refine Relationship.hostsFor_iff.mpr ⟨hhost, hb, ?_⟩
      rw [hcardinality]
      exact (Cardinality.inverse_inverse _).symm

/-! ## The guest at the other end -/

section Build

variable (distinct : (rs.map Resource.name).Nodup) (built : DefinitionSet.build rs = .ok s)
variable (ha : a ∈ s.definitions) (hl : l ∈ a.links) (hhost : l.relationship.host = true)
include distinct built ha hl hhost

omit distinct in
theorem hosted_mem : a.hosted l ∈ a.resource.hosted := by
  obtain ⟨-, hdefine⟩ := define_of_mem built ha
  obtain ⟨_, hleads⟩ := exists_leadsTo hdefine hl
  exact mem_hosted_iff.mpr ⟨rfl, rfl, hleads.declared, hhost⟩

/-- A guest that could be the inverse of a host relationship reads it. -/
theorem exists_readsBack (hb : b ∈ s.definitions) (hname : b.name = l.related)
    (hrel : b.resource.relationships.get? name = some rel) (hguest : rel.host = false)
    (hinverse : (a.hosted l).isInverse b.resource name rel = true) :
    ∃ g : Link, g.ReadsBack b l a := by
  obtain ⟨haMem, hdefineA⟩ := define_of_mem built ha
  obtain ⟨hbMem, hdefineB⟩ := define_of_mem built hb
  obtain ⟨hother, hsource, -, -⟩ := isInverse_iff.mp hinverse
  obtain ⟨g, hg, rfl, rfl⟩ := exists_link hdefineB hrel
  obtain ⟨target, hleads⟩ := exists_leadsTo hdefineA hl
  obtain ⟨source, hleadsGuest⟩ := exists_leadsTo hdefineB hg
  -- names are distinct, so each end leads to the definition at the other
  obtain rfl : target = b.resource := List.inj_on_of_nodup_map distinct hleads.target_mem hbMem
    (hleads.target_name.trans hname.symm)
  obtain rfl : source = a.resource := List.inj_on_of_nodup_map distinct hleadsGuest.target_mem
    haMem (hleadsGuest.target_name.trans hsource)
  obtain ⟨host, hcounterpart⟩ := exists_counterpart hguest hleadsGuest
  obtain rfl : host = l.name := counterpart_of_isInverse (hosted_mem built ha hl hhost)
    hleads.target_name.symm hinverse hcounterpart
  have hends := isGuestOf_of_counterpart hguest hleadsGuest hleads hcounterpart
  exact ⟨g, hg, hother, hends.isVirtual, hends.storage_eq⟩

/-- Where nothing is left to add for a host relationship, it is read or hidden. -/
theorem readsBack_or_hidden (hb : b ∈ s.definitions) (hname : b.name = l.related)
    (hsettled : (a.hosted l).Settled b.resource) :
    (∃ g : Link, g.ReadsBack b l a) ∨ (a.hosted l).Hidden b.resource := by
  rcases hsettled with hdeclared | htaken
  · obtain ⟨name, rel, hrel, hinverse⟩ := Hosted.isDeclared_iff.mp hdeclared
    cases hside : rel.host with
    | true => exact .inr (.host name rel hrel hside hinverse)
    | false => exact .inl (exists_readsBack distinct built ha hl hhost hb hname hrel hside hinverse)
  · rcases Hosted.isTaken_iff.mp htaken with htaken | hattribute
    · obtain ⟨rel, hrel⟩ := SortedMap.contains_eq_true_iff.mp htaken
      by_cases hadded : rel = (a.hosted l).inverse
      · subst hadded
        -- the inverse is a guest, so its name is not that of the host relationship itself
        have hother : ¬ (b.name = a.name ∧ (a.hosted l).inverseName = l.name) := by
          rintro ⟨hsame, hown⟩
          obtain ⟨haMem, -⟩ := define_of_mem built ha
          obtain ⟨hbMem, -⟩ := define_of_mem built hb
          have hends := List.inj_on_of_nodup_map distinct hbMem haMem hsame
          obtain ⟨-, -, hdeclared, -⟩ :=
            mem_hosted_iff.mp (hosted_mem built ha hl hhost)
          rw [hends, hown] at hrel
          have hsides := congrArg Relationship.host (Option.some.inj (hrel.symm.trans hdeclared))
          exact nomatch hsides.trans hhost
        refine .inl (exists_readsBack distinct built ha hl hhost hb hname hrel rfl ?_)
        exact isInverse_iff.mpr ⟨hother, rfl, rfl, fun _ e ↦ (Option.some.inj e).symm⟩
      · exact .inr (.relationship rel hrel hadded)
    · exact .inr (.attribute hattribute)

end Build

/-- **Every host relationship is seen from the other end.**  The definition that a host
relationship leads to has another relationship that reads its key through a virtual table, unless
the name of the inverse is taken there, or a host relationship there could be the inverse. -/
theorem host_readable (accepted : resourcesOf ds = .ok rs)
    (built : DefinitionSet.build rs = .ok s) (ha : a ∈ s.definitions) (hl : l ∈ a.links)
    (hhost : l.relationship.host = true) :
    ∃ b, s.get? l.related = some b ∧
      ((∃ g : Link, g.ReadsBack b l a) ∨ (a.hosted l).Hidden b.resource) := by
  have distinct := accepted_distinct accepted
  obtain ⟨haMem, hdefineA⟩ := define_of_mem built ha
  obtain ⟨target, hleads⟩ := exists_leadsTo hdefineA hl
  obtain ⟨b, hget, hdefineB⟩ := exists_get? built distinct hleads.target_mem
  obtain rfl := resource_of_define hdefineB
  obtain ⟨hb, -⟩ := mem_of_get? hget
  refine ⟨b, hleads.target_name ▸ hget, ?_⟩
  refine readsBack_or_hidden distinct built ha hl hhost hb hleads.target_name ?_
  -- the host relationships before inverses were added are those after it
  have hhosted : a.hosted l ∈ rs.flatMap Resource.hosted :=
    List.mem_flatMap.mpr ⟨a.resource, haMem, hosted_mem built ha hl hhost⟩
  obtain ⟨-, rfl⟩ := resourcesOf_eq_ok_iff.mp accepted
  rw [flatMap_hosted_addInverses] at hhosted
  exact settledIn_addInverses hhosted b.resource
    ((find?_key_eq_some_iff distinct).mpr ⟨hleads.target_mem, hleads.target_name⟩)

theorem host_readable_household :
    ∃ rs s a l, resourcesOf household = .ok rs ∧ DefinitionSet.build rs = .ok s ∧
      a ∈ s.definitions ∧ l ∈ a.links ∧ l.name = "mother" ∧ l.relationship.host = true ∧
      ∃ b, s.get? l.related = some b ∧
        ((∃ g : Link, g.ReadsBack b l a) ∨ (a.hosted l).Hidden b.resource) := by
  have hsome : ((resourcesOf household).toOption.any fun rs ↦
      (DefinitionSet.build rs).toOption.any fun s ↦ s.definitions.any fun a ↦ a.links.any fun l ↦
        l.name == "mother" && l.relationship.host) = true := by
    decide +kernel
  simp only [Option.any_eq_true, List.any_eq_true, toOption_eq_some_iff, Bool.and_eq_true,
    beq_iff_eq] at hsome
  obtain ⟨rs, accepted, s, built, a, ha, l, hl, hname, hhost⟩ := hsome
  exact ⟨rs, s, a, l, accepted, built, ha, hl, hname, hhost,
    host_readable accepted built ha hl hhost⟩

/-- A captain with a vessel, and a ship with a commander; both ends store a key. -/
def fleet : List Description :=
  [(Description.named "captain").withRelationship "vessel" (.between "ship" .oneToOne true),
   (Description.named "ship").withRelationship "commander" (.between "captain" .oneToOne true)]

/-- Where both ends store a key, neither is read from the other, though no name is taken. -/
theorem host_unreadable_fleet :
    ∃ rs s a l b, resourcesOf fleet = .ok rs ∧ DefinitionSet.build rs = .ok s ∧
      a ∈ s.definitions ∧ l ∈ a.links ∧ l.relationship.host = true ∧ s.get? l.related = some b ∧
      (∀ g ∈ b.links, g.isVirtual = false ∧ g.storage ≠ l.storage.opposite a.table) ∧
      b.resource.attributes.contains (a.hosted l).inverseName = false ∧
      b.resource.relationships.contains (a.hosted l).inverseName = false := by
  have hsome : ((resourcesOf fleet).toOption.any fun rs ↦
      (DefinitionSet.build rs).toOption.any fun s ↦ s.definitions.any fun a ↦ a.links.any fun l ↦
        (s.get? l.related).any fun b ↦ l.relationship.host &&
          (b.links.all fun g ↦ !g.isVirtual && g.storage != l.storage.opposite a.table) &&
          !b.resource.attributes.contains (a.hosted l).inverseName &&
          !b.resource.relationships.contains (a.hosted l).inverseName) = true := by
    decide +kernel
  simp only [Option.any_eq_true, List.any_eq_true, toOption_eq_some_iff, Bool.and_eq_true,
    Bool.not_eq_true', List.all_eq_true, bne_iff_ne] at hsome
  obtain ⟨rs, accepted, s, built, a, ha, l, hl, b, hb, ⟨⟨hhost, hlinks⟩, hattribute⟩, hfree⟩ :=
    hsome
  exact ⟨rs, s, a, l, b, accepted, built, ha, hl, hhost, hb, hlinks, hattribute, hfree⟩

end ResourceSchema
