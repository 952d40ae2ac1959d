import ResourceSchema.Description.Completion
import ResourceSchema.Proofs.Relationship.Precedence
import ResourceSchema.Proofs.Relationship.Storage

/-!
# Where inverses come from

Every relationship that is added can be traced to a host relationship that asked for it, and no
host relationship asks twice.  What was there before is still there, in the same order.  In the end
no host relationship is left whose inverse is missing while the name for it is free.
-/

namespace ResourceSchema

variable {rs rs' : List Resource} {r r' a b : Resource} {target target' name name' host : String}
variable {rel rel' : Relationship}

/-- The resource `r'` is `r` with further relationships, if anything. -/
structure Resource.Keeps (r r' : Resource) : Prop where
  others : r' = { r with relationships := r'.relationships }
  relationships : ∀ name rel,
    r.relationships.get? name = some rel → r'.relationships.get? name = some rel

/-- The relationship `rel` of `target` is in `rs'` under `name`, where there was none in `rs`. -/
def Added (rs rs' : List Resource) (target name : String) (rel : Relationship) : Prop :=
  ∃ r ∈ rs, ∃ r' ∈ rs', r.name = target ∧ r'.name = target ∧
    r.relationships.get? name = none ∧ r'.relationships.get? name = some rel

/-- The relationship `rel` of `target` is a nullable guest, and the host relationship that it names
is a relationship of a resource of `rs` that points back. -/
structure Relationship.IsInverseIn (rel : Relationship) (rs : List Resource) (target : String) :
    Prop where
  guest : rel.host = false
  nullable : rel.nullable = true
  pointsBack : ∃ a ∈ rs, a.name = rel.resource ∧
    ∃ host, rel.inverse = some host ∧ rel.PointsBack target a host

/-- The resource `b` has a relationship to `a` that can be the other end of the relationship `rel`
of `a` called `host`, and is not that relationship itself. -/
def HasInverse (a : Resource) (host : String) (rel : Relationship) (b : Resource) : Prop :=
  ∃ name back, b.relationships.get? name = some back ∧ ¬ (a.name = b.name ∧ name = host) ∧
    back.resource = a.name ∧ back.cardinality = rel.cardinality.inverse ∧
    (back.inverse = none ∨ back.inverse = some host)

/-- The name that an inverse of a relationship of `a` gets: the plural form of `a` where it relates
to many, and the name of `a` otherwise. -/
def Resource.nameOfInverse (a : Resource) (rel : Relationship) : String :=
  if rel.cardinality.inverse.isToMany then a.pluralForm else a.name

/-- The resources `rs'` are `rs` with the inverses of their host relationships. -/
structure MakesVisible (rs rs' : List Resource) : Prop where
  /-- The resources are the same, in the same order, and keep all that they have. -/
  kept : List.Forall₂ Resource.Keeps rs rs'
  /-- A relationship that is added is an inverse. -/
  added : ∀ target name rel, Added rs rs' target name rel → rel.IsInverseIn rs target
  /-- One inverse is added at most for every host relationship. -/
  once : ∀ target name rel target' name' rel',
    Added rs rs' target name rel → Added rs rs' target' name' rel' →
      rel.resource = rel'.resource → rel.inverse = rel'.inverse → target = target' ∧ name = name'
  /-- A host relationship has an inverse at the other end, or its name is taken there. -/
  visible : ∀ a ∈ rs', ∀ b ∈ rs', ∀ host rel, a.relationships.get? host = some rel →
    rel.host = true → rel.resource = b.name →
      HasInverse a host rel b ∨ b.relationships.contains (a.nameOfInverse rel) = true ∨
        b.attributes.contains (a.nameOfInverse rel) = true

/-! ## What is added -/

theorem keeps_addInverses (distinct : (rs.map Resource.name).Nodup) :
    List.Forall₂ Resource.Keeps rs (addInverses rs) := by
  have hgains := gainsInverses_addInverses rs
  rw [addInverses_eq_map distinct, List.forall₂_map_right_iff, List.forall₂_same] at hgains ⊢
  exact fun r hr ↦ ⟨foldl_receive_eq _ r, (hgains r hr).kept⟩

/-- What is added is the inverse of a host relationship that leads to where it is added. -/
theorem exists_hosted_of_added (distinct : (rs.map Resource.name).Nodup)
    (hadded : Added rs (addInverses rs) target name rel) :
    ∃ h ∈ rs.flatMap Resource.hosted,
      h.relationship.resource = target ∧ h.inverseName = name ∧ h.inverse = rel := by
  obtain ⟨r, hr, r', hr', rfl, hname, hfree, hrel⟩ := hadded
  exact exists_hosted_of_free distinct hr hr' hname hfree hrel

theorem isInverseIn_of_added (distinct : (rs.map Resource.name).Nodup)
    (hadded : Added rs (addInverses rs) target name rel) : rel.IsInverseIn rs target := by
  obtain ⟨h, hh, rfl, -, rfl⟩ := exists_hosted_of_added distinct hadded
  obtain ⟨a, ha, hh⟩ := List.mem_flatMap.mp hh
  obtain ⟨hsource, -, hdeclared, hhost⟩ := mem_hosted_iff.mp hh
  refine ⟨rfl, rfl, a, ha, hsource.symm, h.name, rfl, h.relationship, hdeclared, ?_⟩
  exact Relationship.hostsFor_iff.mpr ⟨hhost, rfl, (Cardinality.inverse_inverse _).symm⟩

/-- The resource and the host relationship that an inverse names tell where it is, and under which
name. -/
theorem eq_of_added (distinct : (rs.map Resource.name).Nodup)
    (hadded : Added rs (addInverses rs) target name rel)
    (hadded' : Added rs (addInverses rs) target' name' rel')
    (hresource : rel.resource = rel'.resource) (hinverse : rel.inverse = rel'.inverse) :
    target = target' ∧ name = name' := by
  obtain ⟨h, hh, rfl, rfl, rfl⟩ := exists_hosted_of_added distinct hadded
  obtain ⟨h', hh', rfl, rfl, rfl⟩ := exists_hosted_of_added distinct hadded'
  have horigin : h.origin = h'.origin := Prod.ext hresource (Option.some.inj hinverse)
  obtain rfl : h = h' := List.inj_on_of_nodup_map (origin_nodup distinct) hh hh' horigin
  exact ⟨rfl, rfl⟩

/-! ## What is visible -/

theorem visible_addInverses (distinct : (rs.map Resource.name).Nodup) (ha : a ∈ addInverses rs)
    (hb : b ∈ addInverses rs) (hrel : a.relationships.get? host = some rel)
    (hhost : rel.host = true) (htarget : rel.resource = b.name) :
    HasInverse a host rel b ∨ b.relationships.contains (a.nameOfInverse rel) = true ∨
      b.attributes.contains (a.nameOfInverse rel) = true := by
  let h : Hosted := ⟨a.name, a.pluralForm, host, rel⟩
  have hh : h ∈ (addInverses rs).flatMap Resource.hosted :=
    List.mem_flatMap.mpr ⟨a, ha, mem_hosted_iff.mpr ⟨rfl, rfl, hrel, hhost⟩⟩
  have distinct' : ((addInverses rs).map Resource.name).Nodup := by rwa [map_name_addInverses]
  have hfirst : firstNamed? (addInverses rs) rel.resource = some b :=
    (find?_key_eq_some_iff distinct').mpr ⟨hb, htarget.symm⟩
  rcases settledIn_of_mem_addInverses hh b hfirst with hdeclared | htaken
  · obtain ⟨name, back, hback, hinverse⟩ := Hosted.isDeclared_iff.mp hdeclared
    obtain ⟨hother, hsource, hcardinality, hnamed⟩ := isInverse_iff.mp hinverse
    refine .inl ⟨name, back, hback, fun hself ↦ hother ⟨hself.1.symm, hself.2⟩, hsource,
      hcardinality, ?_⟩
    cases hinv : back.inverse with
    | none => exact .inl rfl
    | some inverse => exact .inr (congrArg some (hnamed inverse hinv))
  · exact .inr (Hosted.isTaken_iff.mp htaken)

/-- **Adding inverses makes host relationships visible, and does nothing else.**  Whatever resources
with distinct names it is given, it keeps what they have, adds one inverse at most for every host
relationship, and leaves none without an inverse whose name would be free. -/
theorem addInverses_makesVisible (distinct : (rs.map Resource.name).Nodup) :
    MakesVisible rs (addInverses rs) where
  kept := keeps_addInverses distinct
  added := fun _ _ _ hadded ↦ isInverseIn_of_added distinct hadded
  once := fun _ _ _ _ _ _ hadded hadded' ↦ eq_of_added distinct hadded hadded'
  visible := fun _ ha _ hb _ _ hrel hhost htarget ↦
    visible_addInverses distinct ha hb hrel hhost htarget

/-- A message with two accounts, and an account that lists the messages it receives. -/
def mailbox : List Description :=
  [((Description.named "message").withRelationship "recipient" (.between "account" .manyToOne true)
    |>.withRelationship "sender" (.between "account" .manyToOne true)),
   (Description.named "account").withRelationship "inbox"
    (RelationshipForm.between "message" .oneToMany false |>.inverseOf "recipient")]

/-- The messages that an account sends are added beside those it receives. -/
theorem addInverses_makesVisible_mailbox :
    ((mailbox.map Description.complete).map Resource.name).Nodup ∧
      addInverses (mailbox.map Description.complete) ≠ mailbox.map Description.complete ∧
      MakesVisible (mailbox.map Description.complete)
        (addInverses (mailbox.map Description.complete)) := by
  have distinct : ((mailbox.map Description.complete).map Resource.name).Nodup := by decide
  exact ⟨distinct, by decide +kernel, addInverses_makesVisible distinct⟩

end ResourceSchema
