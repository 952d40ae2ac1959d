import ResourceSchema.Proofs.Schema.Conservation

/-!
# Which sets can be linked, and why others cannot

A host relationship can be linked whenever the resource that it leads to is there.  A guest needs a
counterpart besides.  Linking goes through the resources in their order and through the
relationships of each in the order of their names, and it reports the first that cannot be linked.
-/

namespace ResourceSchema

variable {rs : List Resource} {r target : Resource} {rel : Relationship} {e : SchemaError}
variable {source name : String} {reason : UnresolvedReason}

/-! ## Counterparts -/

/-- A guest of `source` names a host relationship of `target` that points back, or it names none
and there is exactly one. -/
inductive Relationship.HasCounterpart (rel : Relationship) (source : String) (target : Resource) :
    Prop
  | named (inverse : String) (hinverse : rel.inverse = some inverse)
      (back : rel.PointsBack source target inverse)
  | only (hinverse : rel.inverse = none) (unique : ∃! host, rel.PointsBack source target host)

/-- Why a guest of `source` has no counterpart on `target`. -/
inductive Relationship.LacksCounterpart (rel : Relationship) (source : String) (target : Resource) :
    UnresolvedReason → Prop
  /-- What it names as its inverse does not point back. -/
  | badInverse (inverse : String) (hinverse : rel.inverse = some inverse)
      (astray : ¬ rel.PointsBack source target inverse) :
      rel.LacksCounterpart source target (.badInverse inverse rel.cardinality.inverse)
  /-- It names no inverse, and nothing points back. -/
  | noCounterpart (hinverse : rel.inverse = none)
      (absent : ∀ host, ¬ rel.PointsBack source target host) :
      rel.LacksCounterpart source target (.noCounterpart rel.cardinality.inverse)
  /-- It names no inverse, and several point back, of which the first two are reported. -/
  | ambiguous (first second : String) (hinverse : rel.inverse = none)
      (hfirst : rel.PointsBack source target first)
      (hsecond : rel.PointsBack source target second) (before : Text.Before first second)
      (others : ∀ other, rel.PointsBack source target other →
        other = first ∨ other = second ∨ Text.Before second other) :
      rel.LacksCounterpart source target (.ambiguous first second)

namespace Relationship

theorem exists_counterpart_iff :
    (∃ host, rel.counterpart source target = .ok host) ↔ rel.HasCounterpart source target := by
  constructor
  · rintro ⟨host, hcounterpart⟩
    cases hinverse : rel.inverse with
    | some inverse =>
        obtain ⟨hback, rfl⟩ := (counterpart_eq_ok_iff_of_inverse hinverse).mp hcounterpart
        exact .named host hinverse hback
    | none =>
        obtain ⟨hback, hunique⟩ := (counterpart_eq_ok_iff_of_none hinverse).mp hcounterpart
        exact .only hinverse ⟨host, hback, hunique⟩
  · rintro (⟨inverse, hinverse, hback⟩ | ⟨hinverse, host, hback, hunique⟩)
    · exact ⟨inverse, (counterpart_eq_ok_iff_of_inverse hinverse).mpr ⟨hback, rfl⟩⟩
    · exact ⟨host, (counterpart_eq_ok_iff_of_none hinverse).mpr ⟨hback, hunique⟩⟩

theorem counterpart_eq_error_iff_of_inverse {inverse : String}
    (hinverse : rel.inverse = some inverse) :
    rel.counterpart source target = .error reason ↔
      ¬ rel.PointsBack source target inverse ∧
        reason = .badInverse inverse rel.cardinality.inverse := by
  rw [pointsBack_iff, counterpart, hinverse]
  dsimp only
  split
  · next hback => simp [hback]
  · next hback => simp [hback, eq_comm]

/-- The host relationships of `target` that a guest of `source` could be the other end of. -/
def candidates (rel : Relationship) (source : String) (target : Resource) :
    SortedMap Relationship :=
  target.relationships.filter fun _ back ↦ back.hostsFor source rel.cardinality.inverse

theorem counterpart_eq_error_iff_of_none (hinverse : rel.inverse = none) :
    rel.counterpart source target = .error reason ↔
      ((rel.candidates source target).keys = [] ∧
        reason = .noCounterpart rel.cardinality.inverse) ∨
      ∃ first second, (∃ rest, (rel.candidates source target).keys = first :: second :: rest) ∧
        reason = .ambiguous first second := by
  rw [counterpart, hinverse]
  dsimp only
  rw [← candidates]
  split
  · next hkeys => simp [hkeys, eq_comm]
  · next only hkeys => simp [hkeys]
  · next first second rest hkeys =>
    simp only [hkeys, List.cons.injEq, reduceCtorEq, false_and, false_or, Except.error.injEq]
    constructor
    · rintro rfl
      exact ⟨first, second, ⟨rest, rfl, rfl, rfl⟩, rfl⟩
    · rintro ⟨_, _, ⟨_, rfl, rfl, -⟩, rfl⟩
      rfl

theorem counterpart_eq_error_iff :
    rel.counterpart source target = .error reason ↔ rel.LacksCounterpart source target reason := by
  have hmem : ∀ host, host ∈ (rel.candidates source target).keys ↔
      rel.PointsBack source target host := mem_keys_pointsBack rel source target
  cases hinverse : rel.inverse with
  | some inverse =>
      rw [counterpart_eq_error_iff_of_inverse hinverse]
      constructor
      · rintro ⟨hastray, rfl⟩
        exact .badInverse inverse hinverse hastray
      · rintro (⟨_, hnamed, hastray⟩ | ⟨hnone, -⟩ | ⟨_, _, hnone, -⟩)
        · obtain rfl := Option.some.inj (hinverse.symm.trans hnamed)
          exact ⟨hastray, rfl⟩
        · exact nomatch hinverse.symm.trans hnone
        · exact nomatch hinverse.symm.trans hnone
  | none =>
      rw [counterpart_eq_error_iff_of_none hinverse]
      simp only [SortedMap.keys_eq_cons_cons_iff, List.eq_nil_iff_forall_not_mem, hmem]
      constructor
      · rintro (⟨habsent, rfl⟩ | ⟨first, second, ⟨hfirst, hsecond, hbefore, hothers⟩, rfl⟩)
        · exact .noCounterpart hinverse habsent
        · exact .ambiguous first second hinverse hfirst hsecond hbefore hothers
      · rintro (⟨_, hnamed, -⟩ | ⟨-, habsent⟩ |
          ⟨first, second, -, hfirst, hsecond, hbefore, hothers⟩)
        · exact nomatch hinverse.symm.trans hnamed
        · exact .inl ⟨habsent, rfl⟩
        · exact .inr ⟨first, second, ⟨hfirst, hsecond, hbefore, hothers⟩, rfl⟩

/-! ## Storage -/

theorem exists_storage_host (hhost : rel.host = true) (source name : String) (target : Resource) :
    ∃ st, rel.storage source name target = .ok st := by
  by_cases hmany : rel.cardinality = .manyToMany
  · exact ⟨_, storage_host_manyToMany hhost hmany⟩
  · exact ⟨_, storage_host hhost hmany⟩

theorem exists_storage_guest_iff (hguest : rel.host = false) :
    (∃ st, rel.storage source name target = .ok st) ↔
      ∃ host, rel.counterpart source target = .ok host := by
  by_cases hmany : rel.cardinality = .manyToMany
  · simp only [storage_guest_manyToMany_eq_ok_iff hguest hmany]
    exact ⟨fun ⟨_, host, hhost, _⟩ ↦ ⟨host, hhost⟩, fun ⟨host, hhost⟩ ↦ ⟨_, host, hhost, rfl⟩⟩
  · simp only [storage_guest_eq_ok_iff hguest hmany]
    exact ⟨fun ⟨_, host, hhost, _⟩ ↦ ⟨host, hhost⟩, fun ⟨host, hhost⟩ ↦ ⟨_, host, hhost, rfl⟩⟩

/-- A guest is stored somewhere unless it has no counterpart. -/
theorem storage_guest_eq_error_iff (hguest : rel.host = false) :
    rel.storage source name target = .error reason ↔
      rel.counterpart source target = .error reason := by
  unfold storage
  rw [hguest]
  cases rel.cardinality with
  | manyToMany | oneToOne | oneToMany | manyToOne =>
      simp [bind_eq_error_iff, pure, Except.pure]

theorem exists_storage_iff :
    (∃ st, rel.storage source name target = .ok st) ↔
      (rel.host = false → rel.HasCounterpart source target) := by
  cases hside : rel.host with
  | true => simp [exists_storage_host hside]
  | false => simp [exists_storage_guest_iff hside, exists_counterpart_iff]

theorem storage_eq_error_iff :
    rel.storage source name target = .error reason ↔
      rel.host = false ∧ rel.LacksCounterpart source target reason := by
  cases hside : rel.host with
  | true =>
      obtain ⟨st, hst⟩ := exists_storage_host hside source name target
      simp [hst]
  | false => simp [storage_guest_eq_error_iff hside, counterpart_eq_error_iff]

end Relationship

/-! ## Relationships -/

/-- The relationship leads to a resource of the list and, if it is a guest, has a counterpart
there. -/
def Relationship.Resolves (rel : Relationship) (rs : List Resource) (r : Resource) : Prop :=
  ∃ target ∈ rs, target.name = rel.resource ∧
    (rel.host = false → rel.HasCounterpart r.name target)

/-- Why a relationship of `r` cannot be linked. -/
inductive Relationship.Unresolved (rel : Relationship) (rs : List Resource) (r : Resource) :
    UnresolvedReason → Prop
  /-- It leads to no resource of the list. -/
  | unknownResource (absent : ∀ target ∈ rs, target.name ≠ rel.resource) :
      rel.Unresolved rs r .unknownResource
  /-- It is a guest that has no counterpart where it leads to. -/
  | guest (target : Resource) (reason : UnresolvedReason) (mem : target ∈ rs)
      (hname : target.name = rel.resource) (hguest : rel.host = false)
      (lacks : rel.LacksCounterpart r.name target reason) : rel.Unresolved rs r reason

theorem Resource.link_eq_error_iff :
    r.link rs name rel = .error e ↔ ∃ reason, e = .unresolved r.name name rel.resource reason ∧
      ((resourceNamed? rs rel.resource = none ∧ reason = .unknownResource) ∨
        ∃ target, resourceNamed? rs rel.resource = some target ∧
          rel.storage r.name name target = .error reason) := by
  unfold Resource.link
  dsimp only
  split
  · next hnone => simp [hnone, eq_comm]
  · next target htarget =>
    simp only [htarget, Option.some.injEq, exists_eq_left']
    split
    · next st hstorage => simp [hstorage]
    · next reason hstorage => simp [hstorage, eq_comm]

section Link

variable (distinct : (rs.map Resource.name).Nodup)
include distinct

theorem exists_link_iff : (∃ l, r.link rs name rel = .ok l) ↔ rel.Resolves rs r := by
  have hlink : (∃ l, r.link rs name rel = .ok l) ↔
      ∃ target, resourceNamed? rs rel.resource = some target ∧
        ∃ st, rel.storage r.name name target = .ok st := by
    simp only [Resource.link_eq_ok_iff]
    constructor
    · rintro ⟨l, -, -, target, htarget, hst⟩
      exact ⟨target, htarget, l.storage, hst⟩
    · rintro ⟨target, htarget, st, hst⟩
      exact ⟨⟨name, rel, st⟩, rfl, rfl, target, htarget, hst⟩
  rw [hlink]
  simp only [resourceNamed?_eq_some_iff distinct, Relationship.exists_storage_iff, and_assoc]
  rfl

theorem resourceNamed?_eq_none_iff :
    resourceNamed? rs name = none ↔ ∀ target ∈ rs, target.name ≠ name := by
  rw [Option.eq_none_iff_forall_ne_some]
  simp only [ne_eq, resourceNamed?_eq_some_iff distinct, not_and]

theorem link_eq_error_iff_unresolved :
    r.link rs name rel = .error e ↔
      ∃ reason, rel.Unresolved rs r reason ∧ e = .unresolved r.name name rel.resource reason := by
  rw [Resource.link_eq_error_iff]
  simp only [resourceNamed?_eq_none_iff distinct, resourceNamed?_eq_some_iff distinct,
    Relationship.storage_eq_error_iff]
  constructor
  · rintro ⟨reason, rfl, ⟨habsent, rfl⟩ | ⟨target, ⟨hmem, hname⟩, hguest, hlacks⟩⟩
    · exact ⟨_, .unknownResource habsent, rfl⟩
    · exact ⟨reason, .guest target reason hmem hname hguest hlacks, rfl⟩
  · rintro ⟨reason, habsent | ⟨target, _, hmem, hname, hguest, hlacks⟩, rfl⟩
    · exact ⟨_, rfl, .inl ⟨habsent, rfl⟩⟩
    · exact ⟨reason, rfl, .inr ⟨target, ⟨hmem, hname⟩, hguest, hlacks⟩⟩

end Link

/-! ## The first relationship that cannot be linked -/

theorem define_eq_error_iff :
    r.define rs = .error e ↔ ∃ name rel, r.relationships.get? name = some rel ∧
      (∀ other rel', r.relationships.get? other = some rel' → Text.Before other name →
        ∃ l, r.link rs other rel' = .ok l) ∧ r.link rs name rel = .error e := by
  have hdefine : r.define rs = .error e ↔
      r.relationships.entries.mapM (fun e ↦ r.link rs e.1 e.2) = .error e := by
    simp [Resource.define, bind_eq_error_iff, pure, Except.pure]
  rw [hdefine, mapM_eq_error_iff]
  constructor
  · rintro ⟨before, ⟨name, rel⟩, after, hsplit, hbefore, herror⟩
    have hmem : (name, rel) ∈ r.relationships.entries :=
      hsplit ▸ List.mem_append_right before List.mem_cons_self
    refine ⟨name, rel, SortedMap.get?_eq_some_iff.mpr hmem, fun other rel' hrel' hless ↦ ?_, herror⟩
    exact hbefore (other, rel') ((SortedMap.mem_front_iff hsplit).mpr ⟨hrel', hless⟩)
  · rintro ⟨name, rel, hrel, hformer, herror⟩
    obtain ⟨before, after, hsplit⟩ := List.append_of_mem (SortedMap.get?_eq_some_iff.mp hrel)
    refine ⟨before, (name, rel), after, hsplit, fun former hmem ↦ ?_, herror⟩
    obtain ⟨hrel', hless⟩ := (SortedMap.mem_front_iff hsplit).mp hmem
    exact hformer former.1 former.2 hrel' hless

theorem build_eq_error_iff :
    DefinitionSet.build rs = .error e ↔ ∃ before r after, rs = before ++ r :: after ∧
      (∀ b ∈ before, ∃ d, b.define rs = .ok d) ∧ r.define rs = .error e := by
  rw [← mapM_eq_error_iff]
  simp [DefinitionSet.build, bind_eq_error_iff, pure, Except.pure]

/-- The error reports a relationship that cannot be linked, and every relationship before it can
be: those of the resources before, and those of the same resource that have smaller names. -/
inductive FirstUnresolved (rs : List Resource) : SchemaError → Prop
  | intro (before after : List Resource) (r : Resource) (name : String) (rel : Relationship)
      (reason : UnresolvedReason) (split : rs = before ++ r :: after)
      (declared : r.relationships.get? name = some rel) (unresolved : rel.Unresolved rs r reason)
      (earlier : ∀ b ∈ before, ∀ other rel', b.relationships.get? other = some rel' →
        rel'.Resolves rs b)
      (smaller : ∀ other rel', r.relationships.get? other = some rel' → Text.Before other name →
        rel'.Resolves rs r) :
      FirstUnresolved rs (.unresolved r.name name rel.resource reason)

theorem build_eq_error_iff_firstUnresolved (distinct : (rs.map Resource.name).Nodup) :
    DefinitionSet.build rs = .error e ↔ FirstUnresolved rs e := by
  rw [build_eq_error_iff]
  simp only [define_eq_error_iff, exists_define_iff, exists_link_iff distinct,
    link_eq_error_iff_unresolved distinct]
  constructor
  · rintro ⟨before, r, after, hsplit, hearlier, name, rel, hrel, hsmaller, reason, hunresolved, rfl⟩
    exact .intro before after r name rel reason hsplit hrel hunresolved hearlier hsmaller
  · rintro ⟨before, after, r, name, rel, reason, hsplit, hrel, hunresolved, hearlier, hsmaller⟩
    exact ⟨before, r, after, hsplit, hearlier, name, rel, hrel, hsmaller, reason, hunresolved, rfl⟩

/-- **A set can be linked exactly if all its relationships resolve**, and otherwise the first that
does not is reported, with the reason. -/
theorem build_resolves (distinct : (rs.map Resource.name).Nodup) :
    ((∃ s, DefinitionSet.build rs = .ok s) ↔
      ∀ r ∈ rs, ∀ name rel, r.relationships.get? name = some rel → rel.Resolves rs r) ∧
    ∀ e, DefinitionSet.build rs = .error e ↔ FirstUnresolved rs e := by
  constructor
  · simp only [exists_build_iff, exists_link_iff distinct]
  · exact fun e ↦ build_eq_error_iff_firstUnresolved distinct

/-- An account with messages, which may be those it receives or those it sends. -/
def correspondence : List Description :=
  [(Description.named "account").withRelationship "messages" (.between "message" .oneToMany false),
   ((Description.named "message").withRelationship "recipient" (.between "account" .manyToOne true)
    |>.withRelationship "sender" (.between "account" .manyToOne true))]

theorem build_resolves_correspondence :
    ((correspondence.map Description.complete).map Resource.name).Nodup ∧
      FirstUnresolved (correspondence.map Description.complete)
        (.unresolved "account" "messages" "message" (.ambiguous "recipient" "sender")) := by
  have distinct : ((correspondence.map Description.complete).map Resource.name).Nodup := by decide
  obtain ⟨-, herror⟩ := build_resolves distinct
  exact ⟨distinct, (herror _).mp (by decide +kernel)⟩

end ResourceSchema
