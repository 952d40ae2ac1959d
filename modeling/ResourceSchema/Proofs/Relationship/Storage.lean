import ResourceSchema.Proofs.SortedMap
import ResourceSchema.Relationship.Storage

/-!
# Counterparts and where keys are stored

A guest has a counterpart exactly if it names a host relationship that points back, or names none
and there is exactly one.  Hosts are stored without a look at the other end.
-/

namespace ResourceSchema.Relationship

variable {r : Relationship} {source name : String} {target : Resource} {st : Storage}

theorem hostsFor_iff {resource : String} {cardinality : Cardinality} :
    r.hostsFor resource cardinality = true ↔
      r.host = true ∧ r.resource = resource ∧ r.cardinality = cardinality := by
  simp only [hostsFor, Bool.and_eq_true, beq_iff_eq, and_assoc]

/-- The relationship `name` of `target` is a host that `r` could be the other end of. -/
def PointsBack (r : Relationship) (source : String) (target : Resource) (name : String) : Prop :=
  ∃ back, target.relationships.get? name = some back ∧
    back.hostsFor source r.cardinality.inverse = true

theorem pointsBack_iff :
    r.PointsBack source target name ↔
      (target.relationships.get? name).any (·.hostsFor source r.cardinality.inverse) = true :=
  (Option.any_eq_true _ _).symm

theorem mem_keys_pointsBack (r : Relationship) (source : String) (target : Resource)
    (name : String) :
    name ∈ (target.relationships.filter
      fun _ back ↦ back.hostsFor source r.cardinality.inverse).keys ↔
        r.PointsBack source target name := by
  rw [SortedMap.mem_keys_iff]
  simp only [SortedMap.get?_filter_eq_some_iff, PointsBack]

theorem counterpart_eq_ok_iff_of_inverse {inverse : String} (hinverse : r.inverse = some inverse) :
    r.counterpart source target = .ok name ↔
      r.PointsBack source target name ∧ name = inverse := by
  unfold counterpart
  rw [hinverse]
  dsimp only
  split
  · next hback =>
    rw [Except.ok.injEq]
    constructor
    · rintro rfl
      exact ⟨pointsBack_iff.mpr hback, rfl⟩
    · rintro ⟨-, rfl⟩
      rfl
  · next hback =>
    constructor
    · intro h
      cases h
    · rintro ⟨hpoints, rfl⟩
      exact absurd (pointsBack_iff.mp hpoints) hback

theorem counterpart_eq_ok_iff_of_none (hinverse : r.inverse = none) :
    r.counterpart source target = .ok name ↔
      r.PointsBack source target name ∧
        ∀ other, r.PointsBack source target other → other = name := by
  have hmem := mem_keys_pointsBack r source target
  have hnodup := SortedMap.keys_nodup
    (target.relationships.filter fun _ back ↦ back.hostsFor source r.cardinality.inverse)
  unfold counterpart
  rw [hinverse]
  dsimp only
  split
  · next hkeys =>
    constructor
    · intro h
      cases h
    · rintro ⟨hpoints, -⟩
      rw [← hmem, hkeys] at hpoints
      cases hpoints
  · next only hkeys =>
    rw [hkeys] at hmem
    rw [Except.ok.injEq]
    constructor
    · rintro rfl
      exact ⟨(hmem only).mp List.mem_cons_self,
        fun other hother ↦ List.mem_singleton.mp ((hmem other).mpr hother)⟩
    · rintro ⟨-, hunique⟩
      exact hunique only ((hmem only).mp List.mem_cons_self)
  · next first second rest hkeys =>
    rw [hkeys] at hmem hnodup
    constructor
    · intro h
      cases h
    · rintro ⟨-, hunique⟩
      have hfirst := hunique first ((hmem first).mp List.mem_cons_self)
      have hsecond := hunique second
        ((hmem second).mp (List.mem_cons_of_mem _ List.mem_cons_self))
      rw [hfirst, hsecond] at hnodup
      exact absurd List.mem_cons_self (List.nodup_cons.mp hnodup).1

/-- A counterpart points back, and is the named inverse if there is one. -/
theorem counterpart_spec (h : r.counterpart source target = .ok name) :
    r.PointsBack source target name ∧ ∀ inverse, r.inverse = some inverse → name = inverse := by
  cases hinverse : r.inverse with
  | some inverse =>
      obtain ⟨hpoints, hname⟩ := (counterpart_eq_ok_iff_of_inverse hinverse).mp h
      exact ⟨hpoints, fun _ e ↦ hname.trans (Option.some.inj e)⟩
  | none =>
      obtain ⟨hpoints, -⟩ := (counterpart_eq_ok_iff_of_none hinverse).mp h
      exact ⟨hpoints, fun _ e ↦ nomatch e⟩

/-! ## Storage, by cardinality and side -/

theorem storage_host (hhost : r.host = true) (hmany : r.cardinality ≠ .manyToMany) :
    r.storage source name target = .ok (.ownTable ⟨Name.foreignKeyColumn name⟩) := by
  unfold storage
  rw [hhost]
  cases h : r.cardinality with
  | manyToMany => exact absurd h hmany
  | oneToOne | oneToMany | manyToOne => rfl

theorem storage_host_manyToMany (hhost : r.host = true) (hmany : r.cardinality = .manyToMany) :
    r.storage source name target =
      .ok (.associative ⟨Name.associativeTable source target.name⟩ .host
        ⟨Name.associativeHostColumn source⟩
        ⟨Name.associativeGuestColumn source target.name name⟩) := by
  rw [storage, hhost, hmany]

theorem storage_guest_eq_ok_iff (hguest : r.host = false) (hmany : r.cardinality ≠ .manyToMany) :
    r.storage source name target = .ok st ↔
      ∃ host, r.counterpart source target = .ok host ∧
        st = .hostTable ⟨target.name⟩ ⟨Name.foreignKeyColumn host⟩ := by
  have heq : r.storage source name target = (do
      let host ← r.counterpart source target
      return .hostTable ⟨target.name⟩ ⟨Name.foreignKeyColumn host⟩) := by
    unfold storage
    rw [hguest]
    cases h : r.cardinality with
    | manyToMany => exact absurd h hmany
    | oneToOne | oneToMany | manyToOne => rfl
  rw [heq, bind_eq_ok_iff]
  simp only [pure_eq_ok_iff, eq_comm (a := st)]

theorem storage_guest_manyToMany_eq_ok_iff (hguest : r.host = false)
    (hmany : r.cardinality = .manyToMany) :
    r.storage source name target = .ok st ↔
      ∃ host, r.counterpart source target = .ok host ∧
        st = .associative ⟨Name.associativeTable target.name source⟩ .guest
          ⟨Name.associativeGuestColumn target.name source host⟩
          ⟨Name.associativeHostColumn target.name⟩ := by
  rw [storage, hguest, hmany]
  simp only [bind_eq_ok_iff, pure_eq_ok_iff, eq_comm (a := st)]

/-- The hosts of many-to-many relationships name a link table, and all others do not. -/
theorem isHostedAssociative_storage (h : r.storage source name target = .ok st) :
    st.isHostedAssociative = (r.host && r.cardinality == .manyToMany) := by
  by_cases hmany : r.cardinality = .manyToMany
  · cases hhost : r.host with
    | true =>
        rw [storage_host_manyToMany hhost hmany] at h
        obtain rfl := Except.ok.inj h
        rw [hmany]
        rfl
    | false =>
        obtain ⟨_, _, rfl⟩ := (storage_guest_manyToMany_eq_ok_iff hhost hmany).mp h
        rfl
  · rw [beq_false_of_ne hmany, Bool.and_false]
    cases hhost : r.host with
    | true =>
        rw [storage_host hhost hmany] at h
        obtain rfl := Except.ok.inj h
        rfl
    | false =>
        obtain ⟨_, _, rfl⟩ := (storage_guest_eq_ok_iff hhost hmany).mp h
        rfl

/-- Hosts store the key in their own table or name a link table, and guests do neither. -/
theorem host_of_storage (h : r.storage source name target = .ok st) :
    r.host = (st.ownColumn?.isSome || st.isHostedAssociative) := by
  by_cases hmany : r.cardinality = .manyToMany
  · cases hhost : r.host with
    | true =>
        rw [storage_host_manyToMany hhost hmany] at h
        obtain rfl := Except.ok.inj h
        rfl
    | false =>
        obtain ⟨_, _, rfl⟩ := (storage_guest_manyToMany_eq_ok_iff hhost hmany).mp h
        rfl
  · cases hhost : r.host with
    | true =>
        rw [storage_host hhost hmany] at h
        obtain rfl := Except.ok.inj h
        rfl
    | false =>
        obtain ⟨_, _, rfl⟩ := (storage_guest_eq_ok_iff hhost hmany).mp h
        rfl

end ResourceSchema.Relationship
