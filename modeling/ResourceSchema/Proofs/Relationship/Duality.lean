import ResourceSchema.Description.Completion
import ResourceSchema.Proofs.Schema.Linking

/-!
# The two ends of a relationship

A guest is the other end of a host relationship of the related resource.  Both ends compute the
place of the key on their own, from opposite sides; they come to the same column, or to the same
link table with its two columns swapped.
-/

namespace ResourceSchema

variable {rs : List Resource} {r a b : Resource} {s : DefinitionSet} {d e : Definition}
variable {g h : Link} {name : String}

/-- `h` is a host relationship of `a`, and `g` its other end, a guest of `b`. -/
structure Link.IsGuestOf (g h : Link) (a b : Resource) : Prop where
  host : h.relationship.host = true
  related : h.related = b.name
  cardinality : h.relationship.cardinality = g.relationship.cardinality.inverse
  inverse : ∀ inverse, g.relationship.inverse = some inverse → h.name = inverse
  /-- A guest of any other cardinality is read from the column that the host adds to its table. -/
  column : g.relationship.cardinality ≠ .manyToMany →
    ∃ column, h.storage = .ownTable column ∧ g.storage = .hostTable ⟨a.name⟩ column
  /-- Guest and host of a many-to-many relationship have one link table. -/
  linkTable : g.relationship.cardinality = .manyToMany →
    ∃ table hostColumn guestColumn,
      h.storage = .associative table .host hostColumn guestColumn ∧
        g.storage = .associative table .guest guestColumn hostColumn

theorem inverse_eq_manyToMany_iff {c : Cardinality} :
    c.inverse = .manyToMany ↔ c = .manyToMany := by
  cases c <;> simp [Cardinality.inverse]

/-- The counterpart of a guest is stored where the guest is read. -/
theorem isGuestOf_of_counterpart (hguest : g.relationship.host = false)
    (hg : g.LeadsTo rs b a) (hh : h.LeadsTo rs a b)
    (hcounterpart : g.relationship.counterpart b.name a = .ok h.name) : g.IsGuestOf h a b := by
  obtain ⟨⟨back, hback, hpoints⟩, hinverse⟩ := Relationship.counterpart_spec hcounterpart
  obtain rfl : h.relationship = back := Option.some.inj (hh.declared.symm.trans hback)
  obtain ⟨hhost, hrelated, hcardinality⟩ := Relationship.hostsFor_iff.mp hpoints
  refine ⟨hhost, hrelated, hcardinality, hinverse, fun hmany ↦ ?_, fun hmany ↦ ?_⟩
  · have hmanyHost : h.relationship.cardinality ≠ .manyToMany := by
      rw [hcardinality]
      exact fun e ↦ hmany (inverse_eq_manyToMany_iff.mp e)
    have hst := hh.storage
    rw [Relationship.storage_host hhost hmanyHost] at hst
    obtain ⟨host, hhostName, hgst⟩ :=
      (Relationship.storage_guest_eq_ok_iff hguest hmany).mp hg.storage
    obtain rfl : h.name = host := Except.ok.inj (hcounterpart.symm.trans hhostName)
    exact ⟨_, (Except.ok.inj hst).symm, hgst⟩
  · have hmanyHost : h.relationship.cardinality = .manyToMany := by
      rw [hcardinality, hmany]
      rfl
    have hst := hh.storage
    rw [Relationship.storage_host_manyToMany hhost hmanyHost] at hst
    obtain ⟨host, hhostName, hgst⟩ :=
      (Relationship.storage_guest_manyToMany_eq_ok_iff hguest hmany).mp hg.storage
    obtain rfl : h.name = host := Except.ok.inj (hcounterpart.symm.trans hhostName)
    exact ⟨_, _, _, (Except.ok.inj hst).symm, hgst⟩

theorem exists_counterpart (hguest : g.relationship.host = false) (hg : g.LeadsTo rs b a) :
    ∃ host, g.relationship.counterpart b.name a = .ok host := by
  by_cases hmany : g.relationship.cardinality = .manyToMany
  · obtain ⟨host, hhost, -⟩ :=
      (Relationship.storage_guest_manyToMany_eq_ok_iff hguest hmany).mp hg.storage
    exact ⟨host, hhost⟩
  · obtain ⟨host, hhost, -⟩ := (Relationship.storage_guest_eq_ok_iff hguest hmany).mp hg.storage
    exact ⟨host, hhost⟩

section Build

variable (distinct : (rs.map Resource.name).Nodup) (built : DefinitionSet.build rs = .ok s)
include distinct built

/-- Every guest of a definition is the other end of a host of the related definition. -/
theorem exists_isGuestOf (hd : d ∈ s.definitions) (hg : g ∈ d.links)
    (hguest : g.relationship.host = false) :
    ∃ e ∈ s.definitions, e.name = g.related ∧
      ∃ h ∈ e.links, g.IsGuestOf h e.resource d.resource := by
  obtain ⟨hb, hdefine⟩ := define_of_mem built hd
  obtain ⟨a, hleads⟩ := exists_leadsTo hdefine hg
  obtain ⟨host, hcounterpart⟩ := exists_counterpart hguest hleads
  obtain ⟨⟨back, hback, hpoints⟩, -⟩ := Relationship.counterpart_spec hcounterpart
  obtain ⟨e, he, hdefineHost⟩ := exists_definition built hleads.target_mem
  obtain rfl := resource_of_define hdefineHost
  obtain ⟨h, hh, rfl, rfl⟩ := exists_link hdefineHost hback
  obtain ⟨target, hleadsHost⟩ := exists_leadsTo hdefineHost hh
  obtain ⟨-, hrelated, -⟩ := Relationship.hostsFor_iff.mp hpoints
  -- names are distinct, so the resource that the host leads to is the one that declares the guest
  obtain rfl : target = d.resource :=
    List.inj_on_of_nodup_map distinct hleadsHost.target_mem hb
      (hleadsHost.target_name.trans hrelated)
  exact ⟨e, he, hleads.target_name, h, hh,
    isGuestOf_of_counterpart hguest hleads hleadsHost hcounterpart⟩

end Build

/-- Where the key of a relationship is stored, by the names of the resource and the relationship. -/
def DefinitionSet.storage? (s : DefinitionSet) (resource relationship : String) : Option Storage :=
  (s.get? resource).bind fun d ↦ (d.link? relationship).map Link.storage

theorem storage?_eq_some (distinct : (rs.map Resource.name).Nodup)
    (built : DefinitionSet.build rs = .ok s) (hd : d ∈ s.definitions) (hg : g ∈ d.links) :
    s.storage? d.name g.name = some g.storage := by
  have hget := (get?_eq_some_iff built distinct).mpr ⟨hd, rfl⟩
  have hlink := (link?_eq_some_iff (define_of_mem built hd).2).mpr ⟨hg, rfl⟩
  rw [DefinitionSet.storage?, hget, Option.bind_some, hlink]
  rfl

/-- **Host and guest are dual.**  Every guest `g` of a resource `b` is the other end of a host `h`
of the related resource `a`: the guest is read from the column in which the host stores its key, or
both use one link table, with the columns swapped. -/
theorem guest_dual_of_host (distinct : (rs.map Resource.name).Nodup)
    (built : DefinitionSet.build rs = .ok s) (hb : b ∈ rs) {g : String} {guest : Relationship}
    (hg : b.relationships.get? g = some guest) (hguest : guest.host = false) :
    ∃ a ∈ rs, a.name = guest.resource ∧ ∃ h host, a.relationships.get? h = some host ∧
      host.host = true ∧ host.resource = b.name ∧ host.cardinality = guest.cardinality.inverse ∧
      (∀ inverse, guest.inverse = some inverse → h = inverse) ∧
      (guest.cardinality ≠ .manyToMany → ∃ table column,
        (s.get? a.name).map Definition.table = some table ∧
        s.storage? a.name h = some (.ownTable column) ∧
        s.storage? b.name g = some (.hostTable table column)) ∧
      (guest.cardinality = .manyToMany → ∃ table hostColumn guestColumn,
        s.storage? a.name h = some (.associative table .host hostColumn guestColumn) ∧
        s.storage? b.name g = some (.associative table .guest guestColumn hostColumn)) := by
  obtain ⟨d, hd, hdefine⟩ := exists_definition built hb
  obtain rfl := resource_of_define hdefine
  obtain ⟨g, hgmem, rfl, rfl⟩ := exists_link hdefine hg
  obtain ⟨e, he, hname, h, hh, hends⟩ := exists_isGuestOf distinct built hd hgmem hguest
  obtain ⟨ha, hdefineHost⟩ := define_of_mem built he
  obtain ⟨target, hleads⟩ := exists_leadsTo hdefineHost hh
  have hstorageHost := storage?_eq_some distinct built he hh
  have hstorageGuest := storage?_eq_some distinct built hd hgmem
  refine ⟨e.resource, ha, hname, h.name, h.relationship, hleads.declared, hends.host,
    hends.related, hends.cardinality, hends.inverse, fun hmany ↦ ?_, fun hmany ↦ ?_⟩
  · obtain ⟨column, hhst, hgst⟩ := hends.column hmany
    have hget : s.get? e.resource.name = some e :=
      (get?_eq_some_iff built distinct).mpr ⟨he, rfl⟩
    refine ⟨e.table, column, ?_, ?_, ?_⟩
    · rw [hget]
      rfl
    · rw [← hhst]
      exact hstorageHost
    · rw [← show g.storage = .hostTable e.table column from hgst]
      exact hstorageGuest
  · obtain ⟨table, hostColumn, guestColumn, hhst, hgst⟩ := hends.linkTable hmany
    refine ⟨table, hostColumn, guestColumn, ?_, ?_⟩
    · rw [← hhst]
      exact hstorageHost
    · rw [← hgst]
      exact hstorageGuest

/-- One resource at both ends: persons and their friends. -/
def friends : List Resource :=
  [((Description.named "person").withRelationship "friend" (.between "person" .manyToMany true)
    |>.withRelationship "admirer"
      ((RelationshipForm.between "person" .manyToMany false).inverseOf "friend")).complete]

theorem guest_dual_of_host_friends :
    (friends.map Resource.name).Nodup ∧ ∃ s, DefinitionSet.build friends = .ok s ∧
      ∃ b ∈ friends, ∃ guest : Relationship, b.relationships.get? "admirer" = some guest ∧
        guest.host = false ∧ guest.cardinality = .manyToMany ∧
        ∃ a ∈ friends, ∃ h host, a.relationships.get? h = some host ∧ host.host = true ∧
          ∃ table hostColumn guestColumn,
            s.storage? a.name h = some (.associative table .host hostColumn guestColumn) ∧
            s.storage? b.name "admirer" =
              some (.associative table .guest guestColumn hostColumn) := by
  have hnames : (friends.map Resource.name).Nodup := by decide
  obtain ⟨s, hs⟩ := exists_eq_ok (x := DefinitionSet.build friends) (by decide +kernel)
  have hguest : (friends[0]).relationships.get? "admirer" =
      some ⟨"person", .manyToMany, false, true, some "friend"⟩ := by decide +kernel
  obtain ⟨a, ha, -, h, host, hhost, hside, -, -, -, -, hlink⟩ :=
    guest_dual_of_host hnames hs List.mem_cons_self hguest rfl
  exact ⟨hnames, s, hs, _, List.mem_cons_self, _, hguest, rfl, rfl,
    a, ha, h, host, hhost, hside, hlink rfl⟩

end ResourceSchema
