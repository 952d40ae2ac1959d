import ResourceSchema.Proofs.Relationship.Duality
import ResourceSchema.Proofs.Schema.Hosting

/-!
# Adding inverses changes nothing that was there

The inverses that are added make relationships visible from the other end.  They can be linked
whenever the relationships that were declared can, since each of them names the host relationship
it was made for.  No declared relationship is linked in another way than before, and the tables are
the same.
-/

namespace ResourceSchema

variable {rs : List Resource} {r a b : Resource} {s s' : DefinitionSet} {l : Link} {h : Hosted}
variable {name : String} {rel : Relationship}

/-! ## When a set can be linked -/

theorem exists_define_iff :
    (∃ d, r.define rs = .ok d) ↔ ∀ name rel, r.relationships.get? name = some rel →
      ∃ l, r.link rs name rel = .ok l := by
  have hdefine : (∃ d, r.define rs = .ok d) ↔
      ∃ ls, r.relationships.entries.mapM (fun e ↦ r.link rs e.1 e.2) = .ok ls := by
    simp only [Resource.define_eq_ok_iff, mapM_eq_ok_iff]
    exact ⟨fun ⟨d, hd⟩ ↦ ⟨_, hd.2⟩, fun ⟨ls, hls⟩ ↦ ⟨⟨r, ls⟩, rfl, hls⟩⟩
  rw [hdefine, exists_mapM_eq_ok_iff]
  simp only [Prod.forall, SortedMap.get?_eq_some_iff]

theorem exists_build_iff :
    (∃ s, DefinitionSet.build rs = .ok s) ↔
      ∀ r ∈ rs, ∀ name rel, r.relationships.get? name = some rel →
        ∃ l, r.link rs name rel = .ok l := by
  have hbuild : (∃ s, DefinitionSet.build rs = .ok s) ↔
      ∃ ds, rs.mapM (Resource.define rs) = .ok ds := by
    simp only [build_eq_ok_iff, mapM_eq_ok_iff]
    exact ⟨fun ⟨s, hs⟩ ↦ ⟨_, hs⟩, fun ⟨ds, hds⟩ ↦ ⟨⟨ds⟩, hds⟩⟩
  rw [hbuild, exists_mapM_eq_ok_iff]
  simp only [exists_define_iff]

/-- The link of a relationship, by the names of the resource and the relationship. -/
def DefinitionSet.link? (s : DefinitionSet) (resource relationship : String) : Option Link :=
  (s.get? resource).bind (·.link? relationship)

theorem storage?_eq_map_link? (s : DefinitionSet) (resource relationship : String) :
    s.storage? resource relationship = (s.link? resource relationship).map Link.storage := by
  rw [DefinitionSet.storage?, DefinitionSet.link?, Option.map_bind]
  rfl

theorem link?_eq_some (distinct : (rs.map Resource.name).Nodup)
    (built : DefinitionSet.build rs = .ok s) (hr : r ∈ rs)
    (hrel : r.relationships.get? name = some rel) (hlink : r.link rs name rel = .ok l) :
    s.link? r.name name = some l := by
  obtain ⟨d, hget, hdefine⟩ := exists_get? built distinct hr
  obtain ⟨-, hlinks⟩ := Resource.define_eq_ok_iff.mp hdefine
  obtain ⟨l', hl', hlink'⟩ := exists_of_mem_left hlinks (SortedMap.get?_eq_some_iff.mp hrel)
  obtain rfl : l' = l := Except.ok.inj (hlink'.symm.trans hlink)
  rw [DefinitionSet.link?, hget]
  exact (link?_eq_some_iff hdefine).mpr ⟨hl', (Resource.link_eq_ok_iff.mp hlink).1⟩

/-! ## Where an inverse is stored -/

/-- The storage of a host relationship seen from the other end, where `table` is the table of the
resource that declares it. -/
def Storage.opposite (table : Ident) : Storage → Storage
  | ownTable column => hostTable table column
  | hostTable _ column => ownTable column
  | associative link .host localColumn foreignColumn =>
    associative link .guest foreignColumn localColumn
  | associative link .guest localColumn foreignColumn =>
    associative link .host foreignColumn localColumn

/-- An inverse is read through the host relationship that it was made for. -/
theorem Hosted.counterpart_inverse (hh : h ∈ a.hosted) (hb : b.name = h.relationship.resource) :
    h.inverse.counterpart b.name a = .ok h.name := by
  obtain ⟨-, -, hrel, hhost⟩ := mem_hosted_iff.mp hh
  refine (Relationship.counterpart_eq_ok_iff_of_inverse rfl).mpr ⟨⟨h.relationship, hrel, ?_⟩, rfl⟩
  exact Relationship.hostsFor_iff.mpr ⟨hhost, hb.symm, (Cardinality.inverse_inverse _).symm⟩

/-- An inverse is stored where its host relationship is. -/
theorem Hosted.storage_inverse (hh : h ∈ a.hosted) (hb : b.name = h.relationship.resource)
    (name : String) :
    ∃ st, h.relationship.storage a.name h.name b = .ok st ∧
      h.inverse.storage b.name name a = .ok (st.opposite ⟨a.name⟩) := by
  obtain ⟨-, -, -, hhost⟩ := mem_hosted_iff.mp hh
  have hcounterpart := counterpart_inverse hh hb
  by_cases hmany : h.relationship.cardinality = .manyToMany
  · have hmany' : h.inverse.cardinality = .manyToMany := inverse_eq_manyToMany_iff.mpr hmany
    exact ⟨_, Relationship.storage_host_manyToMany hhost hmany,
      (Relationship.storage_guest_manyToMany_eq_ok_iff rfl hmany').mpr ⟨_, hcounterpart, rfl⟩⟩
  · have hmany' : h.inverse.cardinality ≠ .manyToMany :=
      fun e ↦ hmany (inverse_eq_manyToMany_iff.mp e)
    exact ⟨_, Relationship.storage_host hhost hmany,
      (Relationship.storage_guest_eq_ok_iff rfl hmany').mpr ⟨_, hcounterpart, rfl⟩⟩

/-! ## Linking with and without inverses -/

theorem resourceNamed?_eq_some_iff (distinct : (rs.map Resource.name).Nodup) :
    resourceNamed? rs name = some r ↔ r ∈ rs ∧ r.name = name :=
  find?_reverse_key_eq_some_iff distinct

/-- The link of an inverse, and that of the host relationship that it was made for. -/
theorem exists_link_inverse (distinct : (rs.map Resource.name).Nodup) (ha : a ∈ rs)
    (hh : h ∈ a.hosted) (hb : b ∈ rs) (hname : h.relationship.resource = b.name) (name : String) :
    ∃ st, a.link rs h.name h.relationship = .ok ⟨h.name, h.relationship, st⟩ ∧
      b.link rs name h.inverse = .ok ⟨name, h.inverse, st.opposite ⟨a.name⟩⟩ := by
  obtain ⟨hsource, -⟩ := mem_hosted_iff.mp hh
  obtain ⟨st, hhost, hguest⟩ := Hosted.storage_inverse hh hname.symm name
  have htarget := (resourceNamed?_eq_some_iff distinct).mpr ⟨hb, hname.symm⟩
  have hdeclaring := (resourceNamed?_eq_some_iff distinct).mpr ⟨ha, hsource.symm⟩
  exact ⟨st, Resource.link_eq_ok_iff.mpr ⟨rfl, rfl, b, htarget, hhost⟩,
    Resource.link_eq_ok_iff.mpr ⟨rfl, rfl, a, hdeclaring, hguest⟩⟩

/-- Every link is made as it would be made without the inverses. -/
theorem link_addInverses (rs : List Resource) {r r' : Resource} (hname : r'.name = r.name)
    (name : String) (rel : Relationship) :
    r'.link (addInverses rs) name rel = r.link rs name rel :=
  link_congr (map_hosting_addInverses rs) hname name rel

theorem exists_build_addInverses_iff (distinct : (rs.map Resource.name).Nodup) :
    (∃ s', DefinitionSet.build (addInverses rs) = .ok s') ↔
      ∃ s, DefinitionSet.build rs = .ok s := by
  have hgains := gainsInverses_addInverses rs
  rw [exists_build_iff, exists_build_iff]
  constructor
  · intro hlinks r hr name rel hrel
    obtain ⟨r', hr', hg⟩ := exists_of_mem_left hgains hr
    obtain ⟨l, hl⟩ := hlinks r' hr' name rel (hg.kept name rel hrel)
    exact ⟨l, (link_addInverses rs hg.name name rel).symm.trans hl⟩
  · intro hlinks r' hr' name rel hrel
    obtain ⟨r, hr, hg⟩ := exists_of_mem_right hgains hr'
    rw [link_addInverses rs hg.name]
    rcases hg.added name rel hrel with hdeclared | ⟨h, hh, htarget, rfl, rfl⟩
    · exact hlinks r hr name rel hdeclared
    · obtain ⟨a, ha, hh⟩ := List.mem_flatMap.mp hh
      obtain ⟨st, -, hguest⟩ := exists_link_inverse distinct ha hh hr htarget h.inverseName
      exact ⟨_, hguest⟩

/-! ## Conservation -/

/-- The definitions `s'` of the resources `rs` with their inverses agree with the definitions `s` of
`rs` on all that is declared. -/
structure DefinitionSet.Conserves (s' s : DefinitionSet) (rs : List Resource) : Prop where
  /-- A declared relationship has one link, and so one storage and one place in the output. -/
  declared : ∀ r ∈ rs, ∀ name rel, r.relationships.get? name = some rel →
    ∃ l, s.link? r.name name = some l ∧ s'.link? r.name name = some l
  /-- A relationship that is added is the inverse of a declared host relationship, and is stored
  where that one is. -/
  added : ∀ r ∈ rs, ∀ r' ∈ addInverses rs, r'.name = r.name → ∀ name rel,
    r.relationships.get? name = none → r'.relationships.get? name = some rel →
      ∃ a ∈ rs, ∃ h ∈ a.hosted, h.relationship.resource = r.name ∧ name = h.inverseName ∧
        rel = h.inverse ∧ ∃ st, s.storage? a.name h.name = some st ∧
          s'.storage? r.name name = some (st.opposite ⟨a.name⟩)
  /-- The tables are the same, or there are none for the same reason. -/
  migration : s'.migration = s.migration

section Build

variable (distinct : (rs.map Resource.name).Nodup) (built : DefinitionSet.build rs = .ok s)
variable (built' : DefinitionSet.build (addInverses rs) = .ok s')
include distinct built'

theorem link?_addInverses {b' : Resource} (hb' : b' ∈ addInverses rs)
    (hrel : b'.relationships.get? name = some rel) (hlink : b'.link rs name rel = .ok l) :
    s'.link? b'.name name = some l := by
  rw [← link_addInverses rs rfl] at hlink
  rw [← map_name_addInverses] at distinct
  exact link?_eq_some distinct built' hb' hrel hlink

include built

theorem link?_of_declared (hr : r ∈ rs) (hrel : r.relationships.get? name = some rel) :
    ∃ l, s.link? r.name name = some l ∧ s'.link? r.name name = some l := by
  obtain ⟨l, hl⟩ := exists_build_iff.mp ⟨s, built⟩ r hr name rel hrel
  obtain ⟨r', hr', hgains⟩ := exists_of_mem_left (gainsInverses_addInverses rs) hr
  refine ⟨l, link?_eq_some distinct built hr hrel hl, ?_⟩
  rw [← link_congr rfl hgains.name] at hl
  rw [← hgains.name]
  exact link?_addInverses distinct built' hr' (hgains.kept name rel hrel) hl

theorem storage?_of_added {b' : Resource} (hb : b ∈ rs) (hb' : b' ∈ addInverses rs)
    (hname : b'.name = b.name) (hfree : b.relationships.get? name = none)
    (hrel : b'.relationships.get? name = some rel) :
    ∃ a ∈ rs, ∃ h ∈ a.hosted, h.relationship.resource = b.name ∧ name = h.inverseName ∧
      rel = h.inverse ∧ ∃ st, s.storage? a.name h.name = some st ∧
        s'.storage? b.name name = some (st.opposite ⟨a.name⟩) := by
  obtain ⟨h, hh, htarget, rfl, rfl⟩ := exists_hosted_of_free distinct hb hb' hname hfree hrel
  obtain ⟨a, ha, hh⟩ := List.mem_flatMap.mp hh
  obtain ⟨st, hhost, hguest⟩ := exists_link_inverse distinct ha hh hb htarget h.inverseName
  obtain ⟨-, -, hdeclared, -⟩ := mem_hosted_iff.mp hh
  have hlink := link?_eq_some distinct built ha hdeclared hhost
  rw [← link_congr rfl hname] at hguest
  have hlink' := link?_addInverses distinct built' hb' hrel hguest
  refine ⟨a, ha, h, hh, htarget, rfl, rfl, st, ?_, ?_⟩
  · rw [storage?_eq_map_link?, hlink]
    rfl
  · rw [← hname, storage?_eq_map_link?, hlink']
    rfl

end Build

/-- **Adding inverses is conservative.**  With them the set can be linked exactly if it can without,
and then every declared relationship has the link it had, every inverse is stored where its host
relationship is, and the migration is the same. -/
theorem addInverses_conservative (distinct : (rs.map Resource.name).Nodup) :
    ((∃ s', DefinitionSet.build (addInverses rs) = .ok s') ↔
      ∃ s, DefinitionSet.build rs = .ok s) ∧
    ∀ s s', DefinitionSet.build rs = .ok s → DefinitionSet.build (addInverses rs) = .ok s' →
      s'.Conserves s rs := by
  refine ⟨exists_build_addInverses_iff distinct, fun s s' built built' ↦ ⟨?_, ?_, ?_⟩⟩
  · intro r hr name rel hrel
    exact link?_of_declared distinct built built' hr hrel
  · intro b hb b' hb' hname name rel hfree hrel
    exact storage?_of_added distinct built built' hb hb' hname hfree hrel
  · exact migration_congr (map_hosting_addInverses rs) built built'

theorem addInverses_conservative_household :
    ∃ s s', DefinitionSet.build (household.map Description.complete) = .ok s ∧
      DefinitionSet.build (addInverses (household.map Description.complete)) = .ok s' ∧
      s ≠ s' ∧ s'.Conserves s (household.map Description.complete) := by
  have distinct : ((household.map Description.complete).map Resource.name).Nodup := by decide
  obtain ⟨s, built⟩ := exists_eq_ok
    (x := DefinitionSet.build (household.map Description.complete)) (by decide +kernel)
  obtain ⟨hiff, hconserves⟩ := addInverses_conservative distinct
  obtain ⟨s', built'⟩ := hiff.mpr ⟨s, built⟩
  refine ⟨s, s', built, built', ?_, hconserves s s' built built'⟩
  -- the owner of a cat gains the relationship to the cats
  intro hsame
  have hresources := (resources_of_build built).symm.trans
    ((congrArg DefinitionSet.resources hsame).trans (resources_of_build built'))
  exact absurd hresources (by decide +kernel)

end ResourceSchema
