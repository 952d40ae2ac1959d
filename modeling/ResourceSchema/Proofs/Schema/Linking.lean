import ResourceSchema.Proofs.Relationship.Storage
import ResourceSchema.Schema.Definition

/-!
# What linking has found

A set that is built has one definition for every resource, and one link for every relationship of
it.  A link has found the related resource among the others, and the storage of its key.
-/

namespace ResourceSchema

variable {rs : List Resource} {r : Resource} {s : DefinitionSet} {d : Definition} {l : Link}
variable {name : String} {rel : Relationship}

theorem mem_of_resourceNamed? (h : resourceNamed? rs name = some r) : r ∈ rs ∧ r.name = name := by
  obtain ⟨hmem, hname⟩ := mem_of_find?_key h
  exact ⟨List.mem_reverse.mp hmem, hname⟩

/-! ## Links -/

theorem Resource.link_eq_ok_iff :
    r.link rs name rel = .ok l ↔
      l.name = name ∧ l.relationship = rel ∧ ∃ target,
        resourceNamed? rs rel.resource = some target ∧
          rel.storage r.name name target = .ok l.storage := by
  unfold Resource.link
  dsimp only
  split
  · next hnone => simp [hnone]
  · next target htarget =>
    simp only [htarget, Option.some.injEq, exists_eq_left']
    split
    · next st hstorage =>
      rw [Except.ok.injEq]
      constructor
      · rintro rfl
        exact ⟨rfl, rfl, hstorage⟩
      · rintro ⟨rfl, rfl, hst⟩
        rw [hst] at hstorage
        cases hstorage
        rfl
    · next reason hstorage => simp [hstorage]

/-- The link of a relationship of `r` leads to `target`. -/
structure Link.LeadsTo (l : Link) (rs : List Resource) (r target : Resource) : Prop where
  declared : r.relationships.get? l.name = some l.relationship
  target_mem : target ∈ rs
  target_name : target.name = l.related
  storage : l.relationship.storage r.name l.name target = .ok l.storage

/-! ## Definitions -/

theorem Resource.define_eq_ok_iff :
    r.define rs = .ok d ↔
      d.resource = r ∧
        List.Forall₂ (fun e l ↦ r.link rs e.1 e.2 = .ok l) r.relationships.entries d.links := by
  rw [Resource.define, bind_eq_ok_iff]
  simp only [mapM_eq_ok_iff, pure_eq_ok_iff]
  constructor
  · rintro ⟨links, hlinks, rfl⟩
    exact ⟨rfl, hlinks⟩
  · rintro ⟨rfl, hlinks⟩
    exact ⟨d.links, hlinks, rfl⟩

section Define

variable (defined : r.define rs = .ok d)
include defined

theorem resource_of_define : d.resource = r :=
  (Resource.define_eq_ok_iff.mp defined).1

theorem map_name_links : d.links.map Link.name = r.relationships.keys := by
  obtain ⟨-, hlinks⟩ := Resource.define_eq_ok_iff.mp defined
  exact (map_eq_map_of_forall₂ hlinks fun e l h ↦ (Resource.link_eq_ok_iff.mp h).1.symm).symm

theorem link_names_nodup : (d.links.map Link.name).Nodup := by
  rw [map_name_links defined]
  exact r.relationships.keys_nodup

theorem link?_eq_some_iff : d.link? name = some l ↔ l ∈ d.links ∧ l.name = name :=
  find?_key_eq_some_iff (link_names_nodup defined)

theorem exists_leadsTo (hl : l ∈ d.links) : ∃ target, l.LeadsTo rs r target := by
  obtain ⟨-, hlinks⟩ := Resource.define_eq_ok_iff.mp defined
  obtain ⟨e, he, hlink⟩ := exists_of_mem_right hlinks hl
  obtain ⟨hname, hrel, target, htarget, hstorage⟩ := Resource.link_eq_ok_iff.mp hlink
  obtain ⟨hmem, htargetName⟩ := mem_of_resourceNamed? htarget
  refine ⟨target, ?_, hmem, ?_, ?_⟩
  · rw [hname, hrel]
    exact SortedMap.get?_eq_some_iff.mpr he
  · rw [htargetName, Link.related, hrel]
  · rw [hname, hrel]
    exact hstorage

theorem exists_link (hrel : r.relationships.get? name = some rel) :
    ∃ l ∈ d.links, l.name = name ∧ l.relationship = rel := by
  obtain ⟨-, hlinks⟩ := Resource.define_eq_ok_iff.mp defined
  obtain ⟨l, hl, hlink⟩ := exists_of_mem_left hlinks (SortedMap.get?_eq_some_iff.mp hrel)
  obtain ⟨hname, hrel, -⟩ := Resource.link_eq_ok_iff.mp hlink
  exact ⟨l, hl, hname, hrel⟩

end Define

/-! ## Sets -/

theorem build_eq_ok_iff :
    DefinitionSet.build rs = .ok s ↔
      List.Forall₂ (fun r d ↦ r.define rs = .ok d) rs s.definitions := by
  rw [DefinitionSet.build, bind_eq_ok_iff]
  simp only [mapM_eq_ok_iff, pure_eq_ok_iff]
  constructor
  · rintro ⟨ds, hds, rfl⟩
    exact hds
  · intro hds
    exact ⟨s.definitions, hds, rfl⟩

theorem mem_of_get? (h : s.get? name = some d) : d ∈ s.definitions ∧ d.name = name := by
  obtain ⟨hmem, hname⟩ := mem_of_find?_key h
  exact ⟨List.mem_reverse.mp hmem, hname⟩

section Build

variable (built : DefinitionSet.build rs = .ok s)
include built

theorem resources_of_build : s.resources = rs := by
  have hmap := map_eq_map_of_forall₂ (build_eq_ok_iff.mp built) (f := id)
    (g := Definition.resource) fun r d h ↦ (resource_of_define h).symm
  rw [List.map_id] at hmap
  exact hmap.symm

theorem map_name_definitions : s.definitions.map Definition.name = rs.map Resource.name := by
  rw [← resources_of_build built, DefinitionSet.resources, List.map_map]
  rfl

theorem define_of_mem (hd : d ∈ s.definitions) :
    d.resource ∈ rs ∧ d.resource.define rs = .ok d := by
  obtain ⟨r, hr, hdefine⟩ := exists_of_mem_right (build_eq_ok_iff.mp built) hd
  obtain rfl := resource_of_define hdefine
  exact ⟨hr, hdefine⟩

theorem exists_definition (hr : r ∈ rs) : ∃ d ∈ s.definitions, r.define rs = .ok d :=
  exists_of_mem_left (build_eq_ok_iff.mp built) hr

/-- The related resource of every link has a definition. -/
theorem exists_related (hd : d ∈ s.definitions) (hl : l ∈ d.links) :
    ∃ e ∈ s.definitions, e.name = l.related := by
  obtain ⟨-, hdefine⟩ := define_of_mem built hd
  obtain ⟨target, hleads⟩ := exists_leadsTo hdefine hl
  obtain ⟨e, he, hdefineTarget⟩ := exists_definition built hleads.target_mem
  obtain rfl := resource_of_define hdefineTarget
  exact ⟨e, he, hleads.target_name⟩

variable (distinct : (rs.map Resource.name).Nodup)
include distinct

theorem get?_eq_some_iff : s.get? name = some d ↔ d ∈ s.definitions ∧ d.name = name := by
  rw [← map_name_definitions built] at distinct
  exact find?_reverse_key_eq_some_iff distinct

/-- Every resource is found under its name. -/
theorem exists_get? (hr : r ∈ rs) : ∃ d, s.get? r.name = some d ∧ r.define rs = .ok d := by
  obtain ⟨d, hd, hdefine⟩ := exists_definition built hr
  obtain rfl := resource_of_define hdefine
  exact ⟨d, (get?_eq_some_iff built distinct).mpr ⟨hd, rfl⟩, hdefine⟩

end Build

end ResourceSchema
