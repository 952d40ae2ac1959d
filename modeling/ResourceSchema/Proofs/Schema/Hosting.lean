import ResourceSchema.Proofs.Relationship.Inverse
import ResourceSchema.Proofs.Schema.Creation

/-!
# Host relationships decide the schema

Keys are stored where host relationships say.  Guests are looked through when a relationship is
linked, they add nothing to the dependencies, and no table has a column for them.  So resources
without their guests have the same links where they have links, and the same migration.
-/

namespace ResourceSchema

variable {rs : List Resource} {r target : Resource} {s : DefinitionSet} {d : Definition} {l : Link}
variable {name source : String} {rel : Relationship}

/-! ## Linking -/

theorem hostsFor_host {cardinality : Cardinality} (h : rel.hostsFor source cardinality = true) :
    rel.host = true :=
  (Relationship.hostsFor_iff.mp h).1

theorem any_hostsFor_hosting (target : Resource) (name : String) (cardinality : Cardinality) :
    (target.hosting.relationships.get? name).any (·.hostsFor source cardinality) =
      (target.relationships.get? name).any (·.hostsFor source cardinality) := by
  rw [Resource.hosting, SortedMap.get?_filter]
  cases target.relationships.get? name with
  | none => rfl
  | some rel => cases h : rel.host <;> simp [Option.filter, Relationship.hostsFor, h]

theorem filter_hostsFor_hosting (target : Resource) (cardinality : Cardinality) :
    (target.hosting.relationships.filter fun _ back ↦ back.hostsFor source cardinality) =
      target.relationships.filter fun _ back ↦ back.hostsFor source cardinality := by
  apply SortedMap.ext
  intro key
  simp only [Resource.hosting, SortedMap.get?_filter, Option.filter_filter]
  congr 1
  funext back
  cases h : back.hostsFor source cardinality with
  | false => simp
  | true => simp [hostsFor_host h]

theorem Relationship.counterpart_hosting (rel : Relationship) (source : String)
    (target : Resource) :
    rel.counterpart source target.hosting = rel.counterpart source target := by
  unfold counterpart
  dsimp only
  rw [filter_hostsFor_hosting]
  simp only [any_hostsFor_hosting]

theorem Relationship.storage_hosting (rel : Relationship) (source name : String)
    (target : Resource) :
    rel.storage source name target.hosting = rel.storage source name target := by
  unfold storage
  rw [counterpart_hosting]
  rfl

theorem resourceNamed?_map_hosting (rs : List Resource) (name : String) :
    resourceNamed? (rs.map Resource.hosting) name =
      (resourceNamed? rs name).map Resource.hosting := by
  rw [resourceNamed?, ← List.map_reverse, List.find?_map]
  rfl

/-- A relationship is linked without a look at guests. -/
theorem Resource.link_hosting (rs : List Resource) (r : Resource) (name : String)
    (rel : Relationship) :
    r.hosting.link (rs.map Resource.hosting) name rel = r.link rs name rel := by
  unfold link
  rw [resourceNamed?_map_hosting]
  cases resourceNamed? rs rel.resource with
  | none => rfl
  | some target =>
      simp only [Option.map_some, Relationship.storage_hosting]
      rfl

/-- Among resources with the same host relationships, a relationship has the same link. -/
theorem link_congr {rs' : List Resource} {r' : Resource}
    (hosts : rs'.map Resource.hosting = rs.map Resource.hosting) (hname : r'.name = r.name)
    (name : String) (rel : Relationship) : r'.link rs' name rel = r.link rs name rel := by
  rw [← Resource.link_hosting rs', ← Resource.link_hosting rs, hosts]
  unfold Resource.link
  rw [show r'.hosting.name = r.hosting.name from hname]

/-- The definition without its guests. -/
def Definition.hosting (d : Definition) : Definition where
  resource := d.resource.hosting
  links := d.links.filter fun l ↦ l.relationship.host

theorem define_hosting (defined : r.define rs = .ok d) :
    r.hosting.define (rs.map Resource.hosting) = .ok d.hosting := by
  obtain ⟨rfl, hlinks⟩ := Resource.define_eq_ok_iff.mp defined
  refine Resource.define_eq_ok_iff.mpr ⟨rfl, ?_⟩
  simp only [Resource.link_hosting]
  have hsame : Relator.LiftFun
      (fun (e : String × Relationship) (l : Link) ↦ d.resource.link rs e.1 e.2 = .ok l) (· ↔ ·)
      (fun e ↦ e.2.host = true) (fun l ↦ l.relationship.host = true) := by
    intro e l hlink
    show e.2.host = true ↔ l.relationship.host = true
    rw [(Resource.link_eq_ok_iff.mp hlink).2.1]
  exact List.rel_filter hsame hlinks

/-- The set without the guests of its definitions. -/
def DefinitionSet.hosting (s : DefinitionSet) : DefinitionSet :=
  ⟨s.definitions.map Definition.hosting⟩

theorem build_hosting (built : DefinitionSet.build rs = .ok s) :
    DefinitionSet.build (rs.map Resource.hosting) = .ok s.hosting := by
  rw [build_eq_ok_iff, DefinitionSet.hosting, List.forall₂_map_left_iff, List.forall₂_map_right_iff]
  exact (build_eq_ok_iff.mp built).imp fun r d ↦ define_hosting

/-! ## The migration -/

theorem addResource_hosting (g : DependencyGraph) (r : Resource) :
    g.addResource r.hosting = g.addResource r := by
  have hvalues : r.hosting.relationships.values.filter (Relationship.isDependency r.name) =
      r.relationships.values.filter (Relationship.isDependency r.name) := by
    simp only [Resource.hosting, SortedMap.values, SortedMap.filter, List.filter_map,
      List.filter_filter]
    congr 2
    funext e
    cases h : e.2.host <;> simp [Relationship.isDependency, h]
  unfold DependencyGraph.addResource
  rw [← hvalues]
  rfl

theorem ofResources_hosting (rs : List Resource) :
    DependencyGraph.ofResources (rs.map Resource.hosting) = DependencyGraph.ofResources rs := by
  unfold DependencyGraph.ofResources
  rw [List.foldl_map, List.foldl_map]
  congr 1
  funext g r
  exact addResource_hosting g r

theorem hosting_links_filterMap {α : Type} {f : Link → Option α}
    (hf : ∀ l ∈ d.links, l.relationship.host = false → f l = none) :
    d.hosting.links.filterMap f = d.links.filterMap f := by
  rw [Definition.hosting, List.filterMap_filter]
  refine List.filterMap_congr fun l hl ↦ ?_
  cases h : l.relationship.host with
  | true => rfl
  | false => exact (hf l hl h).symm

section Define

variable (defined : r.define rs = .ok d)
include defined

/-- A guest adds neither a column nor a link table. -/
theorem guest_storage (hl : l ∈ d.links) (hguest : l.relationship.host = false) :
    l.storage.ownColumn? = none ∧ l.storage.isHostedAssociative = false := by
  obtain ⟨target, hleads⟩ := exists_leadsTo defined hl
  have hhost := Relationship.host_of_storage hleads.storage
  rw [hguest, eq_comm, Bool.or_eq_false_iff, Option.isSome_eq_false_iff,
    Option.isNone_iff_eq_none] at hhost
  exact hhost

theorem toTable_hosting : d.hosting.toTable = d.toTable := by
  have hcolumns : d.hosting.links.filterMap Link.toColumn? = d.links.filterMap Link.toColumn? := by
    refine hosting_links_filterMap fun l hl hguest ↦ ?_
    rw [Link.toColumn?, (guest_storage defined hl hguest).1]
    rfl
  unfold Definition.toTable
  rw [hcolumns]
  rfl

theorem linkTables_hosting : d.hosting.linkTables = d.linkTables := by
  have hlinks : d.hosting.hostedAssociativeLinks = d.hostedAssociativeLinks := by
    simp only [Definition.hostedAssociativeLinks, ← List.filterMap_eq_filter]
    refine hosting_links_filterMap fun l hl hguest ↦ ?_
    simp [Option.guard, (guest_storage defined hl hguest).2]
  rw [Definition.linkTables, Definition.linkTables, hlinks]
  rfl

end Define

section Build

variable (built : DefinitionSet.build rs = .ok s)
include built

theorem createResource_hosting (draft : Draft) (name : String) :
    Draft.createResource s.hosting draft name = Draft.createResource s draft name := by
  have hget : s.hosting.get? name = (s.get? name).map Definition.hosting := by
    rw [DefinitionSet.get?, DefinitionSet.hosting, ← List.map_reverse, List.find?_map]
    rfl
  unfold Draft.createResource
  rw [hget]
  cases hd : s.get? name with
  | none => rfl
  | some d =>
      obtain ⟨-, defined⟩ := define_of_mem built (mem_of_get? hd).1
      dsimp only [Option.map_some]
      rw [toTable_hosting defined, linkTables_hosting defined]
      rfl

/-- A migration is made of host relationships alone. -/
theorem migration_hosting : s.hosting.migration = s.migration := by
  have hresources : s.hosting.resources = s.resources.map Resource.hosting := by
    simp only [DefinitionSet.resources, DefinitionSet.hosting, List.map_map]
    rfl
  have hcreate : Draft.createResource s.hosting = Draft.createResource s :=
    funext fun draft ↦ funext fun name ↦ createResource_hosting built draft name
  unfold DefinitionSet.migration
  rw [hresources, ofResources_hosting, hcreate]

end Build

/-- Sets of the same host relationships have the same migration. -/
theorem migration_congr {rs' : List Resource} {s' : DefinitionSet}
    (hosts : rs'.map Resource.hosting = rs.map Resource.hosting)
    (built : DefinitionSet.build rs = .ok s) (built' : DefinitionSet.build rs' = .ok s') :
    s'.migration = s.migration := by
  have hset : DefinitionSet.build (rs.map Resource.hosting) = .ok s'.hosting := by
    rw [← hosts]
    exact build_hosting built'
  have hsame : s.hosting = s'.hosting := Except.ok.inj ((build_hosting built).symm.trans hset)
  rw [← migration_hosting built', ← hsame, migration_hosting built]

end ResourceSchema
