import ResourceSchema.Proofs.Dependency.Ordering

/-!
# The dependencies between resources

The graph of a list of resources has an edge for every host relationship that is stored in a
column and points at another resource, and for nothing else.
-/

namespace ResourceSchema

/-- The table of the resource refers to the table of another one, by its name. -/
def Resource.DependsOn (r : Resource) (target : String) : Prop :=
  ∃ rel ∈ r.relationships.values, rel.isDependency r.name = true ∧ rel.resource = target

namespace DependencyGraph

variable {g : DependencyGraph} {r : Resource} {rs : List Resource} {name dep : String}

/-! ## Nodes and edges -/

theorem contains_addNode {added : String} :
    (g.addNode added).dependencies.contains name = true ↔
      name = added ∨ g.dependencies.contains name = true := by
  unfold addNode
  split
  · next h =>
    constructor
    · exact .inr
    · rintro (rfl | h')
      · exact h
      · exact h'
  · exact SortedMap.contains_insert

theorem dependenciesOf_addNode (g : DependencyGraph) (added name : String) :
    (g.addNode added).dependenciesOf name = g.dependenciesOf name := by
  unfold addNode
  split
  · rfl
  · next h =>
    simp only [dependenciesOf, SortedMap.get?_insert]
    split
    · next e =>
      have hnone : g.dependencies.get? name = none := by
        rw [e]
        exact Option.not_isSome_iff_eq_none.mp h
      rw [hnone]
      rfl
    · rfl

theorem contains_addEdge {source target : String} :
    (g.addEdge source target).dependencies.contains name = true ↔
      name = source ∨ name = target ∨ g.dependencies.contains name = true := by
  rw [addEdge, SortedMap.contains_insert, contains_addNode]

theorem mem_dependenciesOf_addEdge {source target : String} :
    dep ∈ (g.addEdge source target).dependenciesOf name ↔
      (name = source ∧ dep = target) ∨ dep ∈ g.dependenciesOf name := by
  rw [← dependenciesOf_addNode g target name]
  simp only [addEdge, dependenciesOf, SortedMap.get?_insert]
  by_cases e : name = source
  · simp [e, NameSet.mem_keys_add]
  · simp [e]

/-! ## One resource -/

theorem mem_dependenciesOf_addResource :
    dep ∈ (g.addResource r).dependenciesOf name ↔
      (r.name = name ∧ r.DependsOn dep) ∨ dep ∈ g.dependenciesOf name := by
  rw [addResource, foldl_iff (fun g (rel : Relationship) ↦ addEdge g r.name rel.resource)
    (fun g ↦ dep ∈ g.dependenciesOf name) fun _ _ ↦ mem_dependenciesOf_addEdge]
  apply or_congr_left
  simp only [Resource.DependsOn, List.mem_filter]
  constructor
  · rintro ⟨rel, hrel, rfl, rfl⟩
    exact ⟨rfl, rel, hrel.1, hrel.2, rfl⟩
  · rintro ⟨rfl, rel, hmem, hdep, rfl⟩
    exact ⟨rel, ⟨hmem, hdep⟩, rfl, rfl⟩

theorem contains_addResource :
    (g.addResource r).dependencies.contains name = true ↔
      (∃ target, r.DependsOn target ∧ (name = r.name ∨ name = target)) ∨
        g.dependencies.contains name = true := by
  rw [addResource, foldl_iff (fun g (rel : Relationship) ↦ addEdge g r.name rel.resource)
    (fun g ↦ g.dependencies.contains name = true)
    fun _ _ ↦ contains_addEdge.trans or_assoc.symm]
  apply or_congr_left
  simp only [Resource.DependsOn, List.mem_filter]
  constructor
  · rintro ⟨rel, hrel, h⟩
    exact ⟨rel.resource, ⟨rel, hrel.1, hrel.2, rfl⟩, h⟩
  · rintro ⟨target, ⟨rel, hmem, hdep, rfl⟩, h⟩
    exact ⟨rel, ⟨hmem, hdep⟩, h⟩

/-! ## All resources -/

theorem contains_foldl_addNode :
    (rs.foldl (fun g r ↦ g.addNode r.name) g).dependencies.contains name = true ↔
      (∃ r ∈ rs, name = r.name) ∨ g.dependencies.contains name = true :=
  foldl_iff (fun g (r : Resource) ↦ addNode g r.name)
    (fun g ↦ g.dependencies.contains name = true) (fun _ _ ↦ contains_addNode) rs g

theorem dependenciesOf_foldl_addNode (g : DependencyGraph) (rs : List Resource) (name : String) :
    (rs.foldl (fun g r ↦ g.addNode r.name) g).dependenciesOf name = g.dependenciesOf name := by
  induction rs generalizing g with
  | nil => rfl
  | cons r rest ih => rw [List.foldl_cons, ih, dependenciesOf_addNode]

theorem mem_dependenciesOf_ofResources :
    dep ∈ (ofResources rs).dependenciesOf name ↔ ∃ r ∈ rs, r.name = name ∧ r.DependsOn dep := by
  rw [ofResources, foldl_iff addResource (fun g ↦ dep ∈ g.dependenciesOf name)
    fun _ _ ↦ mem_dependenciesOf_addResource, dependenciesOf_foldl_addNode]
  exact or_iff_left List.not_mem_nil

/-- The graph has the resources of the list and those that one of them depends on. -/
theorem contains_ofResources_iff :
    (ofResources rs).dependencies.contains name = true ↔
      ∃ r ∈ rs, name = r.name ∨ r.DependsOn name := by
  rw [ofResources, foldl_iff addResource (fun g ↦ g.dependencies.contains name = true)
    fun _ _ ↦ contains_addResource, contains_foldl_addNode]
  constructor
  · rintro (⟨r, hr, target, hdep, rfl | rfl⟩ | ⟨r, hr, rfl⟩ | h)
    · exact ⟨r, hr, .inl rfl⟩
    · exact ⟨r, hr, .inr hdep⟩
    · exact ⟨r, hr, .inl rfl⟩
    · cases h
  · rintro ⟨r, hr, rfl | hdep⟩
    · exact .inr (.inl ⟨r, hr, rfl⟩)
    · exact .inl ⟨r, hr, name, hdep, .inr rfl⟩

/-- Where every dependency is itself a resource of the list, the graph has those alone. -/
theorem contains_ofResources
    (hclosed : ∀ r ∈ rs, ∀ target, r.DependsOn target → target ∈ rs.map Resource.name) :
    (ofResources rs).dependencies.contains name = true ↔ name ∈ rs.map Resource.name := by
  rw [contains_ofResources_iff]
  constructor
  · rintro ⟨r, hr, rfl | hdep⟩
    · exact List.mem_map_of_mem hr
    · exact hclosed r hr name hdep
  · intro hname
    obtain ⟨r, hr, rfl⟩ := List.mem_map.mp hname
    exact ⟨r, hr, .inl rfl⟩

/-! ## The order of the resources -/

/-- Graphs with the same resources and the same dependencies are equal. -/
theorem ext {g g' : DependencyGraph}
    (nodes : ∀ name, g.dependencies.contains name = true ↔ g'.dependencies.contains name = true)
    (edges : ∀ name dep, dep ∈ g.dependenciesOf name ↔ dep ∈ g'.dependenciesOf name) :
    g = g' := by
  have hdependencies : g.dependencies = g'.dependencies := by
    refine SortedMap.ext_of_keys (fun name ↦ ?_) fun name targets targets' hg hg' ↦ ?_
    · rw [← SortedMap.contains_iff, ← SortedMap.contains_iff]
      exact nodes name
    · have hsame := NameSet.ext (edges name)
      rwa [hg, hg'] at hsame
  cases g
  cases g'
  exact congrArg mk hdependencies

/-- The graph of resources does not depend on their order. -/
theorem ofResources_perm {rs' : List Resource} (perm : rs.Perm rs') :
    ofResources rs' = ofResources rs := by
  refine ext (fun name ↦ ?_) fun name dep ↦ ?_
  · rw [contains_ofResources_iff, contains_ofResources_iff]
    simp only [perm.mem_iff]
  · rw [mem_dependenciesOf_ofResources, mem_dependenciesOf_ofResources]
    simp only [perm.mem_iff]

/-- A resource without relationships is a resource of the graph, and no more. -/
theorem ofResources_insert {first last : List Resource} (hempty : r.relationships = .empty) :
    ofResources (first ++ r :: last) = (ofResources (first ++ last)).addNode r.name := by
  have hnone (target : String) : ¬ r.DependsOn target := by
    rintro ⟨rel, hrel, -⟩
    rw [hempty] at hrel
    cases hrel
  rw [ofResources_perm List.perm_middle.symm]
  refine ext (fun name ↦ ?_) fun name dep ↦ ?_
  · rw [contains_addNode, contains_ofResources_iff, contains_ofResources_iff]
    simp only [List.mem_cons, exists_eq_or_imp, hnone, or_false]
  · rw [dependenciesOf_addNode, mem_dependenciesOf_ofResources, mem_dependenciesOf_ofResources]
    simp only [List.mem_cons, exists_eq_or_imp, hnone, and_false, false_or]

end DependencyGraph

end ResourceSchema
