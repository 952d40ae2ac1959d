import Mathlib.Data.Fintype.Card
import Mathlib.Data.List.Basic
import Mathlib.Data.Set.Finite.List
import Mathlib.Logic.Relation
import ResourceSchema.Proofs.Dependency.Graph

/-!
# Cycles of dependencies

The ordering goes on for as many steps as there are resources, or until no resource is ready.  In
either case none is ready in the end.  So each resource that is left over waits for another one
that is left over, and following these there is a cycle.  Conversely no resource on a cycle can
come after all its dependencies.
-/

namespace ResourceSchema

/-- Where every item of a list leads to an item of the list, the way comes back somewhere. -/
theorem exists_transGen_self {α : Type} {R : α → α → Prop} {items : List α} (hne : items ≠ [])
    (hnext : ∀ a ∈ items, ∃ b ∈ items, R a b) : ∃ a ∈ items, Relation.TransGen R a a := by
  by_contra! hacyclic
  have : Finite {a // a ∈ items} := items.finite_toSet
  have : Std.Irrefl (Relation.TransGen fun b a : {a // a ∈ items} ↦ R a b) := by
    refine ⟨fun a hcycle ↦ hacyclic a a.property ?_⟩
    exact (Relation.transGen_swap.mp hcycle).lift Subtype.val fun _ _ hab ↦ hab
  have hwf := Finite.wellFounded_of_trans_of_irrefl
    (Relation.TransGen fun b a : {a // a ∈ items} ↦ R a b)
  have hnone (a : {a // a ∈ items}) : False := by
    induction a using hwf.induction with
    | _ a ih =>
        obtain ⟨b, hb, hab⟩ := hnext a a.property
        exact ih ⟨b, hb⟩ (.single hab)
  obtain ⟨a, ha⟩ := List.exists_mem_of_ne_nil items hne
  exact hnone ⟨a, ha⟩

namespace DependencyGraph

variable {g : DependencyGraph} {p : Progress} {name dep : String} {out : List String}

/-- One resource depends on another. -/
def Edge (g : DependencyGraph) (name dep : String) : Prop := dep ∈ g.dependenciesOf name

/-- No resource depends on itself, directly or through others. -/
def Acyclic (g : DependencyGraph) : Prop := ∀ name, ¬ Relation.TransGen g.Edge name name

/-- Whatever a resource depends on is a resource of the graph. -/
def Closed (g : DependencyGraph) : Prop :=
  ∀ name dep, g.Edge name dep → g.dependencies.contains dep = true

/-! ## Closed graphs -/

theorem contains_of_edge (h : g.Edge name dep) : g.dependencies.contains name = true := by
  obtain ⟨targets, htargets, -⟩ := mem_dependenciesOf_iff.mp h
  exact SortedMap.contains_eq_true_iff.mpr ⟨targets, htargets⟩

theorem Closed.addNode (h : g.Closed) (added : String) : (g.addNode added).Closed := by
  intro name dep hedge
  rw [Edge, dependenciesOf_addNode] at hedge
  exact contains_addNode.mpr (.inr (h name dep hedge))

theorem Closed.addEdge (h : g.Closed) (source target : String) :
    (g.addEdge source target).Closed := by
  intro name dep hedge
  rcases mem_dependenciesOf_addEdge.mp hedge with ⟨-, rfl⟩ | hedge
  · exact contains_addEdge.mpr (.inr (.inl rfl))
  · exact contains_addEdge.mpr (.inr (.inr (h name dep hedge)))

theorem closed_empty : Closed .empty := by
  intro name dep hedge
  cases hedge

/-- A resource or a dependency that is added to a graph. -/
inductive Addition where
  | node (name : String)
  | edge (source target : String)
deriving DecidableEq, Repr

/-- The graph with one addition more. -/
def add (g : DependencyGraph) : Addition → DependencyGraph
  | .node name => g.addNode name
  | .edge source target => g.addEdge source target

/-- The graph that is made by a sequence of additions. -/
def ofAdditions (additions : List Addition) : DependencyGraph := additions.foldl add empty

theorem Closed.add (h : g.Closed) (addition : Addition) : (g.add addition).Closed := by
  cases addition with
  | node name => exact h.addNode name
  | edge source target => exact h.addEdge source target

/-- However a graph is put together, dependencies are added together with their resources. -/
theorem closed_ofAdditions (additions : List Addition) : (ofAdditions additions).Closed :=
  List.foldlRecOn additions _ closed_empty fun _ hg addition _ ↦ hg.add addition

theorem closed_ofResources (rs : List Resource) : (ofResources rs).Closed := by
  have hnodes : Closed (rs.foldl (fun g r ↦ addNode g r.name) .empty) :=
    List.foldlRecOn rs _ closed_empty fun g hg r _ ↦ hg.addNode r.name
  refine List.foldlRecOn rs _ hnodes fun g hg r _ ↦ ?_
  exact List.foldlRecOn _ _ hg fun g hg rel _ ↦ hg.addEdge r.name rel.resource

/-! ## Orders have no cycles -/

/-- In an ordered list a dependency stands before what depends on it. -/
theorem Ordered.idxOf_lt (h : g.Ordered out) (hnodup : out.Nodup) (hname : name ∈ out)
    (hdep : g.Edge name dep) : out.idxOf dep < out.idxOf name := by
  obtain ⟨before, after, rfl⟩ := List.append_of_mem hname
  have hmem : dep ∈ before := h before name after rfl dep hdep
  have hnot : name ∉ before := fun hm ↦
    (List.nodup_append.mp hnodup).2.2 name hm name List.mem_cons_self rfl
  rw [List.idxOf_append_of_mem hmem, List.idxOf_append_of_notMem hnot, List.idxOf_cons_self]
  exact List.idxOf_lt_length_of_mem hmem

/-- So does whatever it depends on through others. -/
theorem Ordered.idxOf_lt_of_transGen (h : g.Ordered out) (hnodup : out.Nodup) (hname : name ∈ out)
    (hpath : Relation.TransGen g.Edge name dep) : out.idxOf dep < out.idxOf name := by
  induction hpath with
  | single hedge => exact h.idxOf_lt hnodup hname hedge
  | tail _ hedge ih =>
      have hmid := List.idxOf_lt_length_iff.mp (ih.trans (List.idxOf_lt_length_of_mem hname))
      exact (h.idxOf_lt hnodup hmid hedge).trans ih

/-- No resource of an ordered list is on a cycle. -/
theorem Ordered.not_cycle (h : g.Ordered out) (hnodup : out.Nodup) (hname : name ∈ out) :
    ¬ Relation.TransGen g.Edge name name := fun hcycle ↦
  lt_irrefl _ (h.idxOf_lt_of_transGen hnodup hname hcycle)

theorem contains_of_transGen (h : Relation.TransGen g.Edge name dep) :
    g.dependencies.contains name = true := by
  obtain ⟨next, hedge, -⟩ := Relation.TransGen.head'_iff.mp h
  exact contains_of_edge hedge

theorem Arranges.acyclic (h : g.Arranges out) : g.Acyclic := by
  intro name hcycle
  have hname := (h.complete name).mpr (contains_of_transGen hcycle)
  exact h.ordered.not_cycle h.nodup hname hcycle

theorem acyclic_of_order (h : g.order = .ok out) : g.Acyclic :=
  (arranges_of_order h).acyclic

/-! ## What is left over -/

theorem length_emit (g : DependencyGraph) (p : Progress) (name : String) :
    (g.emit p name).out.length = p.out.length + 1 := by
  rw [out_emit, List.length_append, List.length_singleton]

/-- The ordering stops when no resource is ready, or after the given number of resources. -/
theorem advance_stops (g : DependencyGraph) (n : Nat) (p : Progress) :
    (g.advance n p).ready.keys = [] ∨ (g.advance n p).out.length = p.out.length + n := by
  induction n generalizing p with
  | zero => exact .inr rfl
  | succ n ih =>
      unfold advance
      split
      · next hkeys => exact .inl hkeys
      · next name rest hkeys =>
        refine (ih (g.emit p name)).imp_right fun hlength ↦ ?_
        rw [hlength, length_emit, Nat.add_assoc, Nat.add_comm 1]

/-- No resource is ready when the ordering stops: there are no more resources to be put out than
there are steps. -/
theorem not_ready_finish (g : DependencyGraph) (name : String) : ¬ g.Ready g.finish.out name := by
  intro hready
  have hsound := g.sound_finish
  rcases g.advance_stops g.dependencies.size g.start with hkeys | hlength
  · have hmem := SortedMap.contains_iff.mp (hsound.ready_iff.mpr hready)
    rw [finish, hkeys] at hmem
    cases hmem
  · have hnodup : (name :: g.finish.out).Nodup :=
      List.nodup_cons.mpr ⟨hready.new, hsound.out_nodup⟩
    have hsubset : name :: g.finish.out ⊆ g.dependencies.keys := by
      intro other hother
      rw [← SortedMap.contains_iff]
      rcases List.mem_cons.mp hother with rfl | hother
      · exact hready.contains
      · exact hsound.out_contains other hother
    have hle := (hnodup.subperm hsubset).length_le
    rw [List.length_cons, finish, hlength, start, List.length_nil, SortedMap.keys, List.length_map,
      SortedMap.size] at hle
    omega

/-- Every resource that is left over waits for one that is left over. -/
theorem exists_pending_finish (hclosed : g.Closed)
    (hname : name ∈ g.finish.remaining.keys) :
    ∃ dep ∈ g.finish.remaining.keys, g.Edge name dep := by
  have hsound := g.sound_finish
  obtain ⟨hcontains, hnew⟩ := hsound.mem_remaining_iff.mp hname
  by_contra! hnone
  refine g.not_ready_finish name ⟨hcontains, hnew, fun dep hdep ↦ ?_⟩
  by_contra hout
  exact hnone dep (hsound.mem_remaining_iff.mpr ⟨hclosed name dep hdep, hout⟩) hdep

/-- There is an order exactly if there is no cycle. -/
theorem exists_order_iff (hclosed : g.Closed) : (∃ out, g.order = .ok out) ↔ g.Acyclic := by
  constructor
  · rintro ⟨out, hout⟩
    exact acyclic_of_order hout
  · intro hacyclic
    refine ⟨g.finish.out, order_eq_ok_iff.mpr ⟨?_, rfl⟩⟩
    by_contra hne
    have hkeys : g.finish.remaining.keys ≠ [] := by
      intro hnil
      refine hne (List.isEmpty_iff.mpr ?_)
      exact List.map_eq_nil_iff.mp hnil
    obtain ⟨name, -, hcycle⟩ := exists_transGen_self hkeys fun name hname ↦
      exists_pending_finish hclosed hname
    exact hacyclic name hcycle

end DependencyGraph

end ResourceSchema
