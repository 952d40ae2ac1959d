import ResourceSchema.Proofs.Dependency.Cycle

/-!
# Which resources are named when there is no order

When there is no order, the resources that are left over are named.  One that is on a cycle is left
over, and so is each that depends on one that is left over.  Conversely the dependencies of what is
left over lead to a cycle, since there is always one more that is left over.  So a resource is named
if it leads to a cycle, even if it is not on one itself.
-/

namespace ResourceSchema

/-- Where every item of a list leads to an item of the list, each leads to one that the way comes
back to. -/
theorem exists_reflTransGen_transGen_self {α : Type} {R : α → α → Prop} {items : List α} {a : α}
    (ha : a ∈ items) (hnext : ∀ b ∈ items, ∃ c ∈ items, R b c) :
    ∃ b ∈ items, Relation.ReflTransGen R a b ∧ Relation.TransGen R b b := by
  classical
  -- the items that `a` leads to lead to each other
  let reached := items.filter fun b ↦ Relation.ReflTransGen R a b
  have hreached (b : α) : b ∈ reached ↔ b ∈ items ∧ Relation.ReflTransGen R a b := by
    rw [List.mem_filter, decide_eq_true_iff]
  have hne : reached ≠ [] := List.ne_nil_of_mem ((hreached a).mpr ⟨ha, .refl⟩)
  obtain ⟨b, hb, hcycle⟩ := exists_transGen_self hne fun b hb ↦ by
    obtain ⟨hmem, hab⟩ := (hreached b).mp hb
    obtain ⟨c, hc, hbc⟩ := hnext b hmem
    exact ⟨c, (hreached c).mpr ⟨hc, hab.tail hbc⟩, hbc⟩
  obtain ⟨hmem, hab⟩ := (hreached b).mp hb
  exact ⟨b, hmem, hab, hcycle⟩

namespace DependencyGraph

variable {g : DependencyGraph} {name dep : String} {out : List String} {e : SchemaError}

/-- The resource is on a cycle, or depends on one that is, directly or through others. -/
def LeadsToCycle (g : DependencyGraph) (name : String) : Prop :=
  ∃ dep, Relation.ReflTransGen g.Edge name dep ∧ Relation.TransGen g.Edge dep dep

/-! ## What is left over -/

theorem Ordered.mem_of_edge (h : g.Ordered out) (hname : name ∈ out) (hedge : g.Edge name dep) :
    dep ∈ out := by
  obtain ⟨before, after, rfl⟩ := List.append_of_mem hname
  exact List.mem_append_left _ (h before name after rfl dep hedge)

/-- What depends on a resource that is left over is left over. -/
theorem leftover_of_edge (hedge : g.Edge name dep) (hdep : dep ∈ g.finish.remaining.keys) :
    name ∈ g.finish.remaining.keys := by
  have hsound := g.sound_finish
  obtain ⟨-, hnew⟩ := hsound.mem_remaining_iff.mp hdep
  refine hsound.mem_remaining_iff.mpr ⟨contains_of_edge hedge, fun hname ↦ ?_⟩
  exact hnew (hsound.ordered.mem_of_edge hname hedge)

theorem leftover_of_cycle (hcycle : Relation.TransGen g.Edge name name) :
    name ∈ g.finish.remaining.keys := by
  have hsound := g.sound_finish
  refine hsound.mem_remaining_iff.mpr ⟨contains_of_transGen hcycle, fun hname ↦ ?_⟩
  exact hsound.ordered.not_cycle hsound.out_nodup hname hcycle

theorem mem_leftover_iff (hclosed : g.Closed) :
    name ∈ g.finish.remaining.keys ↔ g.LeadsToCycle name := by
  constructor
  · intro hname
    obtain ⟨dep, -, hpath, hcycle⟩ := exists_reflTransGen_transGen_self hname fun other hother ↦
      exists_pending_finish hclosed hother
    exact ⟨dep, hpath, hcycle⟩
  · rintro ⟨dep, hpath, hcycle⟩
    induction hpath using Relation.ReflTransGen.head_induction_on with
    | refl => exact leftover_of_cycle hcycle
    | head hedge _ ih => exact leftover_of_edge hedge ih

/-! ## What is named -/

/-- **A resource is named exactly if it leads to a cycle.** -/
theorem named_iff_leadsToCycle (additions : List Addition)
    (failed : (ofAdditions additions).order = .error e) :
    ∃ names, e = .cyclic names ∧
      ∀ name, name ∈ names ↔ (ofAdditions additions).LeadsToCycle name := by
  obtain ⟨-, rfl⟩ := order_eq_error_iff.mp failed
  exact ⟨_, rfl, fun name ↦ mem_leftover_iff (closed_ofAdditions additions)⟩

/-- A ship and its captain need each other, and a sailor needs the ship. -/
def crew : List Addition :=
  [.edge "captain" "ship", .edge "ship" "captain", .edge "sailor" "ship"]

theorem named_iff_leadsToCycle_crew :
    ∃ e, (ofAdditions crew).order = .error e ∧ ∃ names, e = .cyclic names ∧
      ∀ name, name ∈ names ↔ (ofAdditions crew).LeadsToCycle name := by
  have failed : (ofAdditions crew).order = .error (.cyclic ["captain", "sailor", "ship"]) := by
    decide +kernel
  exact ⟨_, failed, named_iff_leadsToCycle crew failed⟩

/-- The sailor is named together with the ship and its captain, although nothing needs a sailor. -/
theorem named_without_cycle_crew :
    ∃ names, (ofAdditions crew).order = .error (.cyclic names) ∧ "sailor" ∈ names ∧
      ¬ Relation.TransGen (ofAdditions crew).Edge "sailor" "sailor" := by
  have failed : (ofAdditions crew).order = .error (.cyclic ["captain", "sailor", "ship"]) := by
    decide +kernel
  refine ⟨_, failed, by decide, fun hcycle ↦ ?_⟩
  obtain ⟨name, -, hedge⟩ := Relation.TransGen.tail'_iff.mp hcycle
  have hnone : (ofAdditions crew).dependentsOf "sailor" = [] := by decide +kernel
  have hname : name ∈ (ofAdditions crew).dependentsOf "sailor" := mem_dependentsOf_iff.mpr hedge
  rw [hnone] at hname
  cases hname

end DependencyGraph

end ResourceSchema
