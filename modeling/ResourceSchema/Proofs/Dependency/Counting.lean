import ResourceSchema.Proofs.Dependency.Cycle

/-!
# Counts that never go below zero

Putting a resource out takes one off the count of each resource that depends on it.  The counts are
natural numbers, and zero less one is zero, so that a resource released once too often would not
show.  It does not happen: a resource that remains still waits for the one that is put out, hence
its count is positive, and it is released once.  As a resource is put out at every step, there are
no more steps than resources.
-/

namespace ResourceSchema.DependencyGraph

variable {g : DependencyGraph} {p : Progress} {name dependent : String}
variable {before after rest : List String}

/-! ## One step -/

/-- A resource is out, and some of those that depend on it are released. -/
def Progress.releasing (p : Progress) (name : String) (released : List String) : Progress :=
  released.foldl Progress.release ⟨p.remaining.erase name, p.ready.erase name, p.out ++ [name]⟩

/-- Putting a resource out releases one after the other those that depend on it. -/
theorem emit_of_split (hdependents : g.dependentsOf name = before ++ dependent :: after) :
    g.emit p name =
      after.foldl Progress.release ((p.releasing name before).release dependent) := by
  rw [emit, hdependents, List.foldl_append]
  rfl

/-- A resource keeps its count until it is its turn to be released. -/
theorem get?_releasing (hdependents : g.dependentsOf name = before ++ dependent :: after) :
    (p.releasing name before).remaining.get? dependent =
      if dependent = name then none else p.remaining.get? dependent := by
  have hnodup := g.dependentsOf_nodup name
  rw [hdependents, List.nodup_append] at hnodup
  obtain ⟨hbefore, -, hapart⟩ := hnodup
  have hnew : dependent ∉ before := fun hmem ↦
    hapart dependent hmem dependent List.mem_cons_self rfl
  rw [Progress.releasing, Progress.get?_foldl_release hbefore, SortedMap.get?_erase]
  simp [hnew]

/-- What is released has a positive count. -/
theorem Sound.release_pos (h : Sound g p) (hready : g.Ready p.out name)
    (hdependents : g.dependentsOf name = before ++ dependent :: after) {count : Nat}
    (hcount : (p.releasing name before).remaining.get? dependent = some count) : 0 < count := by
  rw [get?_releasing hdependents] at hcount
  split at hcount
  · cases hcount
  · rw [h.remaining dependent] at hcount
    split at hcount
    · obtain rfl := Option.some.inj hcount
      have hmem : dependent ∈ g.dependentsOf name := by
        rw [hdependents]
        exact List.mem_append_right _ List.mem_cons_self
      exact List.length_pos_of_mem
        (mem_pending_iff.mpr ⟨mem_dependentsOf_iff.mp hmem, hready.new⟩)
    · cases hcount

/-! ## All steps -/

/-- What the progress holds between two steps, and what the next step does to the counts. -/
structure Counted (g : DependencyGraph) (p : Progress) : Prop where
  /-- No resource is put out twice. -/
  once : p.out.Nodup
  /-- The resources that are not out remain. -/
  remain : ∀ name, p.remaining.contains name = true ↔
    g.dependencies.contains name = true ∧ name ∉ p.out
  /-- The count of a resource is the number of its dependencies that are not out. -/
  count : ∀ name count, p.remaining.get? name = some count →
    count = (g.pending p.out name).length
  /-- The resources with count zero are ready. -/
  ready : ∀ name, p.ready.contains name = true ↔ p.remaining.get? name = some 0
  /-- The resource that is put out next is not out. -/
  next : ∀ name rest, p.ready.keys = name :: rest → name ∉ p.out
  /-- Whenever it then comes to one that depends on it, the count that is lowered is positive. -/
  release : ∀ name rest, p.ready.keys = name :: rest → ∀ before dependent after,
    g.dependentsOf name = before ++ dependent :: after →
    g.emit p name =
      after.foldl Progress.release ((p.releasing name before).release dependent) ∧
    ∀ count, (p.releasing name before).remaining.get? dependent = some count → 0 < count

theorem Sound.counted (h : Sound g p) : g.Counted p where
  once := h.out_nodup
  remain := fun name ↦ by rw [SortedMap.contains_iff, h.mem_remaining_iff]
  count := by
    intro name count hcount
    rw [h.remaining name] at hcount
    split at hcount
    · exact (Option.some.inj hcount).symm
    · cases hcount
  ready := h.ready
  next := fun _ _ hkeys ↦ (h.ready_of_keys hkeys).new
  release := fun _ _ hkeys _ _ _ hdependents ↦
    ⟨emit_of_split hdependents, fun _ ↦ h.release_pos (h.ready_of_keys hkeys) hdependents⟩

/-- When nothing is ready, the ordering does not go on. -/
theorem advance_of_ready_eq_nil (h : p.ready.keys = []) (n : Nat) : g.advance n p = p := by
  cases n with
  | zero => rfl
  | succ n => rw [advance, h]

theorem advance_add (g : DependencyGraph) (m n : Nat) (p : Progress) :
    g.advance (m + n) p = g.advance n (g.advance m p) := by
  induction m generalizing p with
  | zero => rw [Nat.zero_add, advance]
  | succ m ih =>
      rw [Nat.succ_add, advance, advance]
      split
      · next hkeys => rw [advance_of_ready_eq_nil hkeys]
      · next name rest hkeys => exact ih (g.emit p name)

theorem ready_finish (g : DependencyGraph) : g.finish.ready.keys = [] := by
  refine List.eq_nil_iff_forall_not_mem.mpr fun name hname ↦ ?_
  exact g.not_ready_finish name (g.sound_finish.ready_iff.mp (SortedMap.contains_iff.mpr hname))

/-- **The counts are exact and never go below zero.**  However many steps there were, every count is
the number of dependencies that are not out, the ready resources are those with count zero, no
resource is put out twice, and one is taken off positive counts only.  The ordering has stopped after
as many steps as there are resources. -/
theorem counts_exact (g : DependencyGraph) :
    (∀ n, g.Counted (g.advance n g.start)) ∧
    g.finish.ready.keys = [] ∧ ∀ n, g.advance (g.dependencies.size + n) g.start = g.finish := by
  refine ⟨fun n ↦ (g.sound_start.advance n).counted, g.ready_finish, fun n ↦ ?_⟩
  rw [advance_add]
  exact advance_of_ready_eq_nil g.ready_finish n

end ResourceSchema.DependencyGraph
