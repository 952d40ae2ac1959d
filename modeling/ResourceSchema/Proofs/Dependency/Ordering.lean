import Mathlib.Data.List.Nodup
import ResourceSchema.Proofs.SortedMap
import ResourceSchema.Relationship.Dependency

/-!
# The order of a dependency graph

While resources are put out, everything the progress holds is determined by what is out: a
resource remains until it is out, its count is the number of its dependencies that are not, and
it is ready when there is none.  This is `Sound`; it holds at the start, every resource that is
put out keeps it, and so an order that is found has every resource once, after its dependencies.
-/

namespace ResourceSchema.DependencyGraph

variable {g : DependencyGraph} {p : Progress} {name dep : String} {out : List String}

/-! ## Edges -/

theorem mem_dependenciesOf_iff :
    dep ∈ g.dependenciesOf name ↔
      ∃ targets, g.dependencies.get? name = some targets ∧ targets.contains dep = true := by
  rw [dependenciesOf, ← SortedMap.contains_iff]
  cases g.dependencies.get? name with
  | none => simp [SortedMap.contains]
  | some targets => simp

theorem dependenciesOf_nodup (g : DependencyGraph) (name : String) :
    (g.dependenciesOf name).Nodup :=
  SortedMap.keys_nodup _

theorem dependentsOf_nodup (g : DependencyGraph) (dep : String) : (g.dependentsOf dep).Nodup :=
  SortedMap.keys_nodup _

theorem mem_dependentsOf_iff : name ∈ g.dependentsOf dep ↔ dep ∈ g.dependenciesOf name := by
  rw [dependentsOf, SortedMap.mem_keys_iff, mem_dependenciesOf_iff]
  simp only [SortedMap.get?_filter_eq_some_iff]

/-! ## Orders -/

/-- Every resource of the list comes after all its dependencies. -/
def Ordered (g : DependencyGraph) (out : List String) : Prop :=
  ∀ before name after, out = before ++ name :: after → ∀ dep ∈ g.dependenciesOf name, dep ∈ before

/-- The resource is not out, although all its dependencies are. -/
structure Ready (g : DependencyGraph) (out : List String) (name : String) : Prop where
  contains : g.dependencies.contains name = true
  new : name ∉ out
  dependencies : ∀ dep ∈ g.dependenciesOf name, dep ∈ out

theorem Ordered.concat (h : g.Ordered out) (hdeps : ∀ dep ∈ g.dependenciesOf name, dep ∈ out) :
    g.Ordered (out ++ [name]) :=
  forall_split_concat h hdeps

/-! ## Counts -/

/-- The dependencies of a resource that are not out. -/
def pending (g : DependencyGraph) (out : List String) (name : String) : List String :=
  (g.dependenciesOf name).filter (· ∉ out)

@[simp] theorem pending_nil : g.pending [] name = g.dependenciesOf name := by
  simp [pending]

theorem mem_pending_iff : dep ∈ g.pending out name ↔ dep ∈ g.dependenciesOf name ∧ dep ∉ out := by
  simp [pending]

theorem pending_eq_nil_iff :
    g.pending out name = [] ↔ ∀ dep ∈ g.dependenciesOf name, dep ∈ out := by
  simp [pending]

theorem pending_nodup (g : DependencyGraph) (out : List String) (name : String) :
    (g.pending out name).Nodup :=
  (g.dependenciesOf_nodup name).filter _

/-- One more resource that is out is one pending dependency less, for those that depend on it. -/
theorem pending_concat (g : DependencyGraph) (out : List String) (last name : String) :
    g.pending (out ++ [last]) name = (g.pending out name).erase last := by
  rw [(g.pending_nodup out name).erase_eq_filter, pending, pending, List.filter_filter]
  apply List.filter_congr
  intro dep _
  by_cases e : dep = last
  · simp [e]
  · simp [e]

theorem length_pending_concat {last : String} (hlast : last ∉ out) :
    (g.pending (out ++ [last]) name).length =
      if last ∈ g.dependenciesOf name then (g.pending out name).length - 1
      else (g.pending out name).length := by
  rw [pending_concat]
  split
  · next h => exact List.length_erase_of_mem (mem_pending_iff.mpr ⟨h, hlast⟩)
  · next h => rw [List.erase_of_not_mem fun hm ↦ h (mem_pending_iff.mp hm).1]

/-! ## Releasing dependents -/

namespace Progress

/-- The ready resources are those without pending dependencies. -/
def ReadyAtZero (p : Progress) : Prop :=
  ∀ name, p.ready.contains name = true ↔ p.remaining.get? name = some 0

theorem out_release (p : Progress) (name : String) : (p.release name).out = p.out := by
  unfold release
  split <;> rfl

theorem get?_release (p : Progress) (name other : String) :
    (p.release name).remaining.get? other =
      (p.remaining.get? other).map fun count ↦ if other = name then count - 1 else count := by
  unfold release
  split
  · next h =>
    by_cases e : other = name
    · rw [e, h]
      rfl
    · simp [e]
  · next count h =>
    rw [SortedMap.get?_insert]
    by_cases e : other = name
    · rw [if_pos e, e, h]
      simp
    · simp [e]

theorem ReadyAtZero.release (h : p.ReadyAtZero) (name : String) :
    (p.release name).ReadyAtZero := by
  intro other
  rw [get?_release]
  unfold Progress.release
  split
  · next hnone =>
    rw [h other]
    by_cases e : other = name
    · simp [e, hnone]
    · simp [e]
  · next count hsome =>
    by_cases e : other = name
    · subst e
      simp only [hsome, Option.map_some, if_pos, Option.some.injEq]
      split
      · next hz => simp [hz, NameSet.contains_add]
      · next hz =>
        rw [h other, hsome]
        constructor
        · intro hc
          obtain rfl : count = 0 := Option.some.inj hc
          exact absurd rfl hz
        · intro hc
          exact absurd hc hz
    · have hadd : (p.ready.add name).contains other = true ↔ p.ready.contains other = true := by
        rw [NameSet.contains_add]
        exact or_iff_right e
      have hready : (if count - 1 = 0 then p.ready.add name else p.ready).contains other = true ↔
          p.ready.contains other = true := by
        split
        · exact hadd
        · exact Iff.rfl
      rw [hready, h other]
      simp [e]

theorem out_foldl_release (names : List String) (p : Progress) :
    (names.foldl release p).out = p.out := by
  induction names generalizing p with
  | nil => rfl
  | cons name rest ih => rw [List.foldl_cons, ih, out_release]

/-- Releasing different resources lowers the count of each of them once. -/
theorem get?_foldl_release {names : List String} (hnames : names.Nodup) (p : Progress)
    (other : String) :
    (names.foldl release p).remaining.get? other =
      (p.remaining.get? other).map fun count ↦ if other ∈ names then count - 1 else count := by
  induction names generalizing p with
  | nil => simp
  | cons name rest ih =>
      obtain ⟨hname, hrest⟩ := List.nodup_cons.mp hnames
      rw [List.foldl_cons, ih hrest, get?_release, Option.map_map]
      congr 1
      funext count
      by_cases e : other = name
      · simp [e, hname]
      · simp [e]

theorem ReadyAtZero.foldl_release (h : p.ReadyAtZero) (names : List String) :
    (names.foldl Progress.release p).ReadyAtZero := by
  induction names generalizing p with
  | nil => exact h
  | cons name rest ih => exact ih (h.release name)

end Progress

/-! ## The invariant -/

/-- What holds of the progress, however far the ordering is. -/
structure Sound (g : DependencyGraph) (p : Progress) : Prop where
  out_nodup : p.out.Nodup
  out_contains : ∀ name ∈ p.out, g.dependencies.contains name = true
  ordered : g.Ordered p.out
  /-- A resource that is not out remains, with the number of its pending dependencies. -/
  remaining : ∀ name, p.remaining.get? name =
    if g.dependencies.contains name = true ∧ name ∉ p.out then some (g.pending p.out name).length
    else none
  ready : p.ReadyAtZero

theorem sound_start (g : DependencyGraph) : Sound g g.start where
  out_nodup := .nil
  out_contains := by
    intro name hname
    cases hname
  ordered := by
    intro before name after heq
    cases before <;> cases heq
  remaining := by
    intro name
    rw [start, SortedMap.get?_map, SortedMap.contains]
    cases h : g.dependencies.get? name with
    | none => simp
    | some targets => simp [dependenciesOf, h, SortedMap.size, SortedMap.keys]
  ready := by
    intro name
    rw [SortedMap.contains, start, SortedMap.get?_map, Option.isSome_map, SortedMap.get?_filter]
    cases SortedMap.get? (g.dependencies.map fun _ targets ↦ targets.size) name with
    | none => simp
    | some count => simp [Option.isSome_filter]

theorem Sound.mem_remaining_iff (h : Sound g p) :
    name ∈ p.remaining.keys ↔ g.dependencies.contains name = true ∧ name ∉ p.out := by
  rw [SortedMap.mem_keys_iff, h.remaining]
  split
  · next hremains => simp [hremains]
  · next hremains => simp [hremains]

/-- The ready resources of the progress are those that could be put out. -/
theorem Sound.ready_iff (h : Sound g p) : p.ready.contains name = true ↔ g.Ready p.out name := by
  rw [h.ready name, h.remaining name]
  split
  · next hremains =>
    rw [Option.some.injEq, List.length_eq_zero_iff, pending_eq_nil_iff]
    exact ⟨fun hdeps ↦ ⟨hremains.1, hremains.2, hdeps⟩, Ready.dependencies⟩
  · next hremains =>
    refine iff_of_false (fun hnone ↦ nomatch hnone) fun hready ↦ ?_
    exact hremains ⟨hready.contains, hready.new⟩

/-- The counts after `name` is put out are those of the dependencies that are still pending. -/
theorem Sound.remaining_emit (h : Sound g p) (hname : name ∉ p.out) (other : String) :
    (g.emit p name).remaining.get? other =
      if g.dependencies.contains other = true ∧ other ∉ p.out ++ [name] then
        some (g.pending (p.out ++ [name]) other).length
      else none := by
  rw [DependencyGraph.emit, Progress.get?_foldl_release (g.dependentsOf_nodup name),
    SortedMap.get?_erase, h.remaining other, length_pending_concat hname]
  by_cases e : other = name
  · simp [e]
  · by_cases hc : g.dependencies.contains other = true ∧ other ∉ p.out
    · simp [e, hc, mem_dependentsOf_iff]
    · have hc' : ¬ (g.dependencies.contains other = true ∧ other ∉ p.out ++ [name]) := by
        rintro ⟨hcontains, hnot⟩
        exact hc ⟨hcontains, fun hm ↦ hnot (List.mem_append_left _ hm)⟩
      rw [if_neg e, if_neg hc, if_neg hc']
      rfl

theorem out_emit (g : DependencyGraph) (p : Progress) (name : String) :
    (g.emit p name).out = p.out ++ [name] :=
  Progress.out_foldl_release _ _

/-- Every resource that is put out keeps the invariant. -/
theorem Sound.emit (h : Sound g p) (hready : g.Ready p.out name) : Sound g (g.emit p name) := by
  refine ⟨?_, ?_, ?_, ?_, ?_⟩
  · rw [out_emit, ← List.concat_eq_append]
    exact h.out_nodup.concat hready.new
  · intro other hother
    rw [out_emit] at hother
    rcases List.mem_append.mp hother with hother | hother
    · exact h.out_contains other hother
    · rw [List.mem_singleton.mp hother]
      exact hready.contains
  · rw [out_emit]
    exact h.ordered.concat hready.dependencies
  · rw [out_emit]
    exact h.remaining_emit hready.new
  · apply Progress.ReadyAtZero.foldl_release
    intro other
    rw [SortedMap.contains, SortedMap.get?_erase, SortedMap.get?_erase]
    split
    · simp
    · exact h.ready other

/-- What holds at first, and still does when the first ready resource is put out, holds as long as
the ordering goes on. -/
theorem advance_induction {P : Progress → Prop}
    (hstep : ∀ p name rest, P p → p.ready.keys = name :: rest → P (g.emit p name)) (n : Nat)
    (h : P p) : P (g.advance n p) := by
  induction n generalizing p with
  | zero => exact h
  | succ n ih =>
      unfold DependencyGraph.advance
      split
      · exact h
      · next name rest hkeys => exact ih (hstep p name rest h hkeys)

theorem Sound.ready_of_keys {rest : List String} (h : Sound g p)
    (hkeys : p.ready.keys = name :: rest) : g.Ready p.out name := by
  rw [← h.ready_iff, SortedMap.contains_iff, hkeys]
  exact List.mem_cons_self

theorem Sound.advance (h : Sound g p) (n : Nat) : Sound g (g.advance n p) :=
  advance_induction (fun _ _ _ hp hkeys ↦ hp.emit (hp.ready_of_keys hkeys)) n h

theorem sound_finish (g : DependencyGraph) : Sound g g.finish :=
  g.sound_start.advance _

/-! ## Orders that are found -/

theorem order_eq_ok_iff :
    g.order = .ok out ↔ g.finish.remaining.isEmpty = true ∧ g.finish.out = out := by
  unfold order
  split
  · next h => simp [h]
  · next h => simp [h]

/-- Where there is no order, the resources that are left over are named. -/
theorem order_eq_error_iff {e : SchemaError} :
    g.order = .error e ↔ g.finish.remaining.isEmpty = false ∧
      e = .cyclic g.finish.remaining.keys := by
  unfold order
  split
  · next h => simp [h]
  · next h => simp [h, eq_comm]

/-- The list has every resource of the graph once, after all its dependencies. -/
structure Arranges (g : DependencyGraph) (out : List String) : Prop where
  nodup : out.Nodup
  complete : ∀ name, name ∈ out ↔ g.dependencies.contains name = true
  ordered : g.Ordered out

/-- An order that is found arranges the graph. -/
theorem arranges_of_order (h : g.order = .ok out) : g.Arranges out := by
  obtain ⟨hempty, rfl⟩ := order_eq_ok_iff.mp h
  have hsound := g.sound_finish
  refine ⟨hsound.out_nodup, fun name ↦ ⟨hsound.out_contains name, fun hcontains ↦ ?_⟩,
    hsound.ordered⟩
  by_contra hnot
  have hnone := SortedMap.isEmpty_iff.mp hempty name
  rw [hsound.remaining name, if_pos ⟨hcontains, hnot⟩] at hnone
  cases hnone

end ResourceSchema.DependencyGraph
