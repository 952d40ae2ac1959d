import ResourceSchema.Proofs.Dependency.Blame

/-!
# The order that is found is the least one

While resources are put out, it is always the turn of the first one by name that is ready.  A list
that is made in this way is `Greedy`.  In any other arrangement of the same resources there is a
first place where it differs, and there it has a ready resource too, so one that comes later by
name.  Hence a graph has at most one greedy arrangement, and that one comes first among all
arrangements.

A resource without dependencies that nothing depends on never keeps another one from its turn.
-/

namespace ResourceSchema.DependencyGraph

open Text (Before)

variable {g : DependencyGraph} {p : Progress} {name other added : String}
variable {before after out out' : List String}

/-! ## Turns -/

/-- It is the turn of the resource: it is ready, and none that is ready comes before it by name. -/
structure Next (g : DependencyGraph) (out : List String) (name : String) : Prop where
  ready : g.Ready out name
  first : ∀ other, g.Ready out other → ¬ Before other name

/-- Every resource of the list is there because it was its turn. -/
def Greedy (g : DependencyGraph) (out : List String) : Prop :=
  ∀ before name after, out = before ++ name :: after → g.Next before name

theorem Sound.next_of_keys {rest : List String} (h : Sound g p)
    (hkeys : p.ready.keys = name :: rest) : g.Next p.out name where
  ready := h.ready_of_keys hkeys
  first := fun _ hready ↦ NameSet.not_before_first hkeys (h.ready_iff.mpr hready)

theorem greedy_finish (g : DependencyGraph) : g.Greedy g.finish.out := by
  have hstart : g.Greedy g.start.out := by
    intro before name after heq
    cases before <;> cases heq
  refine (advance_induction (P := fun p ↦ Sound g p ∧ g.Greedy p.out) ?_ _
    ⟨g.sound_start, hstart⟩).2
  rintro p name rest ⟨hsound, hgreedy⟩ hkeys
  refine ⟨hsound.emit (hsound.ready_of_keys hkeys), ?_⟩
  rw [out_emit]
  exact forall_split_concat hgreedy (hsound.next_of_keys hkeys)

/-! ## The least arrangement -/

/-- In an arrangement every resource is ready when its turn comes. -/
theorem Arranges.ready (h : g.Arranges (before ++ name :: after)) : g.Ready before name where
  contains := (h.complete name).mp (List.mem_append_right _ List.mem_cons_self)
  new := fun hname ↦ (List.nodup_append.mp h.nodup).2.2 name hname name List.mem_cons_self rfl
  dependencies := h.ordered before name after rfl

/-- Behind a common part, a greedy list comes before every arrangement. -/
theorem Greedy.least_behind (greedy : g.Greedy (before ++ out))
    (arranges : g.Arranges (before ++ out')) (perm : out.Perm out') :
    out = out' ∨ List.Lex Before out out' := by
  induction out generalizing before out' with
  | nil => exact .inl (List.nil_perm.mp perm).symm
  | cons name rest ih =>
      cases out' with
      | nil => cases List.perm_nil.mp perm
      | cons name' rest' =>
          have hfirst := (greedy before name rest rfl).first name' arranges.ready
          rcases Before.total name name' with hbefore | rfl | hbefore
          · exact .inr (.rel hbefore)
          · -- the names are the same, so the lists first differ behind them
            rw [List.append_cons] at greedy arranges
            rcases ih greedy arranges perm.cons_inv with rfl | hlex
            · exact .inl rfl
            · exact .inr (.cons hlex)
          · exact absurd hbefore hfirst

theorem Arranges.perm (h : g.Arranges out) (h' : g.Arranges out') : out.Perm out' := by
  refine (List.perm_ext_iff_of_nodup h.nodup h'.nodup).mpr fun name ↦ ?_
  rw [h.complete, h'.complete]

/-- A greedy arrangement comes before every other one. -/
theorem Greedy.least (greedy : g.Greedy out) (h : g.Arranges out) (h' : g.Arranges out') :
    out = out' ∨ List.Lex Before out out' := by
  have greedy₀ : g.Greedy ([] ++ out) := greedy
  exact greedy₀.least_behind h' (h.perm h')

theorem Greedy.unique (greedy : g.Greedy out) (h : g.Arranges out) (greedy' : g.Greedy out')
    (h' : g.Arranges out') : out = out' := by
  rcases greedy.least h h' with heq | hlex
  · exact heq
  · rcases greedy'.least h' h with heq | hlex'
    · exact heq.symm
    · exact absurd hlex' (List.lex_asymm (fun h h' ↦ Before.irrefl _ (h.trans h')) hlex)

/-- The order that is found is the greedy arrangement. -/
theorem order_eq_ok_iff_greedy (hclosed : g.Closed) :
    g.order = .ok out ↔ g.Greedy out ∧ g.Arranges out := by
  constructor
  · intro h
    obtain ⟨-, rfl⟩ := order_eq_ok_iff.mp h
    exact ⟨g.greedy_finish, arranges_of_order h⟩
  · rintro ⟨greedy, arranges⟩
    obtain ⟨found, hfound⟩ := (exists_order_iff hclosed).mpr arranges.acyclic
    obtain ⟨-, rfl⟩ := order_eq_ok_iff.mp hfound
    rwa [g.greedy_finish.unique (arranges_of_order hfound) greedy arranges] at hfound

/-! ## A resource without dependencies -/

theorem Greedy.ordered (greedy : g.Greedy out) : g.Ordered out :=
  fun before name after heq ↦ (greedy before name after heq).ready.dependencies

section AddNode

variable (hclosed : g.Closed) (hnew : g.dependencies.contains added = false)
include hnew

theorem ne_of_contains (hname : g.dependencies.contains name = true) : name ≠ added := by
  rintro rfl
  exact Bool.false_ne_true (hnew.symm.trans hname)

include hclosed

/-- Nothing has to wait for a resource that nothing depends on. -/
theorem ready_addNode_iff (hname : name ≠ added) :
    (g.addNode added).Ready out name ↔ g.Ready (out.filter (· != added)) name := by
  have hmem (other : String) : other ∈ out.filter (· != added) ↔ other ∈ out ∧ other ≠ added := by
    rw [List.mem_filter, bne_iff_ne]
  constructor
  · rintro ⟨hcontains, hnot, hdeps⟩
    rw [dependenciesOf_addNode] at hdeps
    refine ⟨(contains_addNode.mp hcontains).resolve_left hname, ?_, fun dep hdep ↦ ?_⟩
    · exact fun hfiltered ↦ hnot ((hmem name).mp hfiltered).1
    · exact (hmem dep).mpr ⟨hdeps dep hdep, ne_of_contains hnew (hclosed name dep hdep)⟩
  · rintro ⟨hcontains, hnot, hdeps⟩
    rw [← dependenciesOf_addNode g added] at hdeps
    refine ⟨contains_addNode.mpr (.inr hcontains), ?_, fun dep hdep ↦ ?_⟩
    · exact fun hout ↦ hnot ((hmem name).mpr ⟨hout, hname⟩)
    · exact ((hmem dep).mp (hdeps dep hdep)).1

theorem Greedy.of_addNode (greedy : (g.addNode added).Greedy out) :
    g.Greedy (out.filter (· != added)) := by
  intro before name after heq
  obtain ⟨first, tail, rfl, hfirst, htail⟩ := List.filter_eq_append_iff.mp heq
  obtain ⟨skipped, last, rfl, hskipped, hname, -⟩ := List.filter_eq_cons_iff.mp htail
  -- whether or not the added resource is out by now, the others that are out are `before`
  have hbefore : (first ++ skipped).filter (· != added) = before := by
    rw [List.filter_append, hfirst, List.filter_eq_nil_iff.mpr hskipped, List.append_nil]
  obtain ⟨hready, hleast⟩ := greedy (first ++ skipped) name last (List.append_assoc ..).symm
  have hready' := (ready_addNode_iff hclosed hnew (bne_iff_ne.mp hname)).mp hready
  rw [hbefore] at hready'
  refine ⟨hready', fun other hother ↦ hleast other ?_⟩
  rw [ready_addNode_iff hclosed hnew (ne_of_contains hnew hother.contains), hbefore]
  exact hother

/-- The others come in the order that they have without the resource. -/
theorem order_of_addNode (h : (g.addNode added).order = .ok out) :
    g.order = .ok (out.erase added) := by
  obtain ⟨greedy, arranges⟩ := (order_eq_ok_iff_greedy (hclosed.addNode added)).mp h
  have greedy' := greedy.of_addNode hclosed hnew
  rw [arranges.nodup.erase_eq_filter, order_eq_ok_iff_greedy hclosed]
  refine ⟨greedy', arranges.nodup.filter _, fun name ↦ ?_, greedy'.ordered⟩
  rw [List.mem_filter, bne_iff_ne, arranges.complete, contains_addNode]
  constructor
  · rintro ⟨hname | hname, hne⟩
    · exact absurd hname hne
    · exact hname
  · exact fun hname ↦ ⟨.inr hname, ne_of_contains hnew hname⟩

end AddNode

/-! ## Orders and cycles -/

/-- What is named when there is no order. -/
structure Names (g : DependencyGraph) (names : List String) : Prop where
  ascending : names.Pairwise Before
  onCycle : ∀ name, Relation.TransGen g.Edge name name → name ∈ names
  waits : ∀ name ∈ names, ∃ dep ∈ names, g.Edge name dep

/-- **There is an order exactly if there is no cycle, and it is the least arrangement of the
resources.**  Otherwise the resources on cycles are named, with others that wait for them. -/
theorem order_canonical (additions : List Addition) :
    ((∃ out, (ofAdditions additions).order = .ok out) ↔ (ofAdditions additions).Acyclic) ∧
    (∀ out, (ofAdditions additions).order = .ok out → (ofAdditions additions).Arranges out ∧
      ∀ out', (ofAdditions additions).Arranges out' → out = out' ∨ List.Lex Before out out') ∧
    ∀ e, (ofAdditions additions).order = .error e →
      ∃ names, e = .cyclic names ∧ (ofAdditions additions).Names names := by
  have hclosed := closed_ofAdditions additions
  refine ⟨exists_order_iff hclosed, fun out h ↦ ?_, fun e h ↦ ?_⟩
  · obtain ⟨greedy, arranges⟩ := (order_eq_ok_iff_greedy hclosed).mp h
    exact ⟨arranges, fun _ ↦ greedy.least arranges⟩
  · obtain ⟨-, rfl⟩ := order_eq_error_iff.mp h
    exact ⟨_, rfl, SortedMap.keys_ascending _, fun _ ↦ leftover_of_cycle, fun _ ↦
      exists_pending_finish hclosed⟩

/-- Names decide only between resources that are ready: the ant has to wait for the zebra. -/
example : (ofAdditions [.edge "ant" "zebra", .node "bee", .edge "ant" "zebra"]).order =
    .ok ["bee", "zebra", "ant"] := by
  decide +kernel

end ResourceSchema.DependencyGraph
