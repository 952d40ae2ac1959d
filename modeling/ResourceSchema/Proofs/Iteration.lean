import Mathlib.Data.List.Forall2
import Mathlib.Data.List.Nodup

/-!
# Going through a list

A computation in `Except` that gives a result did every step it consists of.  The lemmas take such
a result apart, so that no later proof has to look into a `do` block.  Folds that gather something
at every step have gathered what some item of the list contributes.  Two runs whose steps agree on
what shows agree on what shows in the end.
-/

namespace ResourceSchema

universe u v w

variable {ε : Type u} {α : Type v} {β : Type v} {γ : Type w}

@[simp] theorem pure_eq_ok_iff {a b : α} : (pure a : Except ε α) = .ok b ↔ a = b := by
  simp [pure, Except.pure]

theorem bind_eq_ok_iff {x : Except ε α} {f : α → Except ε β} {b : β} :
    x >>= f = .ok b ↔ ∃ a, x = .ok a ∧ f a = .ok b := by
  cases x with
  | error e => simp [bind, Except.bind]
  | ok a => simp [bind, Except.bind]

theorem bind_eq_error_iff {x : Except ε α} {f : α → Except ε β} {e : ε} :
    x >>= f = .error e ↔ x = .error e ∨ ∃ a, x = .ok a ∧ f a = .error e := by
  cases x with
  | error e' => simp [bind, Except.bind]
  | ok a => simp [bind, Except.bind]

/-- What comes after cannot fail, so only what came before can. -/
theorem bind_eq_error_iff_left {x : Except ε α} {f : α → Except ε β} {e : ε}
    (hf : ∀ a, ∃ b, f a = .ok b) : x >>= f = .error e ↔ x = .error e := by
  rw [bind_eq_error_iff, or_iff_left]
  rintro ⟨a, -, h⟩
  obtain ⟨b, hb⟩ := hf a
  cases hb.symm.trans h

theorem mapError_eq_ok_iff {ε' : Type u} {x : Except ε α} {f : ε → ε'} {a : α} :
    x.mapError f = .ok a ↔ x = .ok a := by
  cases x with
  | error e => simp [Except.mapError]
  | ok b => simp [Except.mapError]

/-- A computation whose success can be evaluated has a result. -/
theorem exists_eq_ok {x : Except ε α} (h : x.isOk = true) : ∃ a, x = .ok a := by
  cases x with
  | error e => cases h
  | ok a => exact ⟨a, rfl⟩

/-- A list is mapped to the list of the results, one for every item. -/
theorem mapM_eq_ok_iff {f : γ → Except ε α} {l : List γ} {as : List α} :
    l.mapM f = .ok as ↔ List.Forall₂ (fun c a ↦ f c = .ok a) l as := by
  induction l generalizing as with
  | nil => rw [List.mapM_nil, pure_eq_ok_iff, List.forall₂_nil_left_iff, eq_comm]
  | cons c rest ih =>
      rw [List.mapM_cons, bind_eq_ok_iff, List.forall₂_cons_left_iff]
      constructor
      · rintro ⟨a, ha, h⟩
        obtain ⟨others, hothers, h⟩ := bind_eq_ok_iff.mp h
        exact ⟨a, others, ha, ih.mp hothers, (pure_eq_ok_iff.mp h).symm⟩
      · rintro ⟨a, others, ha, hothers, rfl⟩
        exact ⟨a, ha, bind_eq_ok_iff.mpr ⟨others, ih.mpr hothers, rfl⟩⟩

/-- A list is related to some list exactly if every item is related to something. -/
theorem exists_forall₂_iff {R : γ → α → Prop} {l : List γ} :
    (∃ as, List.Forall₂ R l as) ↔ ∀ c ∈ l, ∃ a, R c a := by
  induction l with
  | nil => exact ⟨fun _ _ hc ↦ (nomatch hc), fun _ ↦ ⟨[], .nil⟩⟩
  | cons c rest ih =>
      rw [List.forall_mem_cons, ← ih]
      constructor
      · rintro ⟨as, h⟩
        cases h with
        | cons ha hrest => exact ⟨⟨_, ha⟩, _, hrest⟩
      · rintro ⟨⟨a, ha⟩, as, hrest⟩
        exact ⟨a :: as, .cons ha hrest⟩

/-- A list is mapped exactly if every item is. -/
theorem exists_mapM_eq_ok_iff {f : γ → Except ε α} {l : List γ} :
    (∃ as, l.mapM f = .ok as) ↔ ∀ c ∈ l, ∃ a, f c = .ok a := by
  simp only [mapM_eq_ok_iff]
  exact exists_forall₂_iff

/-- A list is not mapped exactly if an item fails after others that do not; its error is the one
that comes out. -/
theorem mapM_eq_error_iff {f : γ → Except ε α} {l : List γ} {e : ε} :
    l.mapM f = .error e ↔ ∃ before c after, l = before ++ c :: after ∧
      (∀ b ∈ before, ∃ a, f b = .ok a) ∧ f c = .error e := by
  induction l with
  | nil =>
      constructor
      · intro h
        cases h
      · rintro ⟨before, c, after, hsplit, -⟩
        exact absurd hsplit (List.append_ne_nil_of_right_ne_nil _ (List.cons_ne_nil _ _)).symm
  | cons d rest ih =>
      rw [List.mapM_cons, bind_eq_error_iff]
      constructor
      · rintro (hfirst | ⟨a, ha, h⟩)
        · exact ⟨[], d, rest, rfl, fun _ hb ↦ (nomatch hb), hfirst⟩
        · rcases bind_eq_error_iff.mp h with h | ⟨_, -, h⟩
          · obtain ⟨before, c, after, rfl, hbefore, hc⟩ := ih.mp h
            exact ⟨d :: before, c, after, rfl, List.forall_mem_cons.mpr ⟨⟨a, ha⟩, hbefore⟩, hc⟩
          · cases h
      · rintro ⟨before, c, after, hsplit, hbefore, hc⟩
        cases before with
        | nil =>
            obtain ⟨rfl, -⟩ := List.cons_eq_cons.mp hsplit
            exact .inl hc
        | cons b before =>
            obtain ⟨rfl, rfl⟩ := List.cons_eq_cons.mp hsplit
            obtain ⟨⟨a, ha⟩, hbefore⟩ := List.forall_mem_cons.mp hbefore
            have hrest := ih.mpr ⟨before, c, after, rfl, hbefore, hc⟩
            exact .inr ⟨a, ha, bind_eq_error_iff.mpr (.inl hrest)⟩

/-- Where every item gives a known result, the list of these is the result. -/
theorem mapM_eq_ok_map {f : γ → Except ε α} {g : γ → α} {l : List γ}
    (h : ∀ c ∈ l, f c = .ok (g c)) : l.mapM f = .ok (l.map g) :=
  mapM_eq_ok_iff.mpr (List.forall₂_map_right_iff.mpr (List.forall₂_same.mpr h))

/-- What is done to each result in the end can be done to it at once. -/
theorem map_mapM {f : γ → Option α} {g : α → β} {l : List γ} :
    (l.mapM f).map (List.map g) = l.mapM fun c ↦ (f c).map g := by
  induction l with
  | nil => rfl
  | cons c rest ih =>
      rw [List.mapM_cons, List.mapM_cons, ← ih]
      cases f c with
      | none => rfl
      | some a => cases rest.mapM f <;> rfl

/-- Nothing is found under a name exactly if no entry has it. -/
theorem lookup_eq_none_iff_not_mem {l : List (String × α)} {name : String} :
    l.lookup name = none ↔ name ∉ l.map Prod.fst := by
  rw [List.lookup_eq_none_iff, List.mem_map]
  constructor
  · rintro h ⟨e, he, rfl⟩
    exact bne_iff_ne.mp (h e he) rfl
  · intro h e he
    refine bne_iff_ne.mpr fun heq ↦ h ⟨e, he, heq.symm⟩

/-- Where every step of a fold lets a property hold for what the item contributes, the property
holds in the end for what some item contributes, or because it held before. -/
theorem foldl_iff {σ : Type u} (f : σ → γ → σ) (Q : σ → Prop) {A : γ → Prop}
    (hstep : ∀ s c, Q (f s c) ↔ A c ∨ Q s) (l : List γ) (s : σ) :
    Q (l.foldl f s) ↔ (∃ c ∈ l, A c) ∨ Q s := by
  induction l generalizing s with
  | nil => simp
  | cons c rest ih =>
      rw [List.foldl_cons, ih, hstep]
      simp only [List.mem_cons, exists_eq_or_imp]
      exact or_left_comm.trans or_assoc.symm

/-! ## Two runs -/

section TwoRuns

variable {δ κ : Type*} {x y : Except ε α} {f f' : α → Except ε β} {g : α → δ} {k : β → κ}

/-- Computations with results that look alike go on alike, if no step looks closer. -/
theorem map_bind_congr (hxy : x.map g = y.map g)
    (hf : ∀ a b, g a = g b → (f a).map k = (f' b).map k) :
    (x >>= f).map k = (y >>= f').map k := by
  cases x with
  | error e =>
      cases y with
      | error e' =>
          obtain rfl := Except.error.inj hxy
          rfl
      | ok b => cases hxy
  | ok a =>
      cases y with
      | error e' => cases hxy
      | ok b => exact hf a b (Except.ok.inj hxy)

theorem map_bind_same (hf : ∀ a, (f a).map k = (f' a).map k) :
    (x >>= f).map k = (x >>= f').map k := by
  cases x with
  | error e => rfl
  | ok a => exact hf a

/-- Folds over lists that look alike have results that look alike. -/
theorem map_foldlM_congr {f : α → γ → Except ε α} {key : γ → κ}
    (hstep : ∀ s t c d, g s = g t → key c = key d → (f s c).map g = (f t d).map g)
    {l l' : List γ} (hl : l.map key = l'.map key) {s t : α} (hst : g s = g t) :
    (l.foldlM f s).map g = (l'.foldlM f t).map g := by
  induction l generalizing l' s t with
  | nil =>
      obtain rfl := List.map_eq_nil_iff.mp hl.symm
      exact congrArg Except.ok hst
  | cons c rest ih =>
      cases l' with
      | nil => cases hl
      | cons d rest' =>
          obtain ⟨hcd, hrest⟩ := List.cons_eq_cons.mp hl
          rw [List.foldlM_cons, List.foldlM_cons]
          exact map_bind_congr (hstep s t c d hst hcd) fun _ _ hst ↦ ih hrest hst

end TwoRuns

section Find

variable {κ : Type*} [BEq κ] [LawfulBEq κ] {l : List γ} {key : γ → κ} {name : κ} {c : γ}

theorem mem_of_find?_key (h : l.find? (key · == name) = some c) : c ∈ l ∧ key c = name :=
  ⟨List.mem_of_find?_eq_some h, by simpa using List.find?_some h⟩

/-- Where keys are distinct, a look-up finds the one item with the key. -/
theorem find?_key_eq_some_iff (hkeys : (l.map key).Nodup) :
    l.find? (key · == name) = some c ↔ c ∈ l ∧ key c = name := by
  constructor
  · exact mem_of_find?_key
  · rintro ⟨hc, rfl⟩
    cases hfind : l.find? (key · == key c) with
    | none =>
        have hne := List.find?_eq_none.mp hfind c hc
        simp at hne
    | some d =>
        obtain ⟨hd, hkey⟩ := mem_of_find?_key hfind
        rw [List.inj_on_of_nodup_map hkeys hd hc hkey]

theorem find?_reverse_key_eq_some_iff (hkeys : (l.map key).Nodup) :
    l.reverse.find? (key · == name) = some c ↔ c ∈ l ∧ key c = name := by
  have hreverse : (l.reverse.map key).Nodup := by
    rw [List.map_reverse]
    exact List.nodup_reverse.mpr hkeys
  rw [find?_key_eq_some_iff hreverse, List.mem_reverse]

/-- A look-up among distinct keys finds the same in every order. -/
theorem find?_reverse_key_perm {l' : List γ} (perm : l.Perm l') (hkeys : (l.map key).Nodup) :
    l'.reverse.find? (key · == name) = l.reverse.find? (key · == name) := by
  have hkeys' := (perm.map key).nodup_iff.mp hkeys
  apply Option.ext
  intro c
  rw [find?_reverse_key_eq_some_iff hkeys, find?_reverse_key_eq_some_iff hkeys', perm.mem_iff]

/-- A look-up does not find an item with another key. -/
theorem find?_reverse_key_insert {l l' : List γ} (hname : key c ≠ name) :
    (l ++ c :: l').reverse.find? (key · == name) = (l ++ l').reverse.find? (key · == name) := by
  simp [beq_false_of_ne hname]

end Find

/-- Where one item at most gives a result, it is found wherever it stands. -/
theorem findSome?_perm {l l' : List γ} {f : γ → Option α} (perm : l.Perm l')
    (single : ∀ a ∈ l, ∀ b ∈ l, (f a).isSome = true → (f b).isSome = true → a = b) :
    l.findSome? f = l'.findSome? f := by
  cases hsome : l.findSome? f with
  | none =>
      rw [List.findSome?_eq_none_iff] at hsome
      exact (List.findSome?_eq_none_iff.mpr fun a ha ↦ hsome a (perm.mem_iff.mpr ha)).symm
  | some c =>
      obtain ⟨a, ha, hc⟩ := List.exists_of_findSome?_eq_some hsome
      cases hsome' : l'.findSome? f with
      | none =>
          rw [List.findSome?_eq_none_iff] at hsome'
          exact nomatch hc.symm.trans (hsome' a (perm.mem_iff.mp ha))
      | some c' =>
          obtain ⟨b, hb, hc'⟩ := List.exists_of_findSome?_eq_some hsome'
          obtain rfl := single a ha b (perm.mem_iff.mpr hb) (Option.isSome_of_eq_some hc)
            (Option.isSome_of_eq_some hc')
          exact hc.symm.trans hc'

section Forall₂

variable {R : γ → α → Prop} {l : List γ} {as : List α}

theorem exists_of_mem_left (h : List.Forall₂ R l as) {c : γ} (hc : c ∈ l) : ∃ a ∈ as, R c a := by
  induction h with
  | nil => cases hc
  | cons hr _ ih =>
      rcases List.mem_cons.mp hc with rfl | hc
      · exact ⟨_, List.mem_cons_self, hr⟩
      · obtain ⟨a, ha, hca⟩ := ih hc
        exact ⟨a, List.mem_cons_of_mem _ ha, hca⟩

theorem exists_of_mem_right (h : List.Forall₂ R l as) {a : α} (ha : a ∈ as) : ∃ c ∈ l, R c a := by
  induction h with
  | nil => cases ha
  | cons hr _ ih =>
      rcases List.mem_cons.mp ha with rfl | ha
      · exact ⟨_, List.mem_cons_self, hr⟩
      · obtain ⟨c, hc, hca⟩ := ih ha
        exact ⟨c, List.mem_cons_of_mem _ hc, hca⟩

/-- A relation may be replaced by one that follows from it for the items of the list. -/
theorem forall₂_imp_of_mem {S : γ → α → Prop} (h : List.Forall₂ R l as)
    (himp : ∀ c ∈ l, ∀ a, R c a → S c a) : List.Forall₂ S l as :=
  ((List.forall₂_and_left l as).mpr ⟨fun _ hc ↦ hc, h⟩).imp fun c a hca ↦ himp c hca.1 a hca.2

/-- What is related to two lists in a row is two lists in a row. -/
theorem exists_of_forall₂_append {l' : List γ} (h : List.Forall₂ R (l ++ l') as) :
    ∃ bs bs', as = bs ++ bs' ∧ List.Forall₂ R l bs ∧ List.Forall₂ R l' bs' := by
  induction l generalizing as with
  | nil => exact ⟨[], as, rfl, .nil, h⟩
  | cons c rest ih =>
      obtain ⟨a, others, hca, hothers, rfl⟩ := List.forall₂_cons_left_iff.mp h
      obtain ⟨bs, bs', rfl, hrest, hl'⟩ := ih hothers
      exact ⟨a :: bs, bs', rfl, .cons hca hrest, hl'⟩

/-- Related lists have equal images under functions that agree on related items. -/
theorem map_eq_map_of_forall₂ {δ : Type*} (h : List.Forall₂ R l as) {f : γ → δ} {g : α → δ}
    (hfg : ∀ c a, R c a → f c = g a) : l.map f = as.map g := by
  induction h with
  | nil => rfl
  | cons hr _ ih => rw [List.map_cons, List.map_cons, hfg _ _ hr, ih]

theorem filterMap_eq_filterMap_of_forall₂ {δ : Type*} (h : List.Forall₂ R l as)
    {f : γ → Option δ} {g : α → Option δ} (hfg : ∀ c a, R c a → f c = g a) :
    l.filterMap f = as.filterMap g := by
  have hmap := congrArg (List.filterMap id) (map_eq_map_of_forall₂ h hfg)
  rwa [List.filterMap_map, List.filterMap_map] at hmap

end Forall₂

section Split

variable {l l' before after : List α} {a : α}

/-- What holds of every item and those before it still does when an item is added at the end. -/
theorem forall_split_concat {P : List α → α → Prop} {last : α}
    (h : ∀ before a after, l = before ++ a :: after → P before a) (hlast : P l last) :
    ∀ before a after, l ++ [last] = before ++ a :: after → P before a := by
  intro before a after heq
  rcases List.eq_nil_or_concat after with rfl | ⟨initial, end', rfl⟩
  · obtain ⟨rfl, hend⟩ := List.append_inj' heq rfl
    obtain rfl : last = a := by simpa using hend
    exact hlast
  · have heq' : l ++ [last] = (before ++ a :: initial) ++ [end'] := by simpa using heq
    obtain ⟨rfl, -⟩ := List.append_inj' heq' rfl
    exact h before a initial rfl

/-- An item of two lists in a row is one of the first list or one of the second. -/
theorem append_eq_append_cons (h : l ++ l' = before ++ a :: after) :
    (∃ rest, l = before ++ a :: rest) ∨
      ∃ inner, before = l ++ inner ∧ l' = inner ++ a :: after := by
  rcases List.append_eq_append_iff.mp h with ⟨inner, hbefore, hl'⟩ | ⟨rest, hl, hrest⟩
  · exact .inr ⟨inner, hbefore, hl'⟩
  · cases rest with
    | nil => exact .inr ⟨[], by simpa using hl.symm, hrest.symm⟩
    | cons b rest =>
        obtain ⟨rfl, -⟩ := List.cons_eq_cons.mp hrest
        exact .inl ⟨rest, hl⟩

/-- What a list is expanded to comes item by item. -/
theorem flatMap_eq_append_cons {f : γ → List α} {cs : List γ}
    (h : cs.flatMap f = before ++ a :: after) :
    ∃ first c last inner rest,
      cs = first ++ c :: last ∧ f c = inner ++ a :: rest ∧ before = first.flatMap f ++ inner := by
  induction cs generalizing before with
  | nil => simp at h
  | cons c cs ih =>
      rw [List.flatMap_cons] at h
      rcases append_eq_append_cons h with ⟨rest, hc⟩ | ⟨inner, rfl, hcs⟩
      · exact ⟨[], c, cs, before, rest, rfl, hc, rfl⟩
      · obtain ⟨first, d, last, inner, rest, rfl, hd, rfl⟩ := ih hcs
        exact ⟨c :: first, d, last, inner, rest, rfl, hd, by simp⟩

end Split

end ResourceSchema
