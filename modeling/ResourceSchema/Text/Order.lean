/-!
# Code-point order on text

Every map and set of this library lists its keys in dictionary order by code point.
`Text.Before` is that order; it is irreflexive, transitive and total.
-/

namespace ResourceSchema.Text

/-- Dictionary order on lists of characters, a proper prefix coming first. -/
def beforeChars : List Char → List Char → Bool
  | [], [] => false
  | [], _ :: _ => true
  | _ :: _, [] => false
  | a :: s, b :: t => Nat.blt a.toNat b.toNat || (a == b && beforeChars s t)

/-- The text `s` comes strictly before the text `t`. -/
def Before (s t : String) : Prop := beforeChars s.toList t.toList = true

instance (s t : String) : Decidable (Before s t) :=
  inferInstanceAs (Decidable (_ = true))

theorem beforeChars_irrefl (s : List Char) : beforeChars s s = false := by
  induction s with
  | nil => rfl
  | cons a s ih => simp [beforeChars, ih, Nat.blt_eq, ← Bool.not_eq_true]

theorem beforeChars_trans {s t u : List Char} :
    beforeChars s t = true → beforeChars t u = true → beforeChars s u = true := by
  induction s generalizing t u with
  | nil => cases t <;> cases u <;> simp [beforeChars]
  | cons a s ih =>
    cases t with
    | nil => simp [beforeChars]
    | cons b t =>
      cases u with
      | nil => simp [beforeChars]
      | cons c u =>
        simp only [beforeChars, Bool.or_eq_true, Bool.and_eq_true, beq_iff_eq, Nat.blt_eq]
        rintro (h | ⟨rfl, h⟩) (k | ⟨rfl, k⟩)
        · exact .inl (Nat.lt_trans h k)
        · exact .inl h
        · exact .inl k
        · exact .inr ⟨rfl, ih h k⟩

theorem beforeChars_total (s t : List Char) :
    beforeChars s t = true ∨ s = t ∨ beforeChars t s = true := by
  induction s generalizing t with
  | nil => cases t <;> simp [beforeChars]
  | cons a s ih =>
    cases t with
    | nil => simp [beforeChars]
    | cons b t =>
      simp only [beforeChars, Bool.or_eq_true, Bool.and_eq_true, beq_iff_eq, Nat.blt_eq,
        List.cons.injEq]
      rcases Nat.lt_trichotomy a.toNat b.toNat with h | h | h
      · exact .inl (.inl h)
      · have e : a = b := Char.toNat_inj.mp h
        rcases ih t with k | k | k
        · exact .inl (.inr ⟨e, k⟩)
        · exact .inr (.inl ⟨e, k⟩)
        · exact .inr (.inr (.inr ⟨e.symm, k⟩))
      · exact .inr (.inr (.inl h))

theorem Before.irrefl (s : String) : ¬ Before s s := by
  simp [Before, beforeChars_irrefl]

theorem Before.trans {s t u : String} (h : Before s t) (k : Before t u) : Before s u :=
  beforeChars_trans h k

theorem Before.ne {s t : String} (h : Before s t) : s ≠ t :=
  fun e => Before.irrefl t (e ▸ h)

theorem Before.total (s t : String) : Before s t ∨ s = t ∨ Before t s := by
  rcases beforeChars_total s.toList t.toList with h | h | h
  · exact .inl h
  · exact .inr (.inl (String.toList_inj.mp h))
  · exact .inr (.inr h)

/-- The order counts code points, not the units of another encoding. -/
example : Before "\uffff" "😀" := by decide

end ResourceSchema.Text
