import Mathlib.Data.List.TakeWhile
import ResourceSchema.Proofs.Text.Language
import ResourceSchema.Sql.Literal

/-!
# Numbers and default expressions

A default that is no literal is one of a few fixed expressions or a number.  Numbers are written by
cases on the place of the point; `numeral` says which texts come out: digits with perhaps a sign in
front of them, a fraction and an exponent behind them.
-/

open scoped Computability

namespace ResourceSchema.Sql

open Text (one run mem_run_iff)

variable {c : Char} {cs first last x s : List Char} {n : Nat} {e : String}

/-! ## Numbers -/

/-- Decimal digits, at least one of them. -/
def digits : Language Char := run fun c ↦ c.isDigit = true

/-- Digits, and perhaps a point and more digits. -/
def decimal : Language Char := digits * (1 + one (· = '.') * digits)

/-- The mark of an exponent, perhaps its sign, and its digits. -/
def exponent : Language Char := one (· = 'e') * (1 + one fun c ↦ c = '+' ∨ c = '-') * digits

/-- Numbers without a sign. -/
def magnitude : Language Char := decimal * (1 + exponent)

/-- Numbers as SQL reads them. -/
def numeral : Language Char := (1 + one (· = '-')) * magnitude

theorem mem_digits (hne : cs ≠ []) (hcs : ∀ c ∈ cs, c.isDigit = true) : cs ∈ digits :=
  mem_run_iff.mpr ⟨hne, hcs⟩

theorem isDigit_of_mem_digits : ∀ c ∈ Decimal.digits n, c.isDigit = true :=
  fun _ ↦ Nat.isDigit_of_mem_toDigits (by decide) (by decide)

theorem digits_mem (n : Nat) : Decimal.digits n ∈ digits :=
  mem_digits Nat.toDigits_ne_nil isDigit_of_mem_digits

theorem isDigit_of_mem_trimZeros :
    ∀ c ∈ Decimal.trimZeros (Decimal.digits n), c.isDigit = true := by
  intro c hc
  have hmem := (List.dropWhile_sublist _).subset (List.mem_reverse.mp hc)
  exact isDigit_of_mem_digits c (List.mem_reverse.mp hmem)

/-- A positive number has digits that are not zeros at its end. -/
theorem trimZeros_ne_nil (hn : n ≠ 0) : Decimal.trimZeros (Decimal.digits n) ≠ [] := by
  intro h
  have hzeros : ∀ c ∈ Decimal.digits n, c = '0' := by
    rw [Decimal.trimZeros, List.reverse_eq_nil_iff, List.dropWhile_eq_nil_iff] at h
    exact fun c hc ↦ beq_iff_eq.mp (h c (List.mem_reverse.mpr hc))
  apply hn
  calc n = Nat.ofDigitChars 10 (Decimal.digits n) 0 := Nat.ofDigitChars_ten_toDigits.symm
    _ = 0 := by rw [List.eq_replicate_of_mem hzeros, Nat.ofDigitChars_replicate_zero, Nat.mul_zero]

theorem isDigit_of_mem_zeros : ∀ c ∈ List.replicate n '0', c.isDigit = true := by
  intro c hc
  rw [List.eq_of_mem_replicate hc]
  rfl

theorem forall_mem_digit_append (hfirst : ∀ c ∈ first, c.isDigit = true)
    (hlast : ∀ c ∈ last, c.isDigit = true) : ∀ c ∈ first ++ last, c.isDigit = true :=
  List.forall_mem_append.mpr ⟨hfirst, hlast⟩

theorem decimal_of_digits (h : cs ∈ digits) : cs ∈ decimal := by
  rw [decimal, mul_add, mul_one]
  exact .inl h

theorem decimal_of_point (hfirst : first ∈ digits) (hlast : last ∈ digits) :
    first ++ '.' :: last ∈ decimal :=
  Language.append_mem_mul hfirst (.inr (Text.cons_mem_one_mul.mpr ⟨rfl, hlast⟩))

theorem magnitude_of_decimal (h : cs ∈ decimal) : cs ∈ magnitude := by
  rw [magnitude, mul_add, mul_one]
  exact .inl h

theorem exponent_of_digits {sign : Char} (hsign : sign = '+' ∨ sign = '-') (h : cs ∈ digits) :
    'e' :: sign :: cs ∈ exponent := by
  rw [exponent, mul_assoc, Text.cons_mem_one_mul, Text.mem_one_add_mul, Text.cons_mem_one_mul]
  exact ⟨rfl, .inr ⟨hsign, h⟩⟩

/-- A decimal is written as a number without a sign. -/
theorem write_mem_magnitude (layout : Decimal.Layout) (d : Decimal) :
    layout.write d ∈ magnitude := by
  have hzero : ['0'] ∈ digits := digits_mem 0
  unfold Decimal.Layout.write
  split
  · exact magnitude_of_decimal (decimal_of_point hzero hzero)
  · next hne =>
    dsimp only
    have hds := isDigit_of_mem_trimZeros (n := d.coefficient)
    have hdsne := trimZeros_ne_nil hne
    generalize Decimal.trimZeros (Decimal.digits d.coefficient) = ds at hds hdsne ⊢
    have htake (n : Nat) : ∀ c ∈ ds.take n, c.isDigit = true :=
      fun c hc ↦ hds c (List.mem_of_mem_take hc)
    have hdrop (n : Nat) : ∀ c ∈ ds.drop n, c.isDigit = true :=
      fun c hc ↦ hds c (List.mem_of_mem_drop hc)
    split
    · refine magnitude_of_decimal ?_
      split
      · refine decimal_of_point (mem_digits ?_ ?_) ?_
        · -- the digits and the zeros behind them reach up to the point
          rw [← List.length_pos_iff_ne_nil, List.length_append, List.length_take,
            List.length_replicate]
          omega
        · exact forall_mem_digit_append (htake _) isDigit_of_mem_zeros
        · split
          · exact hzero
          · next hfraction =>
            exact mem_digits (fun h ↦ hfraction (List.isEmpty_iff.mpr h)) (hdrop _)
      · change ['0'] ++ '.' :: (List.replicate _ '0' ++ ds) ∈ decimal
        refine decimal_of_point hzero (mem_digits ?_ ?_)
        · exact List.append_ne_nil_of_right_ne_nil _ hdsne
        · exact forall_mem_digit_append isDigit_of_mem_zeros hds
    · refine Language.append_mem_mul ?_ (.inr (exponent_of_digits ?_ (digits_mem _)))
      · split
        · exact decimal_of_digits (mem_digits hdsne hds)
        · next hlength =>
          have hpos := List.length_pos_iff_ne_nil.mpr hdsne
          refine decimal_of_point (mem_digits ?_ (htake 1)) (mem_digits ?_ (hdrop 1))
          · rw [← List.length_pos_iff_ne_nil, List.length_take]
            omega
          · rw [← List.length_pos_iff_ne_nil, List.length_drop]
            omega
      · split
        · exact .inr rfl
        · exact .inl rfl

theorem render_mem_numeral (n : Json.Number) : n.render.toList ∈ numeral := by
  rw [Json.Number.render, String.toList_ofList, numeral, Text.mem_one_add_mul]
  unfold Json.Number.chars
  split
  · next k =>
    have hdigits (n : Nat) : Decimal.digits n ∈ magnitude :=
      magnitude_of_decimal (decimal_of_digits (digits_mem n))
    unfold Decimal.ofInt
    split
    · rw [Decimal.ofNat, String.toList_ofList]
      exact .inl (hdigits _)
    · rw [String.toList_ofList]
      exact .inr (Text.cons_mem_one_mul.mpr ⟨rfl, hdigits _⟩)
  · next x =>
    split
    · exact .inr (Text.cons_mem_one_mul.mpr ⟨rfl, write_mem_magnitude _ _⟩)
    · exact .inl (write_mem_magnitude _ _)

/-- A number starts with a digit or with its sign. -/
theorem head_of_mem_numeral (h : cs ∈ numeral) :
    ∃ c rest, cs = c :: rest ∧ (c = '-' ∨ c.isDigit = true) := by
  obtain ⟨sign, hsign, cs, hcs, rfl⟩ := Language.mem_mul.mp h
  rcases hsign with rfl | ⟨c, rfl, rfl⟩
  · rw [List.nil_append]
    obtain ⟨_, hdecimal, _, -, rfl⟩ := Language.mem_mul.mp hcs
    obtain ⟨ds, hdigits, _, -, rfl⟩ := Language.mem_mul.mp hdecimal
    obtain ⟨hne, hall⟩ := mem_run_iff.mp hdigits
    obtain ⟨c, rest, rfl⟩ := List.exists_cons_of_ne_nil hne
    exact ⟨c, _, rfl, .inr (hall c List.mem_cons_self)⟩
  · exact ⟨'-', cs, rfl, .inl rfl⟩

theorem numeral_within : Text.Within (· ≠ ' ') numeral := by
  have hone (d : Char) (hd : d ≠ ' ') : Text.Within (· ≠ ' ') (one (· = d)) :=
    Text.within_one fun c hc ↦ hc ▸ hd
  have hdigits : Text.Within (· ≠ ' ') digits := by
    refine Text.within_run fun c hc ↦ ?_
    rintro rfl
    exact absurd hc (by decide)
  have hsign : Text.Within (· ≠ ' ') (one fun c ↦ c = '+' ∨ c = '-') := by
    refine Text.within_one fun c hc ↦ ?_
    rcases hc with rfl | rfl
    · decide
    · decide
  have hdecimal := hdigits.mul ((hone '.' (by decide)).mul hdigits).optional
  have hexponent := ((hone 'e' (by decide)).mul hsign.optional).mul hdigits
  exact (hone '-' (by decide)).optional.mul (hdecimal.mul hexponent.optional)

/-! ## Default expressions -/

/-- A default is a fixed expression, a number or a literal. -/
inductive IsDefault (e : String) : Prop where
  | fixed (known : e ∈ "TRUE" :: "FALSE" :: defaultFunctions)
  | number (numeral : e.toList ∈ numeral)
  | literal (text : String) (quotes : e = literal text)

theorem isDefault_of_defaultExpression? {value : Json} (h : defaultExpression? value = some e) :
    IsDefault e := by
  cases value with
  | null => cases h
  | bool b =>
      cases b with
      | true => exact .fixed (Option.some.inj h ▸ List.mem_cons_self)
      | false => exact .fixed (Option.some.inj h ▸ List.mem_cons_of_mem _ List.mem_cons_self)
  | number n => exact .number (Option.some.inj h ▸ render_mem_numeral n)
  | string s =>
      rw [defaultExpression?] at h
      split at h
      · next hmem =>
        obtain rfl := Option.some.inj h
        have hfunction := List.contains_iff_mem.mp hmem
        exact .fixed (List.mem_cons_of_mem _ (List.mem_cons_of_mem _ hfunction))
      · exact .literal s (Option.some.inj h).symm
  | array items => exact .literal _ (Option.some.inj h).symm
  | object members => exact .literal _ (Option.some.inj h).symm

/-- A literal starts with a quote, or with the mark in front of one. -/
theorem literal_starts (text : String) :
    ∃ rest, (literal text).toList = '\'' :: rest ∨ (literal text).toList = 'E' :: '\'' :: rest := by
  rw [literal, String.toList_ofList, literalChars]
  split
  · exact ⟨_, .inr rfl⟩
  · exact ⟨_, .inl rfl⟩

/-- Only literals have blanks, and those are behind a quote. -/
theorem quote_mem_of_blank (h : IsDefault e) (hblank : e.toList = x ++ ' ' :: s) : '\'' ∈ x := by
  have hmem : ' ' ∈ e.toList := hblank ▸ List.mem_append_right x List.mem_cons_self
  cases h with
  | fixed known =>
      have hfixed : ("TRUE" :: "FALSE" :: defaultFunctions).all
          (fun e ↦ !e.toList.contains ' ') = true := by decide +kernel
      have hno := List.all_eq_true.mp hfixed e known
      rw [Bool.not_eq_true', ← Bool.not_eq_true, List.contains_iff_mem] at hno
      exact absurd hmem hno
  | number hnumeral => exact absurd rfl (numeral_within _ hnumeral ' ' hmem)
  | literal text quotes =>
      obtain ⟨rest, hrest | hrest⟩ := literal_starts text
      · rw [quotes, hrest] at hblank
        rcases List.cons_eq_append_iff.mp hblank with ⟨-, heq⟩ | ⟨x, rfl, -⟩
        · exact absurd (List.cons.inj heq).1 (by decide)
        · exact List.mem_cons_self
      · rw [quotes, hrest] at hblank
        rcases List.cons_eq_append_iff.mp hblank with ⟨-, heq⟩ | ⟨x, rfl, hx⟩
        · exact absurd (List.cons.inj heq).1 (by decide)
        · rcases List.cons_eq_append_iff.mp hx with ⟨-, heq⟩ | ⟨x, rfl, -⟩
          · exact absurd (List.cons.inj heq).1 (by decide)
          · exact List.mem_cons_of_mem _ List.mem_cons_self

/-- No default starts like a clause. -/
theorem head_ne_of_isDefault (h : IsDefault e) (hstart : e.toList = c :: cs) :
    c ≠ 'N' ∧ c ≠ 'D' := by
  cases h with
  | fixed known =>
      have hfixed : ("TRUE" :: "FALSE" :: defaultFunctions).all
          (fun e ↦ e.toList.head?.all fun c ↦ c != 'N' && c != 'D') = true := by decide +kernel
      have hhead := List.all_eq_true.mp hfixed e known
      rw [hstart] at hhead
      simpa using hhead
  | number hnumeral =>
      obtain ⟨d, rest, hcs, hd⟩ := head_of_mem_numeral hnumeral
      obtain ⟨rfl, -⟩ := List.cons.inj (hstart.symm.trans hcs)
      constructor
      · rintro rfl
        exact absurd hd (by decide)
      · rintro rfl
        exact absurd hd (by decide)
  | literal text quotes =>
      rw [quotes] at hstart
      obtain ⟨rest, hrest | hrest⟩ := literal_starts text
      · obtain ⟨rfl, -⟩ := List.cons.inj (hstart.symm.trans hrest)
        decide
      · obtain ⟨rfl, -⟩ := List.cons.inj (hstart.symm.trans hrest)
        decide

end ResourceSchema.Sql
