import ResourceSchema.Proofs.Text.Language
import ResourceSchema.Sql.TypeLiteral

/-!
# The grammar of type literals

A type literal is words, a modifier that may be missing, more words and array suffixes, and the
text does not say where the words before the modifier end and those behind it begin: a blank may
come before a word or before the modifier, and without a modifier every word but the first belongs
to either part.  So `grammar` states a language with the operations of regular expressions, and
the check, which reads every character once, is shown to accept this language: what may follow a
state is a language as well, and a step of the check takes one character off it.
-/

open scoped Computability

namespace ResourceSchema.TypeLiteral

open Text (one run cons_mem_one_mul cons_mem_run_mul cons_mem_kstar_one_mul mem_one_add_mul
  mem_kstar_mul nil_notMem_one_mul)

variable {l : Language Char} {c : Char} {cs : List Char}

/-! ## The language -/

/-- `a` to `z` in either case, and the two other characters that differ from one of these in
nothing but case. -/
def Letter (c : Char) : Prop :=
  ('a' ≤ c ∧ c ≤ 'z') ∨ ('A' ≤ c ∧ c ≤ 'Z') ∨ c = '\u017f' ∨ c = '\u212a'

/-- A character of a word behind the first. -/
def WordChar (c : Char) : Prop := Letter c ∨ ('0' ≤ c ∧ c ≤ '9') ∨ c = '_'

/-- A character of general category Nd: it is in the run of ten that starts with one of the digits
zero. -/
def Digit (c : Char) : Prop := ∃ first ∈ Text.zeros, first ≤ c.toNat ∧ c.toNat < first + 10

def word : Language Char := one Letter * (one WordChar)∗

def blank : Language Char := one (· = ' ')

def number : Language Char := run Digit

/-- The second number of a modifier, with the comma before it. -/
def scale : Language Char := (1 + blank) * one (· = ',') * (1 + blank) * number

/-- One or two numbers in parentheses. -/
def modifier : Language Char := one (· = '(') * number * (1 + scale) * one (· = ')')

/-- The suffix of an array. -/
def brackets : Language Char := one (· = '[') * one (· = ']')

/-- The type literals. -/
def grammar : Language Char :=
  word * (blank * word)∗ * (1 + (1 + blank) * modifier) * (blank * word)∗ * brackets∗

/-! ## Classes of characters -/

theorem isLetter_iff : isLetter c = true ↔ Letter c := by
  have hlower : c.isLower = true ↔ 'a' ≤ c ∧ c ≤ 'z' :=
    Bool.and_eq_true_iff.trans (and_congr decide_eq_true_iff decide_eq_true_iff)
  have hupper : c.isUpper = true ↔ 'A' ≤ c ∧ c ≤ 'Z' := decide_eq_true_iff
  simp only [isLetter, Letter, Bool.or_eq_true, hlower, hupper, decide_eq_true_eq, or_assoc]

theorem isWordChar_iff : isWordChar c = true ↔ WordChar c := by
  have hdigit : c.isDigit = true ↔ '0' ≤ c ∧ c ≤ '9' :=
    Bool.and_eq_true_iff.trans (and_congr decide_eq_true_iff decide_eq_true_iff)
  simp only [isWordChar, WordChar, Bool.or_eq_true, isLetter_iff, hdigit, decide_eq_true_eq,
    or_assoc]

theorem isDecimalDigit_iff : Text.isDecimalDigit c = true ↔ Digit c := by
  simp only [Text.isDecimalDigit, Digit, List.any_eq_true, Bool.and_eq_true, Nat.ble_eq,
    Nat.blt_eq]

/-! ## What may follow a state -/

/-- What may follow the modifier. -/
def ending : Language Char := (blank * word)∗ * brackets∗

/-- What may follow the first word. -/
def remainder : Language Char := (blank * word)∗ * ((1 + (1 + blank) * modifier) * ending)

/-- What may follow a number that ends the modifier. -/
def closing : Language Char := one (· = ')') * ending

/-- What may follow a state. -/
def after : State → Language Char
  | .start => word * remainder
  | .word false => (one WordChar)∗ * remainder
  | .word true => (one WordChar)∗ * ending
  | .gap false => word * remainder + modifier * ending
  | .gap true => word * ending
  | .opened => number * ((1 + scale) * closing)
  | .first => (one Digit)∗ * ((1 + scale) * closing)
  | .beforeComma => one (· = ',') * ((1 + blank) * (number * closing))
  | .afterComma => (1 + blank) * (number * closing)
  | .beforeSecond => number * closing
  | .second => (one Digit)∗ * closing
  | .closed => ending
  | .bracket => one (· = ']') * brackets∗
  | .array => brackets∗

theorem grammar_eq : grammar = after .start := by
  simp only [grammar, after, remainder, ending, mul_assoc]

theorem cons_mem_optional_mul : c :: cs ∈ (1 + blank) * l ↔ c :: cs ∈ l ∨ c = ' ' ∧ cs ∈ l := by
  rw [mem_one_add_mul, blank, cons_mem_one_mul]

theorem cons_mem_word_mul : c :: cs ∈ word * l ↔ Letter c ∧ cs ∈ (one WordChar)∗ * l := by
  rw [word, mul_assoc, cons_mem_one_mul]

theorem cons_mem_number_mul : c :: cs ∈ number * l ↔ Digit c ∧ cs ∈ (one Digit)∗ * l :=
  cons_mem_run_mul

theorem cons_mem_words_mul :
    c :: cs ∈ (blank * word)∗ * l ↔ c :: cs ∈ l ∨ c = ' ' ∧ cs ∈ word * ((blank * word)∗ * l) := by
  rw [mem_kstar_mul, mul_assoc, blank, cons_mem_one_mul]

theorem cons_mem_modifier_mul : c :: cs ∈ modifier * ending ↔ c = '(' ∧ cs ∈ after .opened := by
  simp only [modifier, mul_assoc, cons_mem_one_mul, after, closing]

theorem cons_mem_closing : c :: cs ∈ closing ↔ c = ')' ∧ cs ∈ after .closed := by
  rw [closing, cons_mem_one_mul, after]

theorem cons_mem_scale_mul : c :: cs ∈ scale * closing ↔
    c = ',' ∧ cs ∈ after .afterComma ∨ c = ' ' ∧ cs ∈ after .beforeComma := by
  simp only [scale, mul_assoc, cons_mem_optional_mul, cons_mem_one_mul, after]

theorem cons_mem_brackets : c :: cs ∈ brackets∗ ↔ c = '[' ∧ cs ∈ after .bracket := by
  rw [← mul_one brackets∗, mem_kstar_mul, mul_one, brackets, mul_assoc, cons_mem_one_mul,
    Language.mem_one, or_iff_right (List.cons_ne_nil c cs)]
  rfl

theorem cons_mem_ending : c :: cs ∈ ending ↔
    c = '[' ∧ cs ∈ after .bracket ∨ c = ' ' ∧ cs ∈ after (.gap true) := by
  rw [ending, cons_mem_words_mul, cons_mem_brackets]
  rfl

/-- A blank behind the first word is followed by another word or by the modifier. -/
theorem cons_mem_remainder : c :: cs ∈ remainder ↔
    c = '(' ∧ cs ∈ after .opened ∨ c = '[' ∧ cs ∈ after .bracket ∨
      c = ' ' ∧ cs ∈ after (.gap false) := by
  -- without a modifier, the words behind it are words before it
  have hword (h : cs ∈ word * ending) : cs ∈ word * remainder := by
    have hle : ending ≤ remainder := fun _ hcs ↦
      mem_kstar_mul.mpr (.inl (mem_one_add_mul.mpr (.inl hcs)))
    exact mul_le_mul_right hle _ h
  have hgap : cs ∈ after (.gap false) ↔ cs ∈ word * remainder ∨ cs ∈ modifier * ending := Iff.rfl
  have hgapBehind : cs ∈ after (.gap true) ↔ cs ∈ word * ending := Iff.rfl
  rw [remainder, cons_mem_words_mul, ← remainder, mem_one_add_mul, mul_assoc,
    cons_mem_optional_mul, cons_mem_modifier_mul, cons_mem_ending, hgap, hgapBehind]
  grind

/-! ## Steps of the check -/

theorem exists_ite_some {α : Type} {q : Prop} [Decidable q] {a : α} {o : Option α}
    {r : α → Prop} :
    (∃ t, (if q then some a else o) = some t ∧ r t) ↔
      q ∧ r a ∨ ¬q ∧ ∃ t, o = some t ∧ r t := by
  by_cases h : q
  · simp [h]
  · simp [h]

theorem Letter.ne (h : Letter c) : c ≠ '(' := by
  rintro rfl
  exact absurd (isLetter_iff.mpr h) (by decide)

theorem WordChar.ne (h : WordChar c) : c ≠ ' ' ∧ c ≠ '(' ∧ c ≠ '[' := by
  refine ⟨?_, ?_, ?_⟩
  all_goals
    rintro rfl
    exact absurd (isWordChar_iff.mpr h) (by decide)

theorem Digit.ne (h : Digit c) : c ≠ ' ' ∧ c ≠ ',' ∧ c ≠ ')' := by
  refine ⟨?_, ?_, ?_⟩
  all_goals
    rintro rfl
    exact absurd (isDecimalDigit_iff.mpr h) (by decide +kernel)

/-- A step of the check takes a character off what may follow. -/
theorem cons_mem_after (s : State) :
    c :: cs ∈ after s ↔ ∃ t, s.next? c = some t ∧ cs ∈ after t := by
  -- the classes that a state tells apart have no character in common
  have hletter := @Letter.ne c
  have hword := @WordChar.ne c
  have hdigit := @Digit.ne c
  cases s with
  | start =>
      simp only [State.next?, exists_ite_some, isLetter_iff]
      rw [after, cons_mem_word_mul, ← after]
      grind
  | word modified =>
      cases modified with
      | false =>
          simp only [State.next?, exists_ite_some, isWordChar_iff]
          rw [after, cons_mem_kstar_one_mul, cons_mem_remainder, ← after]
          grind
      | true =>
          simp only [State.next?, exists_ite_some, isWordChar_iff]
          rw [after, cons_mem_kstar_one_mul, cons_mem_ending, ← after]
          grind
  | gap modified =>
      cases modified with
      | false =>
          simp only [State.next?, exists_ite_some, isLetter_iff]
          change c :: cs ∈ word * remainder ∨ c :: cs ∈ modifier * ending ↔ _
          rw [cons_mem_word_mul, cons_mem_modifier_mul, ← after]
          grind
      | true =>
          simp only [State.next?, exists_ite_some, isLetter_iff]
          change c :: cs ∈ word * ending ↔ _
          rw [cons_mem_word_mul, ← after]
          grind
  | opened =>
      simp only [State.next?, exists_ite_some, isDecimalDigit_iff]
      rw [after, cons_mem_number_mul, ← after]
      grind
  | first =>
      simp only [State.next?, exists_ite_some, isDecimalDigit_iff]
      rw [after, cons_mem_kstar_one_mul, mem_one_add_mul, cons_mem_closing, cons_mem_scale_mul,
        ← after]
      grind
  | beforeComma =>
      simp only [State.next?, exists_ite_some]
      rw [after, cons_mem_one_mul, ← after]
      grind
  | afterComma =>
      simp only [State.next?, exists_ite_some, isDecimalDigit_iff]
      rw [after, cons_mem_optional_mul, cons_mem_number_mul, ← after, ← after]
      grind
  | beforeSecond =>
      simp only [State.next?, exists_ite_some, isDecimalDigit_iff]
      rw [after, cons_mem_number_mul, ← after]
      grind
  | second =>
      simp only [State.next?, exists_ite_some, isDecimalDigit_iff]
      rw [after, cons_mem_kstar_one_mul, cons_mem_closing, ← after]
      grind
  | closed =>
      simp only [State.next?, exists_ite_some]
      change c :: cs ∈ ending ↔ _
      rw [cons_mem_ending]
      grind
  | bracket =>
      simp only [State.next?, exists_ite_some]
      rw [after, cons_mem_one_mul, ← after]
      grind
  | array =>
      simp only [State.next?, exists_ite_some]
      change c :: cs ∈ brackets∗ ↔ _
      rw [cons_mem_brackets]
      grind

theorem nil_mem_after_iff (s : State) : [] ∈ after s ↔ s.isFinal = true := by
  have hone (p : Char → Prop) (l : Language Char) : ([] ∈ one p * l) = False :=
    eq_false nil_notMem_one_mul
  have hending : [] ∈ ending := mem_kstar_mul.mpr (.inl (Language.nil_mem_kstar brackets))
  have hremainder : [] ∈ remainder := mem_kstar_mul.mpr (.inl (mem_one_add_mul.mpr (.inl hending)))
  cases s with
  | word modified =>
      cases modified with
      | false => exact iff_of_true (mem_kstar_mul.mpr (.inl hremainder)) rfl
      | true => exact iff_of_true (mem_kstar_mul.mpr (.inl hending)) rfl
  | closed => exact iff_of_true hending rfl
  | array => exact iff_of_true (Language.nil_mem_kstar brackets) rfl
  | gap modified =>
      cases modified with
      | false =>
          simp only [after, word, modifier, mul_assoc, Language.mem_add, hone]
          simp [State.isFinal]
      | true =>
          simp only [after, word, mul_assoc, hone]
          simp [State.isFinal]
  | first | second | afterComma =>
      simp only [after, scale, blank, number, run, closing, mem_kstar_mul, mem_one_add_mul,
        mul_assoc, hone]
      simp [State.isFinal]
  | start | opened | beforeComma | beforeSecond | bracket =>
      simp only [after, word, number, run, mul_assoc, hone]
      simp [State.isFinal]

/-- The check accepts from a state what may follow it. -/
theorem accepts_iff {s : State} : accepts s cs = true ↔ cs ∈ after s := by
  induction cs generalizing s with
  | nil => rw [nil_mem_after_iff, accepts]
  | cons c rest ih =>
      rw [cons_mem_after, accepts]
      cases s.next? c with
      | none => simp
      | some t => simp [ih]

end ResourceSchema.TypeLiteral

namespace ResourceSchema

/-- **Which column types are accepted.**  A type passes the check exactly if the whole text of it is
words with a blank between them, perhaps a modifier with at most one blank before it, more words and
array suffixes; and it stands in DDL exactly then, and as it is. -/
theorem isTypeLiteral_iff_grammar (text : String) :
    (isTypeLiteral text = true ↔ text.toList ∈ TypeLiteral.grammar) ∧
      ∀ type, typeLiteral? text = some type ↔ type = text ∧ text.toList ∈ TypeLiteral.grammar := by
  have haccepts : isTypeLiteral text = true ↔ text.toList ∈ TypeLiteral.grammar := by
    rw [isTypeLiteral, TypeLiteral.accepts_iff, TypeLiteral.grammar_eq]
  refine ⟨haccepts, fun type ↦ ?_⟩
  rw [typeLiteral?, ← haccepts]
  split
  · next h => simp [h, eq_comm]
  · next h => simp [h]

example : isTypeLiteral "numeric (10 ,2) [ ]" = false ∧ isTypeLiteral "text\n" = false := by
  decide +kernel

end ResourceSchema
