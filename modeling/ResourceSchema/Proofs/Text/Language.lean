import Mathlib.Computability.Language

/-!
# Languages of characters

Patterns are stated with the operations of regular expressions on languages.  The lemmas say how
the first character of a text decides whether the text is in such a language, and which characters
its texts have.
-/

open scoped Computability

namespace ResourceSchema.Text

variable {p : Char → Prop} {l k : Language Char} {c : Char} {cs : List Char}

/-- One character of a class. -/
def one (p : Char → Prop) : Language Char := {cs | ∃ c, p c ∧ cs = [c]}

/-- Characters of a class, at least one of them. -/
def run (p : Char → Prop) : Language Char := one p * (one p)∗

/-! ## The first character -/

theorem cons_mem_one_mul : c :: cs ∈ one p * l ↔ p c ∧ cs ∈ l := by
  rw [Language.mem_mul]
  constructor
  · rintro ⟨_, ⟨d, hd, rfl⟩, rest, hrest, heq⟩
    obtain ⟨rfl, rfl⟩ := List.cons.inj heq
    exact ⟨hd, hrest⟩
  · rintro ⟨hc, hcs⟩
    exact ⟨[c], ⟨c, hc, rfl⟩, cs, hcs, rfl⟩

theorem nil_notMem_one_mul : [] ∉ one p * l := by
  rw [Language.mem_mul]
  rintro ⟨_, ⟨d, -, rfl⟩, rest, -, heq⟩
  cases heq

theorem mem_one_add_mul : cs ∈ (1 + l) * k ↔ cs ∈ k ∨ cs ∈ l * k := by
  rw [add_mul, one_mul, Language.mem_add]

theorem mem_kstar_mul : cs ∈ l∗ * k ↔ cs ∈ k ∨ cs ∈ l * (l∗ * k) := by
  rw [← Language.one_add_self_mul_kstar_eq_kstar, mem_one_add_mul, mul_assoc,
    Language.one_add_self_mul_kstar_eq_kstar]

theorem cons_mem_kstar_one_mul :
    c :: cs ∈ (one p)∗ * l ↔ c :: cs ∈ l ∨ p c ∧ cs ∈ (one p)∗ * l := by
  rw [mem_kstar_mul, cons_mem_one_mul]

theorem cons_mem_run_mul : c :: cs ∈ run p * l ↔ p c ∧ cs ∈ (one p)∗ * l := by
  rw [run, mul_assoc, cons_mem_one_mul]

/-! ## All characters -/

theorem mem_kstar_one_iff : cs ∈ (one p)∗ ↔ ∀ c ∈ cs, p c := by
  induction cs with
  | nil => exact iff_of_true (Language.nil_mem_kstar _) (List.forall_mem_nil _)
  | cons c rest ih =>
      rw [← mul_one (one p)∗, cons_mem_kstar_one_mul, mul_one, ih, Language.mem_one,
        or_iff_right (List.cons_ne_nil c rest), List.forall_mem_cons]

theorem mem_run_iff : cs ∈ run p ↔ cs ≠ [] ∧ ∀ c ∈ cs, p c := by
  rw [← mul_one (run p)]
  cases cs with
  | nil => exact iff_of_false (by rw [run, mul_assoc]; exact nil_notMem_one_mul) fun h ↦ h.1 rfl
  | cons c rest =>
      rw [cons_mem_run_mul, mul_one, mem_kstar_one_iff, List.forall_mem_cons,
        and_iff_right (List.cons_ne_nil c rest)]

/-- The texts of the language have no characters but those of a class. -/
def Within (p : Char → Prop) (l : Language Char) : Prop := ∀ cs ∈ l, ∀ c ∈ cs, p c

theorem within_one {q : Char → Prop} (h : ∀ c, q c → p c) : Within p (one q) := by
  rintro _ ⟨c, hc, rfl⟩ d hd
  exact List.mem_singleton.mp hd ▸ h c hc

theorem within_run {q : Char → Prop} (h : ∀ c, q c → p c) : Within p (run q) :=
  fun _ hcs c hc ↦ h c ((mem_run_iff.mp hcs).2 c hc)

theorem Within.add (hl : Within p l) (hk : Within p k) : Within p (l + k) :=
  fun cs hcs ↦ Or.elim hcs (hl cs) (hk cs)

theorem Within.mul (hl : Within p l) (hk : Within p k) : Within p (l * k) := by
  intro cs hcs c hc
  obtain ⟨first, hfirst, last, hlast, rfl⟩ := Language.mem_mul.mp hcs
  rcases List.mem_append.mp hc with hc | hc
  · exact hl first hfirst c hc
  · exact hk last hlast c hc

/-- What may be missing brings in no characters when it is. -/
theorem Within.optional (hl : Within p l) : Within p (1 + l) := by
  have hnone : Within p 1 := by
    rintro _ rfl c hc
    cases hc
  exact hnone.add hl

end ResourceSchema.Text
