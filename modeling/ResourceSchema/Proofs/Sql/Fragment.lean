import ResourceSchema.Name.Ident
import ResourceSchema.Proofs.Sql.Expression
import ResourceSchema.Proofs.Sql.Scanner
import ResourceSchema.Sql.Parameters
import ResourceSchema.Sql.TypeLiteral

/-!
# What descriptions bring into SQL text is closed

Names, defaults, types and numbers come from descriptions and may be any text.  Written as a bare
or quoted name, as a literal, as a type that passes the check or as a number, each is closed.
-/

namespace ResourceSchema.Sql

variable {m : Mode} {c : Char} {cs : List Char} {text : String}

/-! ## Runs of characters -/

/-- What comes back to a mode after every item comes back to it after all of them. -/
theorem scan_flatMap {f : Char → List Char} (hf : ∀ c, scan m (f c) = some m) (cs : List Char) :
    scan m (cs.flatMap f) = some m := by
  induction cs with
  | nil => rfl
  | cons c rest ih =>
      rw [List.flatMap_cons, scan_append, hf]
      exact ih

/-- The reader is in a word. -/
def Mode.InWord (m : Mode) : Prop := m = .word ∨ m = .mark

theorem Mode.InWord.isOutside (h : m.InWord) : m.isOutside = true := by
  rcases h with rfl | rfl
  · rfl
  · rfl

theorem step_inWord (hm : m.InWord) (hc : continuesWord c = true) :
    m.refuses c = false ∧ m.next c = .word := by
  have hquote : c ≠ '\'' := by
    rintro rfl
    exact absurd hc (by decide)
  have hend : c ≠ ';' := by
    rintro rfl
    exact absurd hc (by decide)
  rcases hm with rfl | rfl
  · simp [Mode.refuses, Mode.next, hend, hc]
  · simp [Mode.refuses, Mode.next, hend, hc, hquote]

theorem scan_inWord (hm : m.InWord) (hcs : ∀ c ∈ cs, continuesWord c = true) :
    ∃ n, scan m cs = some n ∧ n.InWord := by
  induction cs generalizing m with
  | nil => exact ⟨m, rfl, hm⟩
  | cons c rest ih =>
      obtain ⟨hrefuses, hnext⟩ := step_inWord hm (hcs c List.mem_cons_self)
      rw [scan_cons_of_next hrefuses hnext]
      exact ih (.inl rfl) fun c hmem ↦ hcs c (List.mem_cons_of_mem _ hmem)

/-- The characters with which a quotation or a comment may start or a statement ends. -/
def special : List Char := ['\'', '"', '$', '-', '/', ';']

/-- The character is none of the special ones. -/
def isCalm (c : Char) : Bool := !special.contains c

/-- A test that all special characters fail lets calm characters through alone. -/
theorem isCalm_of {test : Char → Bool} (hspecial : special.any test = false)
    (hc : test c = true) : isCalm c = true := by
  rw [isCalm, Bool.not_eq_true', ← Bool.not_eq_true, List.contains_iff_mem]
  intro hmem
  exact List.any_eq_false.mp hspecial c hmem hc

/-- The reader is neither in a quotation nor at the end of one, and no operator but a dash may go
on. -/
def Mode.IsPlain (m : Mode) : Prop := m = .outside ∨ m.InWord ∨ m = .dash

theorem Mode.IsPlain.isOutside (h : m.IsPlain) : m.isOutside = true := by
  rcases h with rfl | h | rfl
  · rfl
  · exact h.isOutside
  · rfl

theorem enter_of_isCalm (hc : isCalm c = true) :
    Mode.enter c = .outside ∨ (Mode.enter c).InWord := by
  simp only [isCalm, special, List.contains_cons, List.contains_nil, Bool.or_false, Bool.not_or,
    Bool.and_eq_true, Bool.not_eq_true', beq_eq_false_iff_ne, ne_eq] at hc
  obtain ⟨hquote, hname, hdollar, hdash, hslash, -⟩ := hc
  unfold Mode.enter
  rw [if_neg hquote, if_neg hname, if_neg hdollar, if_neg hdash, if_neg hslash]
  split
  · exact .inr (.inr rfl)
  · split
    · exact .inr (.inl rfl)
    · exact .inl rfl

theorem step_calm (hm : m.IsPlain) (hc : isCalm c = true) :
    m.refuses c = false ∧ (m.next c = .outside ∨ (m.next c).InWord) := by
  have henter := enter_of_isCalm hc
  have hquote : c ≠ '\'' := by
    rintro rfl
    exact absurd hc (by decide)
  have hend : c ≠ ';' := by
    rintro rfl
    exact absurd hc (by decide)
  have hdash : c ≠ '-' := by
    rintro rfl
    exact absurd hc (by decide)
  rcases hm with rfl | (rfl | rfl) | rfl
  · exact ⟨by simp [Mode.refuses, hend], henter⟩
  · refine ⟨by simp [Mode.refuses, hend], ?_⟩
    rw [Mode.next]
    split
    · exact .inr (.inl rfl)
    · exact henter
  · refine ⟨by simp [Mode.refuses, hend], ?_⟩
    rw [Mode.next, if_neg hquote]
    split
    · exact .inr (.inl rfl)
    · exact henter
  · exact ⟨by simp [Mode.refuses, hend, hdash], henter⟩

theorem scan_calm (hm : m.IsPlain) (hcs : ∀ c ∈ cs, isCalm c = true) :
    ∃ n, scan m cs = some n ∧ n.IsPlain := by
  induction cs generalizing m with
  | nil => exact ⟨m, rfl, hm⟩
  | cons c rest ih =>
      obtain ⟨hrefuses, hnext⟩ := step_calm hm (hcs c List.mem_cons_self)
      rw [scan_cons_of_next hrefuses rfl]
      exact ih (hnext.imp_right .inl) fun c hmem ↦ hcs c (List.mem_cons_of_mem _ hmem)

theorem closed_of_calm (h : ∀ c ∈ text.toList, isCalm c = true) : Closed text := by
  obtain ⟨n, hn, hplain⟩ := scan_calm (.inl rfl) h
  exact closed_iff.mpr ⟨n, hn, hplain.isOutside⟩

/-! ## Names -/

theorem startsWord_of_isLower (h : c.isLower = true) : startsWord c = true := by
  have halpha : c.isAlpha = true := Bool.or_eq_true_iff.mpr (.inr h)
  simp [startsWord, halpha]

theorem startsWord_of_startsBare (h : Ident.startsBare c = true) : startsWord c = true := by
  rw [Ident.startsBare, Bool.or_eq_true] at h
  rcases h with hlower | hunderscore
  · exact startsWord_of_isLower hlower
  · simp [startsWord, of_decide_eq_true hunderscore]

theorem enter_of_startsBare (hc : Ident.startsBare c = true) : (Mode.enter c).InWord := by
  rcases enter_of_isCalm (isCalm_of rfl hc) with henter | henter
  · unfold Mode.enter at henter
    rw [if_pos (startsWord_of_startsBare hc)] at henter
    split_ifs at henter
  · exact henter

theorem continuesWord_of_continuesBare (hc : Ident.continuesBare c = true) :
    continuesWord c = true := by
  simp only [Ident.continuesBare, Bool.or_eq_true, decide_eq_true_eq] at hc
  rcases hc with ((hlower | hdigit) | rfl) | rfl
  · simp [continuesWord, startsWord_of_isLower hlower]
  · simp [continuesWord, hdigit]
  · decide
  · decide

theorem scan_bare (h : Ident.isPlain cs = true) :
    ∃ n, scan .outside cs = some n ∧ n.InWord := by
  cases cs with
  | nil => cases h
  | cons c rest =>
      obtain ⟨hstart, hrest⟩ := Bool.and_eq_true_iff.mp h
      have hend : c ≠ ';' := by
        rintro rfl
        exact absurd hstart (by decide)
      have hrefuses : Mode.refuses .outside c = false := by
        simp [Mode.refuses, hend]
      rw [scan_cons_of_next hrefuses rfl]
      refine scan_inWord (enter_of_startsBare hstart) fun c hmem ↦ ?_
      exact continuesWord_of_continuesBare (List.all_eq_true.mp hrest c hmem)

/-- Between double quotes, a name reads to its end. -/
theorem scan_quote (cs : List Char) : scan .outside (Ident.quote cs) = some .nameEnd := by
  have hinside (c : Char) : scan .name (if c = '"' then ['"', '"'] else [c]) = some .name := by
    split
    · rfl
    · next h => simp [scan, Mode.refuses, Mode.next, Mode.isOutside, h]
  rw [Ident.quote, List.cons_append, scan_cons_of_next rfl rfl, scan_append]
  show (scan .name _).bind _ = _
  rw [scan_flatMap hinside]
  rfl

/-- A name is closed however it is written. -/
theorem escaped_closed (name : Ident) : Closed name.escaped := by
  unfold Ident.escaped
  split
  · next h =>
    obtain ⟨n, hn, hword⟩ := scan_bare (Bool.and_eq_true_iff.mp h).1
    exact closed_iff.mpr ⟨n, hn, hword.isOutside⟩
  · refine closed_iff.mpr ⟨.nameEnd, ?_, rfl⟩
    rw [String.toList_ofList]
    exact scan_quote _

/-! ## Literals -/

/-- Between single quotes, a literal without backslashes reads to its end. -/
theorem scan_quoted (cs : List Char) :
    scan .outside ('\'' :: doubled '\'' cs ++ ['\'']) = some .quotedEnd := by
  have hinside (c : Char) : scan .quoted (if c = '\'' then [c, c] else [c]) = some .quoted := by
    split
    · next h =>
      subst h
      rfl
    · next h => simp [scan, Mode.refuses, Mode.next, Mode.isOutside, h]
  rw [List.cons_append, scan_cons_of_next rfl rfl, scan_append]
  show (scan .quoted _).bind _ = _
  rw [doubled, scan_flatMap hinside]
  rfl

/-- Between `E'` and a quote, a literal reads to its end. -/
theorem scan_escaped (cs : List Char) :
    scan .outside ('E' :: '\'' :: doubled '\\' (doubled '\'' cs) ++ ['\'']) = some .escapedEnd := by
  have hinside (c : Char) :
      scan .escaped ((if c = '\'' then [c, c] else [c]).flatMap
        fun c ↦ if c = '\\' then [c, c] else [c]) = some .escaped := by
    by_cases hquote : c = '\''
    · subst hquote
      rfl
    · by_cases hbackslash : c = '\\'
      · subst hbackslash
        rfl
      · simp [scan, Mode.refuses, Mode.next, Mode.isOutside, hquote, hbackslash]
  rw [List.cons_append, List.cons_append, scan_cons_of_next rfl rfl, scan_cons_of_next rfl rfl,
    scan_append]
  show (scan .escaped _).bind _ = _
  rw [doubled, doubled, List.flatMap_assoc, scan_flatMap hinside]
  rfl

/-- A literal is closed whatever it stands for. -/
theorem literal_closed (text : String) : Closed (literal text) := by
  unfold literal literalChars
  split
  · refine closed_iff.mpr ⟨.escapedEnd, ?_, rfl⟩
    rw [String.toList_ofList]
    exact scan_escaped _
  · refine closed_iff.mpr ⟨.quotedEnd, ?_, rfl⟩
    rw [String.toList_ofList]
    exact scan_quoted _

/-! ## Types -/

theorem next?_eq_none {s : TypeLiteral.State} (hletter : TypeLiteral.isLetter c = false)
    (hword : TypeLiteral.isWordChar c = false) (hdigit : Text.isDecimalDigit c = false)
    (hfixed : [' ', '(', ')', ',', '[', ']'].contains c = false) : s.next? c = none := by
  simp only [List.contains_cons, List.contains_nil, Bool.or_false, Bool.or_eq_false_iff,
    beq_eq_false_iff_ne, ne_eq] at hfixed
  obtain ⟨hblank, hopen, hclose, hcomma, hbracket, hbracketEnd⟩ := hfixed
  cases s <;> simp [TypeLiteral.State.next?, hletter, hword, hdigit, hblank, hopen, hclose, hcomma,
    hbracket, hbracketEnd]

theorem next?_special (s : TypeLiteral.State) (hc : c ∈ special) : s.next? c = none := by
  have hletter : special.any TypeLiteral.isLetter = false := rfl
  have hword : special.any TypeLiteral.isWordChar = false := rfl
  have hdigit : special.any Text.isDecimalDigit = false := by decide +kernel
  have hfixed : special.any [' ', '(', ')', ',', '[', ']'].contains = false := rfl
  simp only [List.any_eq_false, Bool.not_eq_true] at hletter hword hdigit hfixed
  exact next?_eq_none (hletter c hc) (hword c hc) (hdigit c hc) (hfixed c hc)

/-- Every character of an accepted text is a step. -/
theorem exists_next?_of_accepts {s : TypeLiteral.State} {rest : List Char}
    (h : TypeLiteral.accepts s (cs ++ c :: rest) = true) :
    ∃ before behind, TypeLiteral.State.next? before c = some behind ∧
      TypeLiteral.accepts behind rest = true := by
  induction cs generalizing s with
  | nil =>
      rw [List.nil_append, TypeLiteral.accepts] at h
      split at h
      · next behind hnext => exact ⟨s, behind, hnext, h⟩
      · cases h
  | cons d cs ih =>
      rw [List.cons_append, TypeLiteral.accepts] at h
      split at h
      · exact ih h
      · cases h

theorem calm_of_accepts {s : TypeLiteral.State} (h : TypeLiteral.accepts s cs = true) :
    ∀ c ∈ cs, isCalm c = true := by
  intro c hc
  obtain ⟨first, rest, rfl⟩ := List.append_of_mem hc
  obtain ⟨before, behind, hnext, -⟩ := exists_next?_of_accepts h
  rw [isCalm, Bool.not_eq_true', ← Bool.not_eq_true, List.contains_iff_mem]
  intro hmem
  rw [next?_special before hmem] at hnext
  cases hnext

/-- A type that passes the check is closed. -/
theorem typeLiteral_closed (h : isTypeLiteral text = true) : Closed text :=
  closed_of_calm (calm_of_accepts h)

/-! ## Numbers -/

/-- The characters of numbers: wherever no quotation has ended they can be read on. -/
def Plainly (cs : List Char) : Prop :=
  ∀ m : Mode, m.IsPlain → ∃ n, scan m cs = some n ∧ n.IsPlain

theorem plainly_of_calm (h : ∀ c ∈ cs, isCalm c = true) : Plainly cs :=
  fun _ hm ↦ scan_calm hm h

theorem Plainly.append {first last : List Char} (hfirst : Plainly first) (hlast : Plainly last) :
    Plainly (first ++ last) := by
  intro k hk
  obtain ⟨m, hm, hplain⟩ := hfirst k hk
  obtain ⟨n, hn, hend⟩ := hlast m hplain
  refine ⟨n, ?_, hend⟩
  rw [scan_append, hm]
  exact hn

theorem Plainly.cons (hc : isCalm c = true) (h : Plainly cs) : Plainly (c :: cs) :=
  (plainly_of_calm (List.forall_mem_singleton.mpr hc)).append h

theorem Plainly.closed (h : Plainly cs) : Closed (String.ofList cs) := by
  obtain ⟨n, hn, hplain⟩ := h .outside (.inl rfl)
  refine closed_iff.mpr ⟨n, ?_, hplain.isOutside⟩
  rw [String.toList_ofList]
  exact hn

theorem step_dash (hm : m = .outside ∨ m.InWord) : m.refuses '-' = false ∧ m.next '-' = .dash := by
  rcases hm with rfl | rfl | rfl
  · exact ⟨rfl, rfl⟩
  · exact ⟨rfl, rfl⟩
  · exact ⟨rfl, rfl⟩

/-- A minus sign behind a calm character does not start a comment. -/
theorem Plainly.cons_dash (hc : isCalm c = true) (h : Plainly cs) : Plainly (c :: '-' :: cs) := by
  intro m hm
  obtain ⟨hrefuses, hnext⟩ := step_calm hm hc
  obtain ⟨hrefusesDash, hdash⟩ := step_dash hnext
  rw [scan_cons_of_next hrefuses rfl, scan_cons_of_next hrefusesDash hdash]
  exact h .dash (.inr (.inr rfl))

theorem Plainly.nil : Plainly [] := plainly_of_calm (List.forall_mem_nil _)

theorem plainly_of_mem_digits (h : cs ∈ digits) : Plainly cs :=
  plainly_of_calm fun _ hc ↦ isCalm_of rfl ((Text.mem_run_iff.mp h).2 _ hc)

theorem plainly_of_mem_decimal (h : cs ∈ decimal) : Plainly cs := by
  obtain ⟨whole, hwhole, fraction, hfraction, rfl⟩ := Language.mem_mul.mp h
  refine (plainly_of_mem_digits hwhole).append ?_
  rcases hfraction with rfl | ⟨_, ⟨_, rfl, rfl⟩, ds, hds, rfl⟩
  · exact .nil
  · exact .cons rfl (plainly_of_mem_digits hds)

theorem plainly_of_mem_exponent (h : cs ∈ exponent) : Plainly cs := by
  rw [exponent, mul_assoc] at h
  obtain ⟨_, ⟨_, rfl, rfl⟩, _, ⟨sign, hsign, ds, hds, rfl⟩, rfl⟩ := h
  rcases hsign with rfl | ⟨_, rfl | rfl, rfl⟩
  · exact .cons rfl (plainly_of_mem_digits hds)
  · exact .cons rfl (.cons rfl (plainly_of_mem_digits hds))
  · exact (plainly_of_mem_digits hds).cons_dash rfl

theorem plainly_of_mem_magnitude (h : cs ∈ magnitude) : Plainly cs := by
  obtain ⟨ds, hds, behind, hbehind, rfl⟩ := Language.mem_mul.mp h
  refine (plainly_of_mem_decimal hds).append ?_
  rcases hbehind with rfl | hexponent
  · exact .nil
  · exact plainly_of_mem_exponent hexponent

/-- Behind a sign, a number may start with any character but a second sign. -/
theorem Plainly.closed_neg (h : Plainly cs) : Closed (String.ofList ('-' :: cs)) := by
  obtain ⟨n, hn, hplain⟩ := h .dash (.inr (.inr rfl))
  refine closed_iff.mpr ⟨n, ?_, hplain.isOutside⟩
  rw [String.toList_ofList, scan_cons_of_next rfl rfl]
  exact hn

theorem numeral_closed (h : text.toList ∈ numeral) : Closed text := by
  obtain ⟨sign, hsign, cs, hcs, hcases⟩ := Language.mem_mul.mp h
  obtain rfl : String.ofList (sign ++ cs) = text := by rw [hcases, String.ofList_toList]
  rcases hsign with rfl | ⟨_, rfl, rfl⟩
  · exact (plainly_of_mem_magnitude hcs).closed
  · exact (plainly_of_mem_magnitude hcs).closed_neg

/-- The default of a column is closed. -/
theorem defaultExpression_closed {value : Json} (h : defaultExpression? value = some text) :
    Closed text := by
  cases isDefault_of_defaultExpression? h with
  | fixed known =>
      have hfixed : ("TRUE" :: "FALSE" :: defaultFunctions).all
          (fun f ↦ (scan .outside f.toList).any Mode.isOutside) = true := by
        decide +kernel
      exact List.all_eq_true.mp hfixed _ known
  | number hnumeral => exact numeral_closed hnumeral
  | literal quoted quotes => exact quotes ▸ literal_closed quoted

/-! ## Placeholders -/

theorem le_toNat_of_isLower (h : c.isLower = true) : 97 ≤ c.toNat :=
  UInt32.le_iff_toNat_le.mp (of_decide_eq_true (Bool.and_eq_true_iff.mp h).1)

/-- Letters stand behind the digits. -/
theorem le_toNat_of_isAlpha (h : c.isAlpha = true) : 65 ≤ c.toNat := by
  rcases Bool.or_eq_true_iff.mp h with hupper | hlower
  · exact UInt32.le_iff_toNat_le.mp (of_decide_eq_true hupper).1
  · have hle := le_toNat_of_isLower hlower
    omega

theorem startsWord_of_isDigit (h : c.isDigit = true) : startsWord c = false := by
  have hdigit := Text.toNat_of_isDigit h
  have hunderscore : c ≠ '_' := by
    rintro rfl
    exact absurd h (by decide)
  have halpha : c.isAlpha = false := by
    rw [← Bool.not_eq_true]
    intro halpha
    have hletter := le_toNat_of_isAlpha halpha
    omega
  have hascii : Nat.ble 128 c.toNat = false := by
    rw [← Bool.not_eq_true, Nat.ble_eq]
    omega
  simp [startsWord, halpha, hunderscore, hascii]

/-- Digits behind a dollar sign are a placeholder and not the start of a quotation. -/
theorem scan_dollar (hcs : ∀ c ∈ cs, c.isDigit = true) :
    ∃ n, scan .dollar cs = some n ∧ n.isOutside = true := by
  have hcalm : ∀ c ∈ cs, isCalm c = true := fun c hc ↦ isCalm_of rfl (hcs c hc)
  cases cs with
  | nil => exact ⟨.dollar, rfl, rfl⟩
  | cons c rest =>
      have hc := hcs c List.mem_cons_self
      have hend : c ≠ ';' := by
        rintro rfl
        exact absurd hc (by decide)
      have hdollar : c ≠ '$' := by
        rintro rfl
        exact absurd hc (by decide)
      have hrefuses : Mode.refuses .dollar c = false := by
        simp [Mode.refuses, hend, startsWord_of_isDigit hc]
      have hnext : Mode.next .dollar c = Mode.enter c := by
        rw [Mode.next, if_neg hdollar]
      have henter : (Mode.enter c).IsPlain :=
        (enter_of_isCalm (hcalm c List.mem_cons_self)).imp_right .inl
      rw [scan_cons_of_next hrefuses hnext]
      obtain ⟨n, hn, hplain⟩ :=
        scan_calm henter fun c hmem ↦ hcalm c (List.mem_cons_of_mem _ hmem)
      exact ⟨n, hn, hplain.isOutside⟩

theorem placeholder_closed (p : Placeholder) : Closed p.render := by
  obtain ⟨n, hn, hout⟩ := @scan_dollar (Decimal.digits p.position)
    fun _ ↦ Nat.isDigit_of_mem_toDigits (by decide) (by decide)
  have htext : p.render.toList = '$' :: Decimal.digits p.position := by
    simp [Placeholder.render, Decimal.ofNat]
  refine closed_iff.mpr ⟨n, ?_, hout⟩
  rw [htext, scan_cons_of_next rfl rfl]
  exact hn

end ResourceSchema.Sql
