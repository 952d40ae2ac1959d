import Mathlib.Data.List.TakeWhile
import ResourceSchema.Proofs.Sql.Fragment

/-!
# Placeholders in SQL text

A placeholder is a dollar sign outside of quotations and words with the digits that follow it.
Where texts are put together at the edges of tokens, the placeholders of the whole are those of the
parts, as long as no part starts with a digit that a placeholder before it would take.  `Holds` says
which placeholders a part has; `Lead`, `Gap` and `Trails` say where it may stand.
-/

namespace ResourceSchema.Sql

/-- The placeholder whose digits come next. -/
def readPlaceholder (cs : List Char) : List Placeholder :=
  match cs.takeWhile Char.isDigit with
  | [] => []
  | digits => [⟨Nat.ofDigitChars 10 digits 0⟩]

/-- The placeholders that a reader comes to. -/
def placeholdersFrom : Mode → List Char → List Placeholder
  | _, [] => []
  | m, c :: rest =>
    match m.next c with
    | .dollar => readPlaceholder rest ++ placeholdersFrom .dollar rest
    | n => placeholdersFrom n rest

/-- The placeholders of a text, in their order. -/
def placeholders (text : String) : List Placeholder := placeholdersFrom .outside text.toList

example : placeholders "SELECT a$1, \"$2\", $$ $3 $$ WHERE b = '$4' AND c = $12" = [⟨12⟩] := by
  decide +kernel

variable {m n : Mode} {c : Char} {cs first last : List Char}

/-! ## Reading on -/

theorem placeholdersFrom_cons (hnext : m.next c = n) (hne : n ≠ .dollar) (cs : List Char) :
    placeholdersFrom m (c :: cs) = placeholdersFrom n cs := by
  rw [placeholdersFrom, hnext]
  split
  · exact absurd rfl hne
  · rfl

theorem Mode.outside_ne_dollar : Mode.outside ≠ .dollar := nofun

theorem placeholdersFrom_cons_dollar (hnext : m.next c = .dollar) (cs : List Char) :
    placeholdersFrom m (c :: cs) = readPlaceholder cs ++ placeholdersFrom .dollar cs := by
  rw [placeholdersFrom, hnext]

/-- The characters do not start with a digit. -/
def StartsClear (cs : List Char) : Prop := cs.head?.any Char.isDigit = false

theorem takeWhile_isDigit_append (hlast : StartsClear last) (first : List Char) :
    (first ++ last).takeWhile Char.isDigit = first.takeWhile Char.isDigit := by
  have hnone : last.takeWhile Char.isDigit = [] := by
    cases last with
    | nil => rfl
    | cons c rest => exact List.takeWhile_cons_of_neg (Bool.eq_false_iff.mp hlast)
  induction first with
  | nil => exact hnone
  | cons c rest ih => rw [List.cons_append, List.takeWhile_cons, List.takeWhile_cons, ih]

/-- The placeholders of two texts in a row, where the second takes no part in those of the
first. -/
theorem placeholdersFrom_append (h : scan m first = some n) (hlast : StartsClear last) :
    placeholdersFrom m (first ++ last) = placeholdersFrom m first ++ placeholdersFrom n last := by
  induction first generalizing m with
  | nil =>
      obtain rfl := Option.some.inj h
      rfl
  | cons c rest ih =>
      rw [scan] at h
      split at h
      · cases h
      · rw [List.cons_append]
        by_cases hnext : m.next c = .dollar
        · rw [placeholdersFrom_cons_dollar hnext, placeholdersFrom_cons_dollar hnext, ← hnext, ih h,
            readPlaceholder, readPlaceholder, takeWhile_isDigit_append hlast, List.append_assoc]
        · rw [placeholdersFrom_cons rfl hnext, placeholdersFrom_cons rfl hnext, ih h]

theorem placeholdersFrom_separator (hm : m.isOutside = true) (hc : isSeparator c = true)
    (rest : List Char) :
    placeholdersFrom m (c :: rest) = placeholdersFrom .outside (c :: rest) := by
  obtain ⟨-, hnext⟩ := step_separator hm hc
  obtain ⟨-, hnext'⟩ := step_separator (m := .outside) rfl hc
  rw [placeholdersFrom_cons hnext nofun, placeholdersFrom_cons hnext' nofun]

/-! ## Parts of a statement -/

/-- A closed text with the placeholders `ps`, which no placeholder before it runs into. -/
structure Holds (text : String) (ps : List Placeholder) : Prop where
  closed : Closed text
  startsClear : StartsClear text.toList
  placeholders : placeholders text = ps

/-- A text with the placeholders `ps` that may stand behind any closed text. -/
structure Trails (text : String) (ps : List Placeholder) : Prop where
  tail : Tail text
  placeholders : placeholders text = ps

/-- A text without placeholders that may stand between any two closed texts. -/
structure Gap (text : String) : Prop where
  glue : Glue text
  placeholders : placeholders text = []

/-- A text with the placeholders `ps` that may stand in front of any closed text. -/
structure Lead (text : String) (ps : List Placeholder) : Prop where
  clean : Clean text
  startsClear : StartsClear text.toList
  placeholders : placeholders text = ps

section Parts

variable {text gap front back : String} {ps qs : List Placeholder}

theorem startsClear_of_separator (h : cs.head?.all isSeparator = true) : StartsClear cs := by
  cases cs with
  | nil => rfl
  | cons c rest =>
      have hc : isSeparator c = true := h
      simp only [isSeparator, List.contains_cons, List.contains_nil, Bool.or_false,
        Bool.or_eq_true, beq_iff_eq] at hc
      rcases hc with rfl | rfl | rfl | rfl | rfl | rfl <;> rfl

theorem StartsClear.append (hfirst : StartsClear first) (hlast : StartsClear last) :
    StartsClear (first ++ last) := by
  cases first with
  | nil => exact hlast
  | cons c rest => exact hfirst

theorem Trails.startsClear (h : Trails text ps) : StartsClear text.toList :=
  startsClear_of_separator h.tail.2

theorem Trails.holds (h : Trails text ps) : Holds text ps :=
  ⟨h.tail.1, h.startsClear, h.placeholders⟩

/-- A text that trails another adds its placeholders behind. -/
theorem Holds.append (hfront : Holds front ps) (hback : Trails back qs) :
    Holds (front ++ back) (ps ++ qs) := by
  refine ⟨hfront.closed.append_tail hback.tail, ?_, ?_⟩
  · rw [String.toList_append]
    exact hfront.startsClear.append hback.startsClear
  · obtain ⟨m, hm, hout⟩ := closed_iff.mp hfront.closed
    have hread : placeholdersFrom m back.toList = Sql.placeholders back := by
      have hseparator := hback.tail.2
      unfold Sql.placeholders
      cases hchars : back.toList with
      | nil => rfl
      | cons c rest =>
          rw [hchars] at hseparator
          exact placeholdersFrom_separator hout hseparator rest
    rw [← hfront.placeholders, ← hback.placeholders, ← hread, Sql.placeholders,
      String.toList_append]
    exact placeholdersFrom_append hm hback.startsClear

theorem placeholders_append_of_clean (hfront : Clean front) (hback : StartsClear back.toList) :
    placeholders (front ++ back) = placeholders front ++ placeholders back := by
  rw [placeholders, String.toList_append]
  exact placeholdersFrom_append hfront hback

theorem Lead.append (hfront : Lead front ps) (hback : Holds back qs) :
    Holds (front ++ back) (ps ++ qs) := by
  refine ⟨hfront.clean.append_closed hback.closed, ?_, ?_⟩
  · rw [String.toList_append]
    exact hfront.startsClear.append hback.startsClear
  · rw [placeholders_append_of_clean hfront.clean hback.startsClear, hfront.placeholders,
      hback.placeholders]

theorem Lead.lead (hfront : Lead front ps) (hback : Lead back qs) :
    Lead (front ++ back) (ps ++ qs) := by
  refine ⟨hfront.clean.append hback.clean, ?_, ?_⟩
  · rw [String.toList_append]
    exact hfront.startsClear.append hback.startsClear
  · rw [placeholders_append_of_clean hfront.clean hback.startsClear, hfront.placeholders,
      hback.placeholders]

theorem Gap.append (hgap : Gap gap) (htext : Holds text ps) : Trails (gap ++ text) ps := by
  refine ⟨hgap.glue.append_closed htext.closed, ?_⟩
  rw [placeholders_append_of_clean hgap.glue.1 htext.startsClear, hgap.placeholders,
    htext.placeholders]
  rfl

theorem Gap.trails (h : Gap gap) : Trails gap [] := by
  refine ⟨⟨h.glue.1.closed, ?_⟩, h.placeholders⟩
  have hseparator := h.glue.2
  cases hgap : gap.toList with
  | nil => rfl
  | cons c rest =>
      rw [hgap] at hseparator
      exact hseparator

theorem Trails.append (hfront : Trails front ps) (hback : Trails back qs) :
    Trails (front ++ back) (ps ++ qs) :=
  ⟨hfront.tail.append hback.tail, (hfront.holds.append hback).placeholders⟩

theorem trails_empty : Trails "" [] := ⟨tail_empty, rfl⟩

/-- Fixed text at the end adds nothing. -/
theorem Holds.close (htext : Holds text ps) (hend : Trails back []) : Holds (text ++ back) ps := by
  have h := htext.append hend
  rwa [List.append_nil] at h

theorem Holds.lead (htext : Holds text ps) (hgap : Gap gap) : Lead (text ++ gap) ps := by
  have h := htext.close hgap.trails
  exact ⟨htext.closed.append_glue hgap.glue, h.startsClear, h.placeholders⟩

theorem Holds.between (hfront : Holds front ps) (hgap : Gap gap) (hback : Holds back qs) :
    Holds (front ++ gap ++ back) (ps ++ qs) :=
  (hfront.lead hgap).append hback

/-- Texts with a gap between them have all their placeholders. -/
theorem holds_intercalate {α : Type} {items : List α} {f : α → String} {q : α → List Placeholder}
    (hgap : Gap gap) (h : ∀ a ∈ items, Holds (f a) (q a)) :
    Holds (gap.intercalate (items.map f)) (items.flatMap q) := by
  induction items with
  | nil => exact trails_empty.holds
  | cons a rest ih =>
      have ha := h a List.mem_cons_self
      have hrest := ih fun b hb ↦ h b (List.mem_cons_of_mem _ hb)
      cases rest with
      | nil =>
          rw [List.map_cons, List.map_nil, String.intercalate_singleton, List.flatMap_singleton]
          exact ha
      | cons b rest =>
          rw [List.map_cons, List.map_cons, String.intercalate_cons_cons, List.flatMap_cons]
          exact ha.between hgap hrest

end Parts

/-! ## Names and placeholders -/

theorem placeholdersFrom_inWord (hm : m.InWord) (hcs : ∀ c ∈ cs, continuesWord c = true) :
    placeholdersFrom m cs = [] := by
  induction cs generalizing m with
  | nil => rfl
  | cons c rest ih =>
      obtain ⟨-, hnext⟩ := step_inWord hm (hcs c List.mem_cons_self)
      rw [placeholdersFrom_cons hnext nofun]
      exact ih (.inl rfl) fun c hmem ↦ hcs c (List.mem_cons_of_mem _ hmem)

theorem Mode.InWord.ne_dollar (h : m.InWord) : m ≠ .dollar := by
  rcases h with rfl | rfl
  · exact nofun
  · exact nofun

theorem placeholdersFrom_bare (h : Ident.isPlain cs = true) :
    placeholdersFrom .outside cs = [] := by
  cases cs with
  | nil => cases h
  | cons c rest =>
      obtain ⟨hstart, hrest⟩ := Bool.and_eq_true_iff.mp h
      have henter := enter_of_startsBare hstart
      have hnext : Mode.next .outside c = Mode.enter c := rfl
      rw [placeholdersFrom_cons hnext henter.ne_dollar]
      refine placeholdersFrom_inWord henter fun c hmem ↦ ?_
      exact continuesWord_of_continuesBare (List.all_eq_true.mp hrest c hmem)

theorem placeholdersFrom_quote (cs : List Char) :
    placeholdersFrom .outside (Ident.quote cs) = [] := by
  have hinside (cs : List Char) : placeholdersFrom .name
      (cs.flatMap (fun c ↦ if c = '"' then ['"', '"'] else [c]) ++ ['"']) = [] := by
    induction cs with
    | nil => rfl
    | cons c rest ih =>
        rw [List.flatMap_cons, List.append_assoc]
        split
        · have hfirst : Mode.next .name '"' = .nameEnd := rfl
          have hsecond : Mode.next .nameEnd '"' = .name := rfl
          rw [List.cons_append, List.singleton_append, placeholdersFrom_cons hfirst nofun,
            placeholdersFrom_cons hsecond nofun]
          exact ih
        · next hc =>
          have hnext : Mode.next .name c = .name := by simp [Mode.next, hc]
          rw [List.singleton_append, placeholdersFrom_cons hnext nofun]
          exact ih
  have hopen : Mode.next .outside '"' = .name := rfl
  rw [Ident.quote, List.cons_append, placeholdersFrom_cons hopen nofun]
  exact hinside cs

theorem not_isDigit_of_startsBare (hc : Ident.startsBare c = true) : c.isDigit = false := by
  rw [← Bool.not_eq_true]
  intro hdigit
  have hword := startsWord_of_isDigit hdigit
  rw [Ident.startsBare, Bool.or_eq_true] at hc
  rcases hc with hlower | hunderscore
  · cases hword.symm.trans (startsWord_of_isLower hlower)
  · rw [of_decide_eq_true hunderscore] at hdigit
    cases hdigit

/-- A name has no placeholders however it is written. -/
theorem escaped_holds (name : Ident) : Holds name.escaped [] := by
  refine ⟨escaped_closed name, ?_, ?_⟩
  · unfold Ident.escaped
    split
    · next h =>
      have hplain := (Bool.and_eq_true_iff.mp h).1
      cases hchars : name.raw.toList with
      | nil => rfl
      | cons c rest =>
          rw [hchars] at hplain
          exact not_isDigit_of_startsBare (Bool.and_eq_true_iff.mp hplain).1
    · rw [String.toList_ofList]
      rfl
  · unfold Ident.escaped placeholders
    split
    · next h => exact placeholdersFrom_bare (Bool.and_eq_true_iff.mp h).1
    · rw [String.toList_ofList]
      exact placeholdersFrom_quote _

theorem gap_point : Gap "." := ⟨⟨rfl, rfl⟩, rfl⟩

theorem qualify_holds (table column : Ident) : Holds (table.qualify column) [] :=
  (escaped_holds table).between gap_point (escaped_holds column)

theorem enter_of_isDigit (hc : c.isDigit = true) : Mode.enter c = .outside := by
  have hne (d : Char) (hd : d.isDigit = false) : c ≠ d := by
    rintro rfl
    exact nomatch hd.symm.trans hc
  simp [Mode.enter, hne '\'' rfl, hne '"' rfl, hne '$' rfl, hne '-' rfl, hne '/' rfl, hne 'e' rfl,
    hne 'E' rfl, startsWord_of_isDigit hc]

theorem placeholdersFrom_digits (hcs : ∀ c ∈ cs, c.isDigit = true) :
    placeholdersFrom .outside cs = [] := by
  induction cs with
  | nil => rfl
  | cons c rest ih =>
      have hnext : Mode.next .outside c = .outside := enter_of_isDigit (hcs c List.mem_cons_self)
      rw [placeholdersFrom_cons hnext Mode.outside_ne_dollar]
      exact ih fun c hmem ↦ hcs c (List.mem_cons_of_mem _ hmem)

/-- A placeholder reads back as itself. -/
theorem placeholder_holds (p : Placeholder) : Holds p.render [p] := by
  have hdigits : ∀ c ∈ Decimal.digits p.position, c.isDigit = true :=
    fun _ ↦ Nat.isDigit_of_mem_toDigits (by decide) (by decide)
  have htext : p.render.toList = '$' :: Decimal.digits p.position := by
    simp [Placeholder.render, Decimal.ofNat]
  refine ⟨placeholder_closed p, ?_, ?_⟩
  · rw [htext]
    rfl
  · have hdollar : Mode.next .outside '$' = .dollar := rfl
    have hread : readPlaceholder (Decimal.digits p.position) = [p] := by
      rw [readPlaceholder, List.takeWhile_eq_self_iff.mpr hdigits]
      split
      · next hnil => exact absurd hnil Nat.toDigits_ne_nil
      · rw [Decimal.digits, Nat.ofDigitChars_ten_toDigits]
    have hrest : placeholdersFrom .dollar (Decimal.digits p.position) = [] := by
      cases hcs : Decimal.digits p.position with
      | nil => rfl
      | cons c rest =>
          rw [hcs] at hdigits
          have hc := hdigits c List.mem_cons_self
          have hdollar : c ≠ '$' := by
            rintro rfl
            cases hc
          have hnext : Mode.next .dollar c = .outside := by
            rw [Mode.next, if_neg hdollar, enter_of_isDigit hc]
          rw [placeholdersFrom_cons hnext Mode.outside_ne_dollar]
          exact placeholdersFrom_digits fun c hmem ↦ hdigits c (List.mem_cons_of_mem _ hmem)
    rw [placeholders, htext, placeholdersFrom_cons_dollar hdollar, hread, hrest]
    rfl

end ResourceSchema.Sql
