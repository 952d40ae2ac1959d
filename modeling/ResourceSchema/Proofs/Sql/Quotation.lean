import ResourceSchema.Proofs.Sql.Fragment

/-!
# Names and literals read back as what they stand for

The readers of this module take one name or one literal off the front of SQL text and say which
name or text it stands for.  What descriptions bring in is written so that they give it back and
stop where it ends: no text can pass for another one, and nothing of it is read as SQL.
-/

namespace ResourceSchema.Sql

variable {mark c : Char} {escapes : Bool} {cs rest : List Char}

/-! ## Reading -/

/-- What a character behind a backslash stands for.  The numbers of characters are not read. -/
def unescape? (c : Char) : Option Char :=
  if c = 'b' then some '\x08'
  else if c = 'f' then some '\x0c'
  else if c = 'n' then some '\n'
  else if c = 'r' then some '\r'
  else if c = 't' then some '\t'
  else if ['0', '1', '2', '3', '4', '5', '6', '7', 'x', 'u', 'U'].contains c then none
  else some c

/-- What is read and what is left, with one more character read. -/
def prepend (c : Char) (read : List Char × List Char) : List Char × List Char :=
  (c :: read.1, read.2)

/-- Reads to the mark that ends a quotation.  A mark that is written twice stands for itself, and
so may a character behind a backslash. -/
def readQuoted? (mark : Char) (escapes : Bool) : List Char → Option (List Char × List Char)
  | [] => none
  | [c] => if c = mark then some ([], []) else none
  | c :: d :: rest =>
    if c = mark then
      if d = mark then (readQuoted? mark escapes rest).map (prepend mark)
      else some ([], d :: rest)
    else if escapes && c = '\\' then
      (unescape? d).bind fun e ↦ (readQuoted? mark escapes rest).map (prepend e)
    else (readQuoted? mark escapes (d :: rest)).map (prepend c)

/-- Reads a name: between double quotes, or the longest word, which means its lower-case form and
must not be reserved.  Names with the mark `U&` in front of the quote are not read. -/
def readName? : List Char → Option (String × List Char)
  | [] => none
  | c :: rest =>
    if c = '"' then (readQuoted? '"' false rest).map fun read ↦ (String.ofList read.1, read.2)
    else if startsWord c then
      let name := lowercase (String.ofList (c :: rest.takeWhile continuesWord))
      if Ident.reserved.contains name then none
      else some (name, rest.dropWhile continuesWord)
    else none

/-- Reads the name of a table, a point and the name of a column. -/
def readQualified? (cs : List Char) : Option ((String × String) × List Char) :=
  (readName? cs).bind fun table ↦
    match table.2 with
    | '.' :: rest => (readName? rest).map fun column ↦ ((table.1, column.1), column.2)
    | _ => none

/-- Reads a literal.  Whether a backslash has its meaning in every literal is a setting of the
database; behind `E` it always has it. -/
def readLiteral? (escapes : Bool) : List Char → Option (String × List Char)
  | '\'' :: rest =>
    (readQuoted? '\'' escapes rest).map fun read ↦ (String.ofList read.1, read.2)
  | 'E' :: '\'' :: rest | 'e' :: '\'' :: rest =>
    (readQuoted? '\'' true rest).map fun read ↦ (String.ofList read.1, read.2)
  | _ => none

example : readLiteral? false "'it''s \\', 1".toList = some ("it's \\", ", 1".toList) := by
  decide +kernel

example : readName? "Cats.id".toList = some ("cats", ".id".toList) := by decide +kernel

/-! ## Quotations -/

theorem readQuoted?_end (hrest : rest.head? ≠ some mark) :
    readQuoted? mark escapes (mark :: rest) = some ([], rest) := by
  cases rest with
  | nil => simp [readQuoted?]
  | cons d rest =>
      have hd : d ≠ mark := fun h ↦ hrest (congrArg some h)
      simp [readQuoted?, hd]

theorem readQuoted?_twice : readQuoted? mark escapes (mark :: mark :: rest) =
    (readQuoted? mark escapes rest).map (prepend mark) := by
  simp [readQuoted?]

theorem readQuoted?_backslash (hmark : mark ≠ '\\') :
    readQuoted? mark true ('\\' :: '\\' :: rest) =
      (readQuoted? mark true rest).map (prepend '\\') := by
  have hself : unescape? '\\' = some '\\' := rfl
  simp [readQuoted?, hmark.symm, hself]

theorem readQuoted?_other (hmark : c ≠ mark) (hescape : escapes = true → c ≠ '\\') :
    readQuoted? mark escapes (c :: rest) = (readQuoted? mark escapes rest).map (prepend c) := by
  have hplain : ¬((escapes && decide (c = '\\')) = true) := by
    rw [Bool.and_eq_true, decide_eq_true_iff]
    exact fun ⟨h, hc⟩ ↦ hescape h hc
  cases rest with
  | nil => simp [readQuoted?, hmark]
  | cons d rest => rw [readQuoted?, if_neg hmark, if_neg hplain]

theorem doubled_cons : doubled mark (c :: cs) =
    (if c = mark then [c, c] else [c]) ++ doubled mark cs :=
  List.flatMap_cons

/-- Between marks, every mark is written twice, and a backslash only where it has no meaning. -/
theorem readQuoted?_doubled (hrest : rest.head? ≠ some mark) (hcs : escapes = true → '\\' ∉ cs) :
    readQuoted? mark escapes (doubled mark cs ++ mark :: rest) = some (cs, rest) := by
  induction cs with
  | nil => exact readQuoted?_end hrest
  | cons c cs ih =>
      have hread := ih fun h hmem ↦ hcs h (List.mem_cons_of_mem _ hmem)
      rw [doubled_cons, List.append_assoc]
      split
      · next hc =>
        rw [hc, List.cons_append, List.singleton_append, readQuoted?_twice, hread]
        rfl
      · next hc =>
        have hescape (h : escapes = true) : c ≠ '\\' :=
          fun heq ↦ hcs h (heq ▸ List.mem_cons_self)
        rw [List.singleton_append, readQuoted?_other hc hescape, hread]
        rfl

/-- Where a backslash has its meaning, it is written twice as well. -/
theorem readQuoted?_escaped (hrest : rest.head? ≠ some '\'') :
    readQuoted? '\'' true (doubled '\\' (doubled '\'' cs) ++ '\'' :: rest) = some (cs, rest) := by
  induction cs with
  | nil => exact readQuoted?_end hrest
  | cons c cs ih =>
      by_cases hquote : c = '\''
      · have hdoubled : doubled '\\' (doubled '\'' (c :: cs)) =
            '\'' :: '\'' :: doubled '\\' (doubled '\'' cs) := by
          subst hquote
          rfl
        rw [hdoubled, List.cons_append, List.cons_append, readQuoted?_twice, ih, hquote]
        rfl
      · by_cases hbackslash : c = '\\'
        · have hdoubled : doubled '\\' (doubled '\'' (c :: cs)) =
              '\\' :: '\\' :: doubled '\\' (doubled '\'' cs) := by
            subst hbackslash
            rfl
          rw [hdoubled, List.cons_append, List.cons_append, readQuoted?_backslash (by decide), ih,
            hbackslash]
          rfl
        · have hdoubled : doubled '\\' (doubled '\'' (c :: cs)) =
              c :: doubled '\\' (doubled '\'' cs) := by
            rw [doubled_cons, if_neg hquote, List.singleton_append, doubled_cons,
              if_neg hbackslash, List.singleton_append]
          rw [hdoubled, List.cons_append, readQuoted?_other hquote fun _ ↦ hbackslash, ih]
          rfl

/-! ## Literals -/

/-- A literal reads as the text that it quotes, whatever backslashes mean in literals. -/
theorem readLiteral?_literal (text : String) (hrest : rest.head? ≠ some '\'') :
    readLiteral? escapes ((literal text).toList ++ rest) = some (text, rest) := by
  rw [literal, String.toList_ofList, literalChars]
  split
  · rw [List.cons_append, List.cons_append, List.cons_append, List.cons_append, List.append_assoc,
      List.singleton_append, readLiteral?, readQuoted?_escaped hrest]
    simp
  · next h =>
    have hbackslash : '\\' ∉ text.toList := fun hmem ↦ h (List.contains_iff_mem.mpr hmem)
    rw [List.cons_append, List.cons_append, List.append_assoc, List.singleton_append, readLiteral?,
      readQuoted?_doubled hrest fun _ ↦ hbackslash]
    simp

/-! ## Names -/

/-- The text goes on with no name that ends before it. -/
def EndsName (rest : List Char) : Prop :=
  ∀ c, rest.head? = some c → c ≠ '"' ∧ continuesWord c = false

theorem quote_eq (cs : List Char) : Ident.quote cs = '"' :: doubled '"' cs ++ ['"'] := by
  have hdoubled : (cs.flatMap fun c ↦ if c = '"' then ['"', '"'] else [c]) = doubled '"' cs := by
    refine List.flatMap_congr fun c _ ↦ ?_
    split
    · next h => rw [h]
    · rfl
  rw [Ident.quote, hdoubled]

theorem toLower_of_continuesBare (h : Ident.continuesBare c = true) : c.toLower = c := by
  refine dif_neg fun hupper ↦ ?_
  have hrange : 65 ≤ c.toNat ∧ c.toNat ≤ 90 :=
    ⟨UInt32.le_iff_toNat_le.mp hupper.1, UInt32.le_iff_toNat_le.mp hupper.2⟩
  simp only [Ident.continuesBare, Bool.or_eq_true, decide_eq_true_eq] at h
  rcases h with ((hlower | hdigit) | rfl) | rfl
  · have hle := le_toNat_of_isLower hlower
    omega
  · have hle := Text.toNat_of_isDigit hdigit
    omega
  · exact absurd hupper (by decide)
  · exact absurd hupper (by decide)

theorem continuesBare_of_startsBare (h : Ident.startsBare c = true) :
    Ident.continuesBare c = true := by
  rw [Ident.startsBare, Bool.or_eq_true] at h
  rcases h with h | h <;> simp [Ident.continuesBare, h]

/-- A word ends where the text goes on with no name. -/
theorem span_word (hcs : ∀ c ∈ cs, continuesWord c = true) (hrest : EndsName rest) :
    (cs ++ rest).takeWhile continuesWord = cs ∧ (cs ++ rest).dropWhile continuesWord = rest := by
  rw [List.takeWhile_append_of_pos hcs, List.dropWhile_append_of_pos hcs]
  cases rest with
  | nil => simp
  | cons d rest => simp [(hrest d rfl).2]

/-- A bare name reads as itself. -/
theorem readName?_bare {name : Ident} (h : name.isBare = true) (hrest : EndsName rest) :
    readName? (name.raw.toList ++ rest) = some (name.raw, rest) := by
  obtain ⟨hplain, hfree⟩ := Bool.and_eq_true_iff.mp h
  obtain ⟨raw⟩ := name
  dsimp only at *
  cases hcs : raw.toList with
  | nil =>
      rw [hcs] at hplain
      cases hplain
  | cons c cs =>
      rw [hcs] at hplain
      obtain ⟨hstart, hall⟩ := Bool.and_eq_true_iff.mp hplain
      have hbare : ∀ d ∈ c :: cs, Ident.continuesBare d = true :=
        List.forall_mem_cons.mpr ⟨continuesBare_of_startsBare hstart, List.all_eq_true.mp hall⟩
      have hquote : c ≠ '"' := by
        rintro rfl
        exact absurd hstart (by decide)
      have hword := span_word
        (fun d hd ↦ continuesWord_of_continuesBare (hbare d (List.mem_cons_of_mem _ hd))) hrest
      have hlower : lowercase (String.ofList (c :: cs)) = raw := by
        have hmap := List.map_congr_left fun d hd ↦ toLower_of_continuesBare (hbare d hd)
        rw [lowercase, String.toList_ofList, hmap, List.map_id', ← hcs, String.ofList_toList]
      rw [List.cons_append, readName?, if_neg hquote, if_pos (startsWord_of_startsBare hstart),
        hword.1, hword.2, hlower]
      simpa using hfree

theorem readName?_quote (hrest : EndsName rest) :
    readName? (Ident.quote cs ++ rest) = some (String.ofList cs, rest) := by
  have hend : rest.head? ≠ some '"' := fun h ↦ (hrest '"' h).1 rfl
  rw [quote_eq, List.cons_append, List.cons_append, List.append_assoc, List.singleton_append,
    readName?, if_pos rfl, readQuoted?_doubled hend fun h ↦ absurd h Bool.false_ne_true]
  rfl

/-- A name reads back however it is written. -/
theorem readName?_escaped (name : Ident) (hrest : EndsName rest) :
    readName? (name.escaped.toList ++ rest) = some (name.raw, rest) := by
  unfold Ident.escaped
  split
  · next h => exact readName?_bare h hrest
  · rw [String.toList_ofList, readName?_quote hrest, String.ofList_toList]

theorem not_reserved_of_unquoted {name : Ident} (h : name.escaped.toList.head? ≠ some '"') :
    name.raw ∉ Ident.reserved := by
  unfold Ident.escaped at h
  split at h
  · next hbare =>
    have hfree := (Bool.and_eq_true_iff.mp hbare).2
    rw [Bool.not_eq_true', ← Bool.not_eq_true, List.contains_iff_mem] at hfree
    exact hfree
  · rw [String.toList_ofList] at h
    exact absurd rfl h

theorem escaped_injective : Function.Injective Ident.escaped := by
  intro name name' h
  have hend : EndsName [] := nofun
  have hread := readName?_escaped name hend
  rw [h, readName?_escaped name' hend] at hread
  have hraw : name'.raw = name.raw := congrArg Prod.fst (Option.some.inj hread)
  cases name
  cases name'
  exact congrArg Ident.mk hraw.symm

theorem readQualified?_qualify (table column : Ident) (hrest : EndsName rest) :
    readQualified? ((table.qualify column).toList ++ rest) =
      some ((table.raw, column.raw), rest) := by
  have hpoint : EndsName ('.' :: (column.escaped.toList ++ rest)) := by
    intro c hc
    obtain rfl := Option.some.inj hc
    exact ⟨by decide, by decide⟩
  have htext : (table.qualify column).toList ++ rest =
      table.escaped.toList ++ '.' :: (column.escaped.toList ++ rest) := by
    simp [Ident.qualify]
  rw [htext, readQualified?, readName?_escaped table hpoint]
  simp [readName?_escaped column hrest]

/-- **Names read back.**  Behind every name that is written into SQL text, whatever the name is, the
text is read on where the name ends, and what has been read is the name itself.  Only names that are
not reserved go without quotes, two names are never written alike, and a table and its column are
told apart. -/
theorem names_read_back :
    (∀ (name : Ident) (rest : List Char), EndsName rest →
      readName? (name.escaped.toList ++ rest) = some (name.raw, rest)) ∧
    (∀ name : Ident, name.escaped.toList.head? ≠ some '"' → name.raw ∉ Ident.reserved) ∧
    Function.Injective Ident.escaped ∧
    ∀ (table column : Ident) (rest : List Char), EndsName rest →
      readQualified? ((table.qualify column).toList ++ rest) =
        some ((table.raw, column.raw), rest) :=
  ⟨fun name _ ↦ readName?_escaped name, fun _ ↦ not_reserved_of_unquoted, escaped_injective,
    fun table column _ ↦ readQualified?_qualify table column⟩

/-- A table whose name has a quote and a point in it, and a column whose name is a reserved word. -/
theorem names_read_back_user :
    EndsName " = $1".toList ∧
      readName? "\"user\" = $1".toList = some ("user", " = $1".toList) ∧
      (⟨"a\".b"⟩ : Ident).qualify ⟨"user"⟩ = "\"a\"\".b\".\"user\"" ∧
      readQualified? "\"a\"\".b\".\"user\" = $1".toList =
        some (("a\".b", "user"), " = $1".toList) ∧
      (⟨"cat"⟩ : Ident).escaped.toList.head? ≠ some '"' ∧ "cat" ∉ Ident.reserved := by
  have hends : EndsName " = $1".toList := by
    intro c hc
    obtain rfl := Option.some.inj hc
    exact ⟨by decide, by decide⟩
  have hbare : (⟨"cat"⟩ : Ident).escaped.toList.head? ≠ some '"' := by decide +kernel
  exact ⟨hends, names_read_back.1 ⟨"user"⟩ _ hends, by decide +kernel,
    names_read_back.2.2.2 ⟨"a\".b"⟩ ⟨"user"⟩ _ hends, hbare, names_read_back.2.1 ⟨"cat"⟩ hbare⟩

end ResourceSchema.Sql
