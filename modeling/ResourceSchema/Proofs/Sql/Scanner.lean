import Mathlib.Data.List.Basic

/-!
# Reading SQL text character by character

PostgreSQL reads text between single quotes, in which a quote is written twice; between `E'` and a
quote, where a backslash also hides the next character; between double quotes; and between two
`$$`.  Outside of these it takes the longest word it can, and `;`, `--` and `/*` have a meaning.
`Closed` texts leave the reader outside and use none of the three, so that texts can be put
together as long as what follows a word does not go on with it: `Tail` and `Glue` say so.
-/

namespace ResourceSchema.Sql

/-- Where a reader is in SQL text. -/
inductive Mode where
  /-- Between two tokens. -/
  | outside
  /-- In a word. -/
  | word
  /-- After a word that is only `e` or `E`, which gives a following quote another meaning. -/
  | mark
  | dollar
  | dash
  | slash
  /-- Between single quotes. -/
  | quoted
  /-- After a single quote that ends the literal, unless another one follows. -/
  | quotedEnd
  /-- Between `E'` and a quote. -/
  | escaped
  | backslash
  | escapedEnd
  /-- Between double quotes. -/
  | name
  | nameEnd
  /-- Between two `$$`. -/
  | body
  | bodyDollar
deriving DecidableEq, Repr

/-- May start a word. -/
def startsWord (c : Char) : Bool := c.isAlpha || c = '_' || Nat.ble 128 c.toNat

/-- May stand in a word. -/
def continuesWord (c : Char) : Bool := startsWord c || c.isDigit || c = '$'

namespace Mode

/-- The reader is outside all quotations. -/
def isOutside : Mode → Bool
  | quoted | escaped | backslash | name | body | bodyDollar => false
  | _ => true

/-- After a character with which a token starts. -/
def enter (c : Char) : Mode :=
  if c = '\'' then quoted
  else if c = '"' then name
  else if c = '$' then dollar
  else if c = '-' then dash
  else if c = '/' then slash
  else if c = 'e' ∨ c = 'E' then mark
  else if startsWord c then word
  else outside

/-- After one more character. -/
def next : Mode → Char → Mode
  | outside, c | dash, c | slash, c => enter c
  | word, c => if continuesWord c then word else enter c
  | mark, c => if c = '\'' then escaped else if continuesWord c then word else enter c
  | dollar, c => if c = '$' then body else enter c
  | quoted, c => if c = '\'' then quotedEnd else quoted
  | quotedEnd, c => if c = '\'' then quoted else enter c
  | escaped, c => if c = '\\' then backslash else if c = '\'' then escapedEnd else escaped
  | backslash, _ => escaped
  | escapedEnd, c => if c = '\'' then escaped else enter c
  | name, c => if c = '"' then nameEnd else name
  | nameEnd, c => if c = '"' then name else enter c
  | body, c => if c = '$' then bodyDollar else body
  | bodyDollar, c => if c = '$' then outside else body

/-- The character ends the statement, starts a comment, or starts the tag of a quotation between
`$tag$` and `$tag$`. -/
def refuses : Mode → Char → Bool
  | dash, c => c = ';' || c = '-'
  | slash, c => c = ';' || c = '*'
  | dollar, c => c = ';' || startsWord c
  | m, c => m.isOutside && c = ';'

end Mode

/-- Where the reader is after the characters, if none of them is refused. -/
def scan : Mode → List Char → Option Mode
  | m, [] => some m
  | m, c :: rest => if m.refuses c then none else scan (m.next c) rest

/-- The text ends outside all quotations, and outside of them it neither ends a statement nor starts
a comment. -/
def Closed (text : String) : Prop := (scan .outside text.toList).any Mode.isOutside = true

/-- The pieces of a script between the semicolons that stand outside quotations. -/
def piecesFrom : Mode → List Char → List (List Char)
  | _, [] => [[]]
  | m, c :: rest =>
    if m.isOutside && c = ';' then [] :: piecesFrom .outside rest
    else match piecesFrom (m.next c) rest with
      | [] => [[c]]
      | piece :: pieces => (c :: piece) :: pieces

/-- Pieces without the blanks before them. A piece of blanks is no statement. -/
def trimmed (pieces : List (List Char)) : List String :=
  ((pieces.map fun cs ↦ cs.dropWhile Char.isWhitespace).filter fun cs ↦ !cs.isEmpty).map
    String.ofList

/-- The statements of a script. -/
def statementsOf (script : String) : List String := trimmed (piecesFrom .outside script.toList)

example : Closed "SELECT E'a\\';', \"--\"\"\", $$;$$, e$$ || 'it''s'" := rfl

example : statementsOf "SELECT ';';\n\nSELECT 1;\n" = ["SELECT ';'", "SELECT 1"] := by
  decide +kernel

/-! ## Putting texts together -/

theorem scan_append (m : Mode) (first last : List Char) :
    scan m (first ++ last) = (scan m first).bind fun n ↦ scan n last := by
  induction first generalizing m with
  | nil => rfl
  | cons c rest ih =>
      rw [List.cons_append, scan, scan]
      split
      · rfl
      · exact ih _

theorem scan_cons_of_next {m n : Mode} {c : Char} (hrefuses : m.refuses c = false)
    (hnext : m.next c = n) (cs : List Char) : scan m (c :: cs) = scan n cs := by
  rw [scan, hrefuses, hnext]
  rfl

theorem closed_iff {text : String} :
    Closed text ↔ ∃ m, scan .outside text.toList = some m ∧ m.isOutside = true :=
  Option.any_eq_true _ _

/-- The text ends between two tokens. -/
def Clean (text : String) : Prop := scan .outside text.toList = some .outside

/-- Characters that belong to no word, quotation or comment. -/
def isSeparator (c : Char) : Bool := [' ', '\n', ',', '.', '(', ')'].contains c

/-- The text is closed, also behind any closed text. -/
def Tail (text : String) : Prop := Closed text ∧ text.toList.head?.all isSeparator = true

/-- The text ends between two tokens, also behind any closed text. -/
def Glue (text : String) : Prop := Clean text ∧ text.toList.head?.any isSeparator = true

/-- Outside all quotations, a separator is read in one way. -/
theorem step_separator {m : Mode} {c : Char} (hm : m.isOutside = true)
    (hc : isSeparator c = true) : m.refuses c = false ∧ m.next c = .outside := by
  simp only [isSeparator, List.contains_cons, List.contains_nil, Bool.or_false, Bool.or_eq_true,
    beq_iff_eq] at hc
  rcases hc with rfl | rfl | rfl | rfl | rfl | rfl <;> cases m <;>
    first | exact ⟨rfl, rfl⟩ | cases hm

section Append

variable {m : Mode} {first last text separator : String} {texts : List String}

/-- Behind a closed text, what starts with a separator is read as if it stood alone. -/
theorem scan_separator {c : Char} (hm : m.isOutside = true) (hc : isSeparator c = true)
    (rest : List Char) : scan m (c :: rest) = scan .outside (c :: rest) := by
  obtain ⟨hrefuses, hnext⟩ := step_separator hm hc
  obtain ⟨hrefuses', hnext'⟩ := step_separator (m := .outside) rfl hc
  rw [scan_cons_of_next hrefuses hnext, scan_cons_of_next hrefuses' hnext']

theorem Clean.closed (h : Clean text) : Closed text :=
  closed_iff.mpr ⟨.outside, h, rfl⟩

theorem tail_empty : Tail "" := ⟨rfl, rfl⟩

theorem tail_ite {p : Prop} [Decidable p] (hfirst : Tail first) (hlast : Tail last) :
    Tail (if p then first else last) := by
  split
  · exact hfirst
  · exact hlast

theorem Tail.scan (h : Tail text) (hm : m.isOutside = true) :
    ∃ n, scan m text.toList = some n ∧ n.isOutside = true := by
  obtain ⟨hclosed, hstart⟩ := h
  obtain ⟨n, hn, hend⟩ := closed_iff.mp hclosed
  cases htext : text.toList with
  | nil => exact ⟨m, rfl, hm⟩
  | cons c rest =>
      rw [htext] at hstart hn
      rw [scan_separator hm hstart]
      exact ⟨n, hn, hend⟩

theorem Glue.scan (h : Glue text) (hm : m.isOutside = true) :
    scan m text.toList = some .outside := by
  obtain ⟨hclean, hstart⟩ := h
  unfold Clean at hclean
  cases htext : text.toList with
  | nil =>
      rw [htext] at hstart
      cases hstart
  | cons c rest =>
      rw [htext] at hstart hclean
      rw [scan_separator hm hstart]
      exact hclean

theorem Closed.append_tail (hfirst : Closed first) (hlast : Tail last) :
    Closed (first ++ last) := by
  obtain ⟨m, hm, hout⟩ := closed_iff.mp hfirst
  obtain ⟨n, hn, hend⟩ := hlast.scan hout
  refine closed_iff.mpr ⟨n, ?_, hend⟩
  rw [String.toList_append, scan_append, hm]
  exact hn

theorem Closed.append_glue (hfirst : Closed first) (hlast : Glue last) : Clean (first ++ last) := by
  obtain ⟨m, hm, hout⟩ := closed_iff.mp hfirst
  show Sql.scan .outside (first ++ last).toList = some .outside
  rw [String.toList_append, scan_append, hm]
  exact hlast.scan hout

theorem Clean.append_closed (hfirst : Clean first) (hlast : Closed last) :
    Closed (first ++ last) := by
  obtain ⟨n, hn, hend⟩ := closed_iff.mp hlast
  refine closed_iff.mpr ⟨n, ?_, hend⟩
  rw [String.toList_append, scan_append, hfirst]
  exact hn

theorem Clean.append (hfirst : Clean first) (hlast : Clean last) : Clean (first ++ last) := by
  show Sql.scan .outside (first ++ last).toList = some .outside
  rw [String.toList_append, scan_append, hfirst]
  exact hlast

theorem Tail.append (hfirst : Tail first) (hlast : Tail last) : Tail (first ++ last) := by
  refine ⟨hfirst.1.append_tail hlast, ?_⟩
  rw [String.toList_append]
  cases htext : first.toList with
  | nil => exact hlast.2
  | cons c rest =>
      have hstart := hfirst.2
      rw [htext] at hstart
      exact hstart

theorem Glue.append_closed (hfirst : Glue first) (hlast : Closed last) : Tail (first ++ last) := by
  refine ⟨hfirst.1.append_closed hlast, ?_⟩
  have hstart := hfirst.2
  rw [String.toList_append]
  cases htext : first.toList with
  | nil =>
      rw [htext] at hstart
      cases hstart
  | cons c rest =>
      rw [htext] at hstart
      exact hstart

/-- Closed texts stay closed with a separator between them. -/
theorem closed_intercalate (hseparator : Glue separator) (htexts : ∀ text ∈ texts, Closed text) :
    Closed (separator.intercalate texts) := by
  induction texts with
  | nil =>
      rw [String.intercalate_nil]
      exact tail_empty.1
  | cons text rest ih =>
      have htext := htexts text List.mem_cons_self
      have hrest := ih fun text hmem ↦ htexts text (List.mem_cons_of_mem _ hmem)
      cases rest with
      | nil =>
          rw [String.intercalate_singleton]
          exact htext
      | cons next rest =>
          rw [String.intercalate_cons_cons]
          exact (htext.append_glue hseparator).append_closed hrest

end Append

end ResourceSchema.Sql
