import ResourceSchema.Proofs.Sql.Quotation

/-!
# What the default of a column stands for

The default of a column comes from a description and may be any JSON value.  Only truth values,
numbers and a few functions are written without quotes; everything else is a literal that reads
back as the text it quotes.  So a default is one expression with the meaning that the description
gives it, and no text in it can be read as SQL.
-/

namespace ResourceSchema.Sql

/-! ## Defaults -/

/-- The text reads as a literal for another one, whatever backslashes mean in literals. -/
def Quotes (text value : String) : Prop :=
  ∀ (escapes : Bool) (rest : List Char), rest.head? ≠ some '\'' →
    readLiteral? escapes (text.toList ++ rest) = some (value, rest)

/-- An expression stands for a JSON value. -/
inductive StandsFor : String → Json → Prop where
  | true : StandsFor "TRUE" (.bool true)
  | false : StandsFor "FALSE" (.bool false)
  | number {n : Json.Number} (numeral : n.render.toList ∈ numeral) : StandsFor n.render (.number n)
  | function {s : String} (known : lowercase s ∈ defaultFunctions) :
      StandsFor (lowercase s) (.string s)
  | string {text s : String} (unknown : lowercase s ∉ defaultFunctions) (quotes : Quotes text s) :
      StandsFor text (.string s)
  | array {text : String} {items : List Json} (quotes : Quotes text (Json.array items).compact) :
      StandsFor text (.array items)
  | object {text : String} {members : List (String × Json)}
      (quotes : Quotes text (Json.object members).compact) : StandsFor text (.object members)

theorem literal_quotes (text : String) : Quotes (literal text) text :=
  fun _ _ ↦ readLiteral?_literal text

theorem defaultExpression?_eq_none_iff {value : Json} :
    defaultExpression? value = none ↔ value = .null := by
  cases value with
  | null => simp [defaultExpression?]
  | bool b => cases b <;> simp [defaultExpression?]
  | number n => simp [defaultExpression?]
  | string s =>
      rw [defaultExpression?]
      split <;> simp
  | array items => simp [defaultExpression?]
  | object members => simp [defaultExpression?]

theorem standsFor_of_defaultExpression? {value : Json} {text : String}
    (h : defaultExpression? value = some text) : StandsFor text value := by
  cases value with
  | null => cases h
  | bool b =>
      cases b with
      | true => exact Option.some.inj h ▸ .true
      | false => exact Option.some.inj h ▸ .false
  | number n => exact Option.some.inj h ▸ .number (render_mem_numeral n)
  | string s =>
      rw [defaultExpression?] at h
      split at h
      · next hmem => exact Option.some.inj h ▸ .function (List.contains_iff_mem.mp hmem)
      · next hmem =>
        exact Option.some.inj h ▸
          .string (fun hmem' ↦ hmem (List.contains_iff_mem.mpr hmem')) (literal_quotes s)
  | array items => exact Option.some.inj h ▸ .array (literal_quotes _)
  | object members => exact Option.some.inj h ▸ .object (literal_quotes _)

/-- **Literals and defaults read back.**  Behind every literal the text is read on where the literal
ends, and what has been read is the text that it quotes.  Nothing but `null` has no default
expression, and every expression stands for its value. -/
theorem literals_read_back :
    (∀ (text : String) (escapes : Bool) (rest : List Char), rest.head? ≠ some '\'' →
      readLiteral? escapes ((literal text).toList ++ rest) = some (text, rest)) ∧
    (∀ value, defaultExpression? value = none ↔ value = .null) ∧
    ∀ value text, defaultExpression? value = some text → StandsFor text value :=
  ⟨fun text _ _ ↦ readLiteral?_literal text, fun _ ↦ defaultExpression?_eq_none_iff,
    fun _ _ ↦ standsFor_of_defaultExpression?⟩

/-- A text that tries to end its literal, and a default that tries to end the statement. -/
theorem literals_read_back_stray :
    (", 1".toList.head? ≠ some '\'' ∧
      readLiteral? true "E'it''s \\\\''', 1".toList = some ("it's \\'", ", 1".toList)) ∧
    defaultExpression? (.string "x'); DROP TABLE cat; --") = some "'x''); DROP TABLE cat; --'" ∧
    StandsFor "'x''); DROP TABLE cat; --'" (.string "x'); DROP TABLE cat; --") := by
  have hhead : ", 1".toList.head? ≠ some '\'' := by decide
  have hdefault : defaultExpression? (.string "x'); DROP TABLE cat; --") =
      some "'x''); DROP TABLE cat; --'" := by decide +kernel
  exact ⟨⟨hhead, literals_read_back.1 "it's \\'" true _ hhead⟩, hdefault,
    literals_read_back.2.2 _ _ hdefault⟩

end ResourceSchema.Sql
