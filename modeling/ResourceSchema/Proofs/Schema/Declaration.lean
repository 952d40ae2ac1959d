import ResourceSchema.Proofs.Schema.Table
import ResourceSchema.Proofs.Sql.Default

/-!
# What the definition of a column says

A column is written as its name, its type and the clauses that its settings state, with nothing
between the type and the clauses that a type could not have in it.  A type is any words, so it may
end in words that read as a clause: then another type with these clauses gives the same text.  The
main theorem says that this is all there is: two fields that are written alike agree in everything,
or one of them has the words of the other's clauses in its type.  No type has a string, a number or
a function call as a default.
-/

namespace ResourceSchema

open Sql

variable {f g : FieldColumn} {c : Char} {cs x s tail : List Char} {e : String}
variable {nullable : Bool} {default : Option String}

/-! ## Clauses -/

/-- The clauses behind the type of a column. -/
def Sql.clauses (nullable : Bool) (default : Option String) : String :=
  (if nullable then "" else " NOT NULL") ++
  (match default with
    | none => ""
    | some expression => " DEFAULT " ++ expression)

theorem clauses_none : clauses true none = "" := rfl

theorem clauses_default (e : String) : clauses true (some e) = " DEFAULT " ++ e := by
  simp [clauses]

theorem clauses_notNull (default : Option String) :
    clauses false default = " NOT NULL" ++ clauses true default := by
  simp [clauses]

namespace FieldColumn

/-- The expression of the default, if there is one. -/
def default? (f : FieldColumn) : Option String := f.type.default.bind defaultExpression?

/-- The clauses that the settings of the field state. -/
def clauses (f : FieldColumn) : String := Sql.clauses f.type.nullable f.default?

/-- The fields have the same settings and the same type. -/
structure Agrees (f g : FieldColumn) : Prop where
  nullable : f.type.nullable = g.type.nullable
  default : f.default? = g.default?
  type : f.type.type = g.type.type

theorem Agrees.symm (h : f.Agrees g) : g.Agrees f := ⟨h.nullable.symm, h.default.symm, h.type.symm⟩

/-- The default expressions that are words. -/
def wordDefaults : List String :=
  ["TRUE", "FALSE", "current_timestamp", "current_date", "current_time", "localtimestamp"]

/-- The type of the first field is that of the second with words behind it that read as clauses of
the second and that the settings of the first do not state. -/
inductive Absorbs (g f : FieldColumn) : Prop where
  | notNull (refuses : f.type.nullable = false) (allows : g.type.nullable = true)
      (default : g.default? = f.default?) (type : g.type.type = f.type.type ++ " NOT NULL")
  | default {word : String} (known : word ∈ wordDefaults) (stated : f.default? = some word)
      (allows : g.type.nullable = true) (unstated : g.default? = none)
      (type : g.type.type = f.type.type ++ f.clauses)

end FieldColumn

theorem isDefault_of_default? (h : f.default? = some e) : IsDefault e := by
  obtain ⟨value, -, hvalue⟩ := Option.bind_eq_some_iff.mp h
  exact isDefault_of_defaultExpression? hvalue

/-- A column is its name, its type and its clauses. -/
theorem exists_toColumn (h : isTypeLiteral f.type.type = true) (resource : String) :
    ∃ c, f.toColumn resource = .ok c ∧
      c.render = f.column.escaped ++ " " ++ (f.type.type ++ f.clauses) := by
  refine ⟨_, toColumn_eq_ok_iff.mpr ⟨h, rfl⟩, ?_⟩
  simp only [Column.render, Bool.false_eq_true, if_false, String.append_empty,
    String.append_assoc]
  rfl

/-! ## Defaults in a type -/

/-- Behind `DEFAULT`, a type goes on with a word or with its modifier. -/
theorem exists_gap_of_accepts {state : TypeLiteral.State}
    (h : TypeLiteral.accepts state (cs ++ " DEFAULT ".toList ++ tail) = true) :
    ∃ modified, TypeLiteral.accepts (.gap modified) tail = true := by
  have hsplit : cs ++ " DEFAULT ".toList ++ tail =
      (cs ++ " DEFAUL".toList) ++ 'T' :: ' ' :: tail := by
    simp
  rw [hsplit] at h
  obtain ⟨before, behind, hnext, haccepts⟩ := exists_next?_of_accepts h
  have hdigit : Text.isDecimalDigit 'T' = false := by decide +kernel
  have hbehind : ∃ modified, behind = .word modified := by
    cases before with
    | start => exact ⟨false, (Option.some.inj hnext).symm⟩
    | word modified | gap modified => exact ⟨modified, (Option.some.inj hnext).symm⟩
    | _ => simp [TypeLiteral.State.next?, hdigit] at hnext
  obtain ⟨modified, rfl⟩ := hbehind
  exact ⟨modified, haccepts⟩

/-- No word starts with a digit. -/
theorem isLetter_of_isDigit (h : c.isDigit = true) : TypeLiteral.isLetter c = false := by
  have hdigit := Text.toNat_of_isDigit h
  rw [← Bool.not_eq_true]
  intro hletter
  simp only [TypeLiteral.isLetter, Bool.or_eq_true, decide_eq_true_eq] at hletter
  rcases hletter with (hletter | rfl) | rfl
  · have halpha := le_toNat_of_isAlpha (Bool.or_eq_true_iff.mpr hletter.symm)
    omega
  · exact absurd h (by decide)
  · exact absurd h (by decide)

/-- A default in a type is a word. -/
theorem mem_wordDefaults_of_accepts {modified : Bool} (h : IsDefault e)
    (haccepts : TypeLiteral.accepts (.gap modified) e.toList = true) :
    e ∈ FieldColumn.wordDefaults := by
  cases h with
  | fixed known =>
      have hfixed : ("TRUE" :: "FALSE" :: defaultFunctions).all
          (fun e ↦ FieldColumn.wordDefaults.contains e ||
            !TypeLiteral.accepts (.gap modified) e.toList) = true := by
        cases modified <;> decide +kernel
      have hword := List.all_eq_true.mp hfixed e known
      rw [haccepts, Bool.not_true, Bool.or_false, List.contains_iff_mem] at hword
      exact hword
  | number hnumeral =>
      obtain ⟨c, rest, hcs, hc⟩ := head_of_mem_numeral hnumeral
      have hnext : (TypeLiteral.State.gap modified).next? c = none := by
        have hletter : TypeLiteral.isLetter c = false := by
          rcases hc with rfl | hdigit
          · rfl
          · exact isLetter_of_isDigit hdigit
        have hopen : c ≠ '(' := by
          rintro rfl
          exact absurd hc (by decide)
        simp [TypeLiteral.State.next?, hletter, hopen]
      rw [hcs, TypeLiteral.accepts, hnext] at haccepts
      cases haccepts
  | literal text quotes =>
      have hmem : '\'' ∈ e.toList := by
        rw [quotes]
        obtain ⟨rest, hrest | hrest⟩ := literal_starts text
        · rw [hrest]
          exact List.mem_cons_self
        · rw [hrest]
          exact List.mem_cons_of_mem _ List.mem_cons_self
      exact absurd (calm_of_accepts haccepts _ hmem) (by decide)

/-! ## Reading the clauses -/

/-- The text goes on like a clause behind its blank. -/
def Opens (cs : List Char) : Prop := ∃ rest, cs = 'N' :: 'O' :: rest ∨ cs = 'D' :: rest

/-- What goes on at a blank either starts here or behind the first word. -/
theorem skip_word (body tail : List Char) (hbody : ' ' ∉ body)
    (h : x ++ ' ' :: s = ' ' :: (body ++ tail)) :
    x = [] ∨ ∃ y, x = ' ' :: (body ++ y) ∧ y ++ ' ' :: s = tail := by
  cases x with
  | nil => exact .inl rfl
  | cons c x =>
      obtain ⟨rfl, hrest⟩ := List.cons.inj h
      rcases List.append_eq_append_iff.mp hrest with ⟨y, hy, htail⟩ | ⟨y, hy, htail⟩
      · cases y with
        | nil => exact .inr ⟨[], by rw [hy]; simp, htail⟩
        | cons d y =>
            obtain ⟨rfl, -⟩ := List.cons.inj htail
            exact absurd (hy ▸ List.mem_append_right x List.mem_cons_self) hbody
      · exact .inr ⟨y, by rw [hy], htail.symm⟩

/-- No clause starts within a default, unless behind a quote. -/
theorem eq_nil_of_default (he : IsDefault e) (hs : Opens s) (hquote : '\'' ∉ x)
    (h : x ++ ' ' :: s = " DEFAULT ".toList ++ e.toList) : x = [] := by
  have hbody : ' ' ∉ "DEFAULT".toList := by decide
  rcases skip_word _ (' ' :: e.toList) hbody h with hx | ⟨y, rfl, hy⟩
  · exact hx
  · cases y with
    | nil =>
        obtain ⟨-, rfl⟩ := List.cons.inj hy
        obtain ⟨rest, hrest | hrest⟩ := hs
        · exact absurd rfl (head_ne_of_isDefault he hrest).1
        · exact absurd rfl (head_ne_of_isDefault he hrest).2
    | cons d y =>
        obtain ⟨-, hdefault⟩ := List.cons.inj hy
        have hmem := quote_mem_of_blank he hdefault.symm
        refine absurd (List.mem_cons_of_mem _ ?_) hquote
        exact List.mem_append_right _ (List.mem_cons_of_mem _ hmem)

theorem opens_of_clauses (h : clauses nullable default ≠ "") :
    ∃ s, (clauses nullable default).toList = ' ' :: s ∧ Opens s := by
  cases nullable with
  | false => exact ⟨_, by rw [clauses_notNull, String.toList_append]; rfl, _, .inl rfl⟩
  | true =>
      cases default with
      | none => exact absurd clauses_none h
      | some e => exact ⟨_, by rw [clauses_default, String.toList_append]; rfl, _, .inr rfl⟩

/-- The default is known from its clause. -/
theorem clauses_true_inj {other : Option String} (h : clauses true default = clauses true other) :
    default = other := by
  cases default with
  | none =>
      cases other with
      | none => rfl
      | some e =>
          rw [clauses_none, clauses_default] at h
          exact absurd (congrArg String.toList h) (by simp)
  | some d =>
      cases other with
      | none =>
          rw [clauses_none, clauses_default] at h
          exact absurd (congrArg String.toList h) (by simp)
      | some e =>
          rw [clauses_default, clauses_default, String.append_right_inj] at h
          rw [h]

theorem clauses_true_ne (default other : Option String) :
    clauses true default ≠ clauses false other := by
  intro h
  rw [clauses_notNull] at h
  cases default with
  | none =>
      rw [clauses_none] at h
      exact absurd (congrArg String.toList h) (by simp)
  | some d =>
      rw [clauses_default] at h
      exact absurd (congrArg String.toList h) (by simp)

/-- The clauses say what the settings are. -/
theorem clauses_inj {allows : Bool} {other : Option String}
    (h : clauses nullable default = clauses allows other) :
    nullable = allows ∧ default = other := by
  cases nullable with
  | true =>
      cases allows with
      | true => exact ⟨rfl, clauses_true_inj h⟩
      | false => exact absurd h (clauses_true_ne _ _)
  | false =>
      cases allows with
      | true => exact absurd h.symm (clauses_true_ne _ _)
      | false =>
          rw [clauses_notNull, clauses_notNull, String.append_right_inj] at h
          exact ⟨rfl, clauses_true_inj h⟩

/-- Where clauses go on like clauses, they start over or `NOT NULL` is behind. -/
theorem clauses_split (hdefault : ∀ e, default = some e → IsDefault e) (hs : Opens s)
    (hquote : '\'' ∉ x) (h : x ++ ' ' :: s = (clauses nullable default).toList) :
    x = [] ∨ nullable = false ∧ x = " NOT NULL".toList := by
  have hinDefault {y : List Char} (hy : '\'' ∉ y)
      (h : y ++ ' ' :: s = (clauses true default).toList) : y = [] := by
    cases default with
    | none =>
        rw [clauses_none] at h
        exact absurd h (by simp)
    | some e =>
        rw [clauses_default, String.toList_append] at h
        exact eq_nil_of_default (hdefault e rfl) hs hy h
  cases nullable with
  | true => exact .inl (hinDefault hquote h)
  | false =>
      rw [clauses_notNull, String.toList_append] at h
      have hnot : ' ' ∉ "NOT".toList := by decide
      have hnull : ' ' ∉ "NULL".toList := by decide
      rcases skip_word _ (" NULL".toList ++ (clauses true default).toList) hnot h
        with hx | ⟨y, rfl, hy⟩
      · exact .inl hx
      · rcases skip_word _ (clauses true default).toList hnull hy with rfl | ⟨z, rfl, hz⟩
        · obtain ⟨-, rfl⟩ := List.cons.inj hy
          obtain ⟨rest, hrest | hrest⟩ := hs
          · exact absurd (List.cons.inj (List.cons.inj hrest).2).1 (by decide)
          · exact absurd (List.cons.inj hrest).1 (by decide)
        · have hz : z = [] := by
            refine hinDefault (fun hmem ↦ hquote ?_) hz
            exact List.mem_cons_of_mem _ (List.mem_append_right _
              (List.mem_cons_of_mem _ (List.mem_append_right _ hmem)))
          exact .inr ⟨rfl, by rw [hz]; rfl⟩

/-! ## Fields that are written alike -/

/-- A default that is in a type is a word. -/
theorem mem_wordDefaults_of_type {type : String} (he : IsDefault e)
    (h : isTypeLiteral (type ++ clauses nullable (some e)) = true) :
    e ∈ FieldColumn.wordDefaults := by
  have htext : ∃ cs, (type ++ clauses nullable (some e)).toList =
      cs ++ " DEFAULT ".toList ++ e.toList := by
    cases nullable with
    | true => exact ⟨type.toList, by simp [clauses_default]⟩
    | false =>
        exact ⟨type.toList ++ " NOT NULL".toList, by simp [clauses_notNull, clauses_default]⟩
  obtain ⟨cs, hcs⟩ := htext
  rw [isTypeLiteral, hcs] at h
  obtain ⟨modified, haccepts⟩ := exists_gap_of_accepts h
  exact mem_wordDefaults_of_accepts he haccepts

/-- A type that goes on with clauses of another field is the same type, or it absorbs clauses. -/
theorem agrees_or_absorbs (hg : isTypeLiteral g.type.type = true) {words : String}
    (htype : g.type.type = f.type.type ++ words) (h : f.clauses = words ++ g.clauses) :
    f.Agrees g ∨ g.Absorbs f := by
  by_cases hnone : g.clauses = ""
  · -- all clauses of the first field are in the type of the second
    obtain ⟨hallows, hunstated⟩ := clauses_inj (hnone.trans clauses_none.symm)
    rw [hnone, String.append_empty] at h
    cases hdefault : f.default? with
    | none =>
        cases hnullable : f.type.nullable with
        | true =>
            have hwords : words = "" := by
              rw [← h, FieldColumn.clauses, hdefault, hnullable, clauses_none]
            exact .inl ⟨hnullable.trans hallows.symm, hdefault.trans hunstated.symm,
              by rw [htype, hwords, String.append_empty]⟩
        | false =>
            have hwords : words = " NOT NULL" := by
              rw [← h, FieldColumn.clauses, hdefault, hnullable, clauses_notNull, clauses_none,
                String.append_empty]
            exact .inr (.notNull hnullable hallows (hunstated.trans hdefault.symm)
              (hwords ▸ htype))
    | some e =>
        have hwords : words = clauses f.type.nullable (some e) := by
          rw [← h, FieldColumn.clauses, hdefault]
        rw [htype, hwords] at hg
        exact .inr (.default (mem_wordDefaults_of_type (isDefault_of_default? hdefault) hg) hdefault
          hallows hunstated (h ▸ htype))
  · obtain ⟨s, hs, hopens⟩ := opens_of_clauses hnone
    have hquote : '\'' ∉ words.toList := by
      intro hmem
      have hcalm := calm_of_accepts hg '\''
      rw [htype, String.toList_append] at hcalm
      exact absurd (hcalm (List.mem_append_right _ hmem)) (by decide)
    have hsplit : words.toList ++ ' ' :: s = (clauses f.type.nullable f.default?).toList := by
      rw [← hs, ← String.toList_append]
      exact congrArg String.toList h.symm
    rcases clauses_split (fun e ↦ isDefault_of_default?) hopens hquote hsplit with
      hwords | ⟨hrefuses, hwords⟩
    · obtain rfl : words = "" := String.toList_inj.mp hwords
      rw [String.empty_append] at h
      obtain ⟨hnullable, hdefault⟩ := clauses_inj h
      exact .inl ⟨hnullable, hdefault, by rw [htype, String.append_empty]⟩
    · obtain rfl : words = " NOT NULL" := String.toList_inj.mp hwords
      rw [FieldColumn.clauses, hrefuses, clauses_notNull, String.append_right_inj] at h
      obtain ⟨hallows, hdefault⟩ := clauses_inj h
      exact .inr (.notNull hrefuses hallows.symm hdefault.symm htype)

theorem FieldColumn.Absorbs.text_eq (h : g.Absorbs f) :
    g.type.type ++ g.clauses = f.type.type ++ f.clauses := by
  cases h with
  | notNull refuses allows default type =>
      rw [type, FieldColumn.clauses, FieldColumn.clauses, refuses, allows, default, clauses_notNull,
        String.append_assoc]
  | default known stated allows unstated type =>
      have hnone : g.clauses = "" := by rw [FieldColumn.clauses, allows, unstated, clauses_none]
      rw [type, hnone, String.append_empty]

theorem text_eq_iff (hf : isTypeLiteral f.type.type = true)
    (hg : isTypeLiteral g.type.type = true) :
    f.type.type ++ f.clauses = g.type.type ++ g.clauses ↔
      f.Agrees g ∨ f.Absorbs g ∨ g.Absorbs f := by
  constructor
  · intro h
    have hlists := congrArg String.toList h
    rw [String.toList_append, String.toList_append] at hlists
    rcases List.append_eq_append_iff.mp hlists with ⟨x, htype, -⟩ | ⟨x, htype, -⟩
    · have htext : g.type.type = f.type.type ++ String.ofList x := by
        rw [← String.toList_inj, htype, String.toList_append, String.toList_ofList]
      rw [htext, String.append_assoc, String.append_right_inj] at h
      exact (agrees_or_absorbs hg htext h).imp_right .inr
    · have htext : f.type.type = g.type.type ++ String.ofList x := by
        rw [← String.toList_inj, htype, String.toList_append, String.toList_ofList]
      rw [htext, String.append_assoc, String.append_right_inj] at h
      exact (agrees_or_absorbs hf htext h.symm).imp FieldColumn.Agrees.symm .inl
  · rintro (hagrees | habsorbs | habsorbs)
    · rw [FieldColumn.clauses, FieldColumn.clauses, hagrees.nullable, hagrees.default, hagrees.type]
    · exact habsorbs.text_eq
    · exact habsorbs.text_eq.symm

/-- **What a column that is written alike says.**  Two fields of one column are written alike
exactly if they agree in their type and their settings, or if the type of one of them is the type of
the other with clauses of the other behind it: `NOT NULL` where the rest is the same, or all clauses
where the default is a word, and then it has no settings of its own. -/
theorem written_alike_iff (hcolumn : f.column = g.column) (hf : isTypeLiteral f.type.type = true)
    (hg : isTypeLiteral g.type.type = true) (resource other : String) :
    ∃ c d, f.toColumn resource = .ok c ∧ g.toColumn other = .ok d ∧
      (c.render = d.render ↔ f.Agrees g ∨ f.Absorbs g ∨ g.Absorbs f) := by
  obtain ⟨c, hc, hcrender⟩ := exists_toColumn hf resource
  obtain ⟨d, hd, hdrender⟩ := exists_toColumn hg other
  refine ⟨c, d, hc, hd, ?_⟩
  rw [hcrender, hdrender, hcolumn, String.append_right_inj, text_eq_iff hf hg]

/-- A note that refuses NULL by its setting. -/
def strictNote : FieldColumn := ⟨"note", ⟨"note"⟩, { type := "text", nullable := false }⟩

/-- A note that refuses NULL by the words of its type alone. -/
def wordyNote : FieldColumn := ⟨"note", ⟨"note"⟩, { type := "text NOT NULL" }⟩

/-- Both notes are accepted and written alike, and they agree neither in the setting nor in the
type. -/
theorem written_alike_notes :
    strictNote.column = wordyNote.column ∧ isTypeLiteral strictNote.type.type = true ∧
      isTypeLiteral wordyNote.type.type = true ∧
      (∃ c d, strictNote.toColumn "cat" = .ok c ∧ wordyNote.toColumn "cat" = .ok d ∧
        c.render = d.render) ∧
      strictNote.type.nullable ≠ wordyNote.type.nullable ∧
      strictNote.type.type ≠ wordyNote.type.type := by
  have hstrict : isTypeLiteral strictNote.type.type = true := by decide +kernel
  have hwordy : isTypeLiteral wordyNote.type.type = true := by decide +kernel
  obtain ⟨c, hc, hcrender⟩ := exists_toColumn hstrict "cat"
  obtain ⟨d, hd, hdrender⟩ := exists_toColumn hwordy "cat"
  have halike : c.render = d.render := by
    rw [hcrender, hdrender]
    decide +kernel
  exact ⟨rfl, hstrict, hwordy, ⟨c, d, hc, hd, halike⟩, by decide, by decide⟩

/-- A flag whose default is a setting. -/
def strictFlag : FieldColumn :=
  ⟨"flag", ⟨"flag"⟩, { type := "boolean", nullable := false, default := some (.bool true) }⟩

/-- A flag whose default is in the words of its type. -/
def wordyFlag : FieldColumn := ⟨"flag", ⟨"flag"⟩, { type := "boolean NOT NULL DEFAULT TRUE" }⟩

theorem written_alike_iff_flags :
    strictFlag.column = wordyFlag.column ∧ isTypeLiteral strictFlag.type.type = true ∧
      isTypeLiteral wordyFlag.type.type = true ∧ wordyFlag.Absorbs strictFlag ∧
      ∃ c d, strictFlag.toColumn "cat" = .ok c ∧ wordyFlag.toColumn "dog" = .ok d ∧
        c.render = d.render := by
  have hstrict : isTypeLiteral strictFlag.type.type = true := by decide +kernel
  have hwordy : isTypeLiteral wordyFlag.type.type = true := by decide +kernel
  have habsorbs : wordyFlag.Absorbs strictFlag :=
    .default (List.mem_cons_self (a := "TRUE")) rfl rfl rfl (by decide +kernel)
  have hcolumn : strictFlag.column = wordyFlag.column := rfl
  obtain ⟨c, d, hc, hd, halike⟩ := written_alike_iff hcolumn hstrict hwordy "cat" "dog"
  exact ⟨hcolumn, hstrict, hwordy, habsorbs, c, d, hc, hd, halike.mpr (.inr (.inr habsorbs))⟩

end ResourceSchema
