import ResourceSchema.Description.Completion
import ResourceSchema.Proofs.Request.Preparation
import ResourceSchema.Proofs.Schema.Migration
import ResourceSchema.Proofs.Sql.Command
import ResourceSchema.Proofs.Sql.Statement

/-!
# No description escapes its place in SQL text

Every statement of a migration is closed, and so is every statement of a request into which no
authorization puts a condition of its own, whatever the names, types and defaults of the
descriptions are.  A script can therefore be taken apart at the semicolons outside quotations.
-/

namespace ResourceSchema

open Sql

variable {s : DefinitionSet} {m : Migration} {d : Definition} {l : Link} {t : Table} {step : Step}
variable {text : String} {texts : List String} {cs rest : List Char} {mode last : Mode}
variable {parts : List ResourceTable}

/-! ## Taking a script apart -/

theorem refuses_semicolon (h : mode.isOutside = true) : mode.refuses ';' = true := by
  cases mode <;> first | rfl | cases h

/-- A closed text in front of a semicolon is a piece. -/
theorem piecesFrom_of_scan (h : scan mode cs = some last) (hlast : last.isOutside = true)
    (rest : List Char) :
    piecesFrom mode (cs ++ ';' :: rest) = cs :: piecesFrom .outside rest := by
  induction cs generalizing mode with
  | nil =>
      obtain rfl := Option.some.inj h
      rw [List.nil_append, piecesFrom, hlast]
      rfl
  | cons c cs ih =>
      rw [scan] at h
      split at h
      · cases h
      · next hrefuses =>
        have hinside : (mode.isOutside && decide (c = ';')) = false := by
          rw [← Bool.not_eq_true, Bool.and_eq_true, decide_eq_true_eq]
          rintro ⟨hout, rfl⟩
          exact hrefuses (refuses_semicolon hout)
        rw [List.cons_append, piecesFrom, hinside, ih h]
        rfl

theorem trimmed_cons_blank {c : Char} (hc : c.isWhitespace = true) (piece : List Char)
    (pieces : List (List Char)) : trimmed ((c :: piece) :: pieces) = trimmed (piece :: pieces) := by
  rw [trimmed, trimmed, List.map_cons, List.map_cons, List.dropWhile_cons_of_pos hc]

theorem trimmed_newline (cs : List Char) :
    trimmed (piecesFrom .outside ('\n' :: cs)) = trimmed (piecesFrom .outside cs) := by
  have hinside : (Mode.isOutside .outside && decide ('\n' = ';')) = false := rfl
  have hnext : Mode.next .outside '\n' = .outside := rfl
  rw [piecesFrom, hinside, hnext]
  cases piecesFrom .outside cs with
  | nil => rfl
  | cons piece pieces => exact trimmed_cons_blank rfl piece pieces

/-- The text starts with a token. -/
def StartsToken (text : String) : Prop :=
  ∃ c cs, text.toList = c :: cs ∧ c.isWhitespace = false

theorem StartsToken.append {first : String} (h : StartsToken first) (text : String) :
    StartsToken (first ++ text) := by
  obtain ⟨c, cs, hfirst, hc⟩ := h
  exact ⟨c, cs ++ text.toList, by rw [String.toList_append, hfirst]; rfl, hc⟩

theorem trimmed_closed (hclosed : Closed text) (hstart : StartsToken text) (rest : List Char) :
    trimmed (piecesFrom .outside (text.toList ++ ';' :: rest)) =
      text :: trimmed (piecesFrom .outside rest) := by
  obtain ⟨last, hscan, hlast⟩ := closed_iff.mp hclosed
  obtain ⟨c, cs, htext, hc⟩ := hstart
  have hdrop : text.toList.dropWhile Char.isWhitespace = text.toList := by
    rw [htext, List.dropWhile_cons_of_neg (by simp [hc])]
  have hne : (!text.toList.isEmpty) = true := by
    rw [htext]
    rfl
  rw [piecesFrom_of_scan hscan hlast, trimmed, List.map_cons, hdrop, List.filter_cons,
    if_pos hne, List.map_cons, String.ofList_toList]
  rfl

/-- Statements that are closed come out of their script as they went in. -/
theorem statementsOf_scriptOf (h : ∀ text ∈ texts, Closed text ∧ StartsToken text) :
    statementsOf (Migration.scriptOf texts) = texts := by
  induction texts with
  | nil => rfl
  | cons text rest ih =>
      obtain ⟨hclosed, hstart⟩ := h text List.mem_cons_self
      have hrest := ih fun text hmem ↦ h text (List.mem_cons_of_mem _ hmem)
      cases rest with
      | nil =>
          have htext : (Migration.scriptOf [text]).toList = text.toList ++ ';' :: ['\n'] := by
            simp [Migration.scriptOf]
          rw [statementsOf, htext, trimmed_closed hclosed hstart, trimmed_newline]
          rfl
      | cons next rest =>
          have htext : (Migration.scriptOf (text :: next :: rest)).toList =
              text.toList ++ ';' :: '\n' :: '\n' :: (Migration.scriptOf (next :: rest)).toList := by
            simp [Migration.scriptOf, String.intercalate_cons_cons]
          rw [statementsOf, htext, trimmed_closed hclosed hstart, trimmed_newline, trimmed_newline]
          exact congrArg _ hrest

/-! ## Migrations -/

theorem isSafe_of_toTable (made : d.toTable = .ok t) : ∀ c ∈ t.columns, c.IsSafe := by
  have hid : Closed idType := rfl
  have hkey : Closed keyType := rfl
  intro c hc
  rcases (mem_columns_of_toTable made).mp hc with rfl | ⟨f, -, hcolumn⟩ | ⟨l, -, hcolumn⟩
  · exact ⟨hid, by rintro _ ⟨⟩⟩
  · obtain ⟨htype, rfl⟩ := toColumn_eq_ok_iff.mp hcolumn
    refine ⟨typeLiteral_closed htype, fun expression hexpression ↦ ?_⟩
    obtain ⟨value, -, hvalue⟩ := Option.bind_eq_some_iff.mp hexpression
    exact defaultExpression_closed hvalue
  · obtain ⟨column, -, rfl⟩ := toColumn?_eq_some_iff.mp hcolumn
    exact ⟨hkey, by rintro _ ⟨⟩⟩

theorem isSafe_of_linkTables (ht : t ∈ d.linkTables) : ∀ c ∈ t.columns, c.IsSafe := by
  have hkey : Closed keyType := rfl
  obtain ⟨l, -, table, localColumn, foreignColumn, hst, ht⟩ := mem_linkTables_iff.mp ht
  rw [Definition.linkTable?, hst] at ht
  obtain rfl := Option.some.inj ht
  intro c hc
  rcases List.mem_pair.mp hc with rfl | rfl
  · exact ⟨hkey, by rintro _ ⟨⟩⟩
  · exact ⟨hkey, by rintro _ ⟨⟩⟩

theorem createTable_startsToken (t : Table) : StartsToken t.render := by
  have hstart : StartsToken "CREATE TABLE " := ⟨'C', _, rfl, rfl⟩
  exact (((hstart.append _).append _).append _).append _

theorem updatedAtTrigger_startsToken (table : Ident) :
    StartsToken (renderUpdatedAtTrigger table) := by
  have hstart : StartsToken "CREATE TRIGGER " := ⟨'C', _, rfl, rfl⟩
  exact (((((hstart.append _).append _).append _).append _).append _).append _

theorem updatedAtFunction_startsToken : StartsToken renderUpdatedAtFunction := by
  have hstart : StartsToken "CREATE OR REPLACE FUNCTION " := ⟨'C', _, rfl, rfl⟩
  exact (((hstart.append _).append _).append _).append _

theorem step_closed (layout : m.Layout s parts) (hstep : step ∈ m.steps) :
    Closed step.render ∧ StartsToken step.render := by
  rw [layout.steps, List.mem_append, List.mem_cons, List.mem_flatMap, List.mem_map] at hstep
  rcases hstep with (rfl | ⟨p, hp, hstep⟩) | ⟨t, ht, rfl⟩
  · exact ⟨renderUpdatedAtFunction_closed, updatedAtFunction_startsToken⟩
  · rcases List.mem_cons.mp hstep with rfl | hstep
    · exact ⟨Table.render_closed (isSafe_of_toTable (isFor_of_mem layout hp).2),
        createTable_startsToken p.table⟩
    · split at hstep
      · obtain rfl := List.mem_singleton.mp hstep
        exact ⟨renderUpdatedAtTrigger_closed _, updatedAtTrigger_startsToken _⟩
      · cases hstep
  · obtain ⟨p, -, ht⟩ := List.mem_flatMap.mp ht
    exact ⟨Table.render_closed (isSafe_of_linkTables ht), createTable_startsToken t⟩

theorem statements_closed (migrated : s.migration = .ok m) (h : text ∈ m.statements) :
    Closed text ∧ StartsToken text := by
  obtain ⟨parts, layout⟩ := migration_eq_ok_iff.mp migrated
  obtain ⟨step, hstep, rfl⟩ := List.mem_map.mp h
  exact step_closed layout hstep

/-! ## Requests -/

theorem prepared_closed {operation : Operation} {p : Prepared}
    (hprepared : operation.prepare none = .ok p) : Closed p.command.render :=
  Command.render_closed fun _ hc ↦ filter_of_prepare hprepared hc

/-- **No description escapes its place.**  Every statement of a migration is closed and comes back
out of the script, and every statement of a request is closed unless an authorization puts a
condition into it. -/
theorem compiled_closed (s : DefinitionSet) :
    (∀ m, s.migration = .ok m →
      (∀ text ∈ m.statements, Closed text) ∧ statementsOf m.script = m.statements) ∧
    ∀ compiler : QueryCompiler, compiler.definitions = s → ∀ request statement,
      (∀ operation, request.accept s = .ok operation → compiler.filter? operation = none) →
        compiler.compile request = .ok statement → Closed statement.text := by
  refine ⟨fun m migrated ↦ ⟨fun text htext ↦ (statements_closed migrated htext).1, ?_⟩, ?_⟩
  · exact statementsOf_scriptOf fun text htext ↦ statements_closed migrated htext
  · rintro compiler rfl request statement hfilter compiled
    obtain ⟨p, hp, h⟩ := bind_eq_ok_iff.mp compiled
    obtain rfl := pure_eq_ok_iff.mp h
    obtain ⟨operation, haccept, hprepare⟩ := bind_eq_ok_iff.mp hp
    rw [hfilter operation haccept] at hprepare
    exact prepared_closed hprepare

/-- A resource whose name, key and default try to end the statement that they stand in. -/
def intruder : Resource :=
  { Description.named "x\"; DROP TABLE cat; --" with
    attributes := SortedMap.ofList
      [("/* $$", .full "varchar(64)" none (some (.string "\\'; DROP TABLE cat; --")))] }.complete

/-- Reads the rows of the intruder. -/
def intrusion : Request := .read intruder.name {}

theorem compiled_closed_intruder :
    ∃ s m, DefinitionSet.build [intruder] = .ok s ∧ s.migration = .ok m ∧
      (∀ text ∈ m.statements, Closed text) ∧ statementsOf m.script = m.statements ∧
      ∃ statement, (⟨s, none⟩ : QueryCompiler).compile intrusion = .ok statement ∧
        Closed statement.text := by
  have hsome : ((DefinitionSet.build [intruder]).toOption.bind fun s ↦
      s.migration.toOption.bind fun _ ↦
        ((⟨s, none⟩ : QueryCompiler).compile intrusion).toOption).isSome = true := by
    decide +kernel
  obtain ⟨statement, h⟩ := Option.isSome_iff_exists.mp hsome
  simp only [Option.bind_eq_some_iff, toOption_eq_some_iff] at h
  obtain ⟨s, hs, m, hm, hstatement⟩ := h
  obtain ⟨hmigration, hrequest⟩ := compiled_closed s
  obtain ⟨hclosed, hscript⟩ := hmigration m hm
  exact ⟨s, m, hs, hm, hclosed, hscript, statement, hstatement,
    hrequest ⟨s, none⟩ rfl intrusion statement (fun _ _ ↦ rfl) hstatement⟩

end ResourceSchema
