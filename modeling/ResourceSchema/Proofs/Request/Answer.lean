import Mathlib.Data.List.Dedup
import ResourceSchema.Proofs.Request.Capture

/-!
# What a read finds

A read is run on a database, whose tables are lists of rows.  What its clauses mean is what they
mean in SQL: nothing equals `NULL` in a condition, `GROUP BY` makes one group for every value of the
key, `array_agg` collects in the order of the rows, a subquery without a row is `NULL`, and a name
in the `WITH` clause hides the table of the same name.

Where no table is hidden, the related ids of a row are the ones that the whole table has for its id,
whether or not the virtual table was made for that id alone: the rows with one key are the same
before and after all others are left out.
-/

namespace ResourceSchema

open Sql

namespace Sql

/-- Two values are equal in a condition.  Nothing equals `NULL`. -/
def Value.equals (a b : Value) : Bool := a != .null && a == b

/-- The integer that a value is. -/
def Value.int? : Value → Option Int64
  | .int n => some n
  | .null | .bool _ | .float _ | .text _ | .json _ => none

/-- A row of a table: the value in each column. -/
abbrev Row := Ident → Value

/-- The order of rows by their ids.  An id that is not an integer comes last, as `NULL` does. -/
def Row.precedes (a b : Row) : Bool :=
  match (a idColumn).int?, (b idColumn).int? with
  | some a, some b => a ≤ b
  | none, some _ => false
  | _, none => true

/-- The rows of every table, and which of them meet a condition that is given as SQL text. -/
structure Database where
  rows : Ident → List Row
  meets : String → Row → Bool

/-- A row of a virtual table: a key with the ids that are collected for it. -/
structure Group where
  key : Value
  ids : List Value

/-- What a name stands for after `FROM`. -/
inductive Relation where
  | table (rows : List Row)
  | groups (groups : List Group)

/-- What all names stand for after `FROM`. -/
abbrev Scope := Ident → Relation

/-- Without a `WITH` clause, names stand for tables. -/
def Database.scope (db : Database) : Scope := fun name ↦ .table (db.rows name)

/-- Why a database does not answer. -/
inductive Refusal where
  /-- A name is given twice in a `WITH` clause. -/
  | repeatedName (name : Ident)
  /-- Columns of a table are looked up in a virtual table, or the other way round. -/
  | noSuchColumn (relation column : Ident)
  /-- A subquery that stands for a value has several rows. -/
  | severalRows

/-- The value of a placeholder, which a command has bound. -/
def Parameters.meaning (ps : Parameters) (p : Placeholder) : Value :=
  ((ps.at? p).map Parameter.value).getD .null

end Sql

/-- What is shown in a column of the result, or in the columns of all of a row. -/
inductive Shown where
  | row (row : Row)
  | value (value : Value)
  | array (ids : List Value)
  | count (n : Nat)

/-- A row of the result, with the row of the table that it is made of. -/
structure ResultRow where
  source : Row
  shown : List (Output × Shown)

/-! ## The meaning of the clauses -/

namespace VirtualTable

/-- `WHERE key = $n`, if the virtual table is made for one key. -/
def keeps (v : VirtualTable) (ps : Parameters) (row : Row) : Bool :=
  v.row.all fun p ↦ (row v.key).equals (ps.meaning p)

/-- `GROUP BY key`, with `array_agg(value)` for each group.  The rows in which the key is `NULL` are
a group as well. -/
def groups (v : VirtualTable) (ps : Parameters) (rows : List Row) : List Group :=
  let kept := rows.filter (v.keeps ps)
  (kept.map (· v.key)).dedup.map fun key ↦
    ⟨key, (kept.filter (· v.key == key)).map (· v.value)⟩

/-- An item of the `WITH` clause, which those behind it can see. -/
def define (ps : Parameters) (scope : Scope) (v : VirtualTable) : Except Refusal Scope :=
  match scope v.name, scope v.source with
  | .groups _, _ => .error (.repeatedName v.name)
  | .table _, .groups _ => .error (.noSuchColumn v.source v.key)
  | .table _, .table rows => .ok (Function.update scope v.name (.groups (v.groups ps rows)))

end VirtualTable

/-- An output in a row, where `count` rows are selected.  Related ids are those of the row of the
virtual table `WHERE host_id` is the id. -/
def Output.shown (scope : Scope) (count : Nat) (row : Row) : Output → Except Refusal Shown
  | .allColumns => .ok (.row row)
  | .column name => .ok (.value (row name))
  | .relatedIds table many _ =>
    match scope table with
    | .table _ => .error (.noSuchColumn table ⟨VirtualTable.idsName⟩)
    | .groups groups =>
      match groups.filter fun g ↦ g.key.equals (row idColumn) with
      | [] => .ok (.value .null)
      | [g] => .ok (if many then .array g.ids else .value (g.ids.head?.getD .null))
      | _ :: _ :: _ => .error .severalRows
  | .totalCount => .ok (.count count)

namespace ReadCommand

/-- `WHERE id = $n AND (filter)`. -/
def selects (c : ReadCommand) (db : Database) (ps : Parameters) (row : Row) : Bool :=
  (c.row.all fun p ↦ (row idColumn).equals (ps.meaning p)) && c.filter.all fun f ↦ db.meets f row

/-- `ORDER BY id`, unless one row is read. -/
def arrange (c : ReadCommand) (rows : List Row) : List Row :=
  if c.row.isSome then rows else rows.mergeSort Row.precedes

/-- The rows of the result before `LIMIT` and `OFFSET`. -/
def listed (c : ReadCommand) (db : Database) (ps : Parameters) :
    Except Refusal (List ResultRow) := do
  let scope ← c.virtualTables.foldlM (VirtualTable.define ps) db.scope
  match scope c.table with
  | .groups _ => .error (.noSuchColumn c.table idColumn)
  | .table rows =>
    let selected := rows.filter (c.selects db ps)
    (c.arrange selected).mapM fun row ↦ do
      let shown ← c.outputs.mapM fun o ↦ do return (o, ← o.shown scope selected.length row)
      return ⟨row, shown⟩

end ReadCommand

/-! ## Groups -/

variable {c : ReadCommand} {d : Definition} {request : ReadRequest} {db : Database}
variable {ps : Parameters} {v : VirtualTable} {rows : List Row} {id : Value}

theorem equals_iff {a b : Value} : a.equals b = true ↔ a ≠ .null ∧ a = b := by
  rw [Value.equals, Bool.and_eq_true, bne_iff_ne, beq_iff_eq]

theorem equals_null (a : Value) : a.equals .null = false := by
  rw [Bool.eq_false_iff, ne_eq, equals_iff]
  exact fun ⟨hne, heq⟩ ↦ hne heq

theorem equals_eq_beq (h : id ≠ .null) (a : Value) : a.equals id = (a == id) := by
  rw [Bool.eq_iff_iff, equals_iff, beq_iff_eq]
  exact ⟨And.right, fun heq ↦ ⟨heq ▸ h, heq⟩⟩

/-- What a virtual table collects for a key from the rows of its source. -/
def VirtualTable.collects (v : VirtualTable) (rows : List Row) (id : Value) : List Value :=
  (rows.filter fun row ↦ (row v.key).equals id).map (· v.value)

/-- Of a list without duplicates, at most one item is equal to a given one. -/
theorem filter_beq_dedup {α : Type} [DecidableEq α] (l : List α) (a : α) :
    l.dedup.filter (· == a) = if a ∈ l then [a] else [] := by
  rw [List.filter_beq, List.count_dedup]
  split <;> rfl

/-- Whether or not a virtual table is made for one key alone, it keeps all rows with that key. -/
theorem filter_keeps (rows : List Row) (hrow : ∀ p, v.row = some p → ps.meaning p = id)
    (hnull : id ≠ .null) :
    (rows.filter (v.keeps ps)).filter (· v.key == id) =
      rows.filter fun row ↦ (row v.key).equals id := by
  rw [List.filter_filter]
  refine List.filter_congr fun row _ ↦ ?_
  rw [equals_eq_beq hnull, Bool.and_eq_left_iff_imp]
  intro heq
  rw [VirtualTable.keeps, Option.all_eq_true]
  intro p hp
  rw [hrow p hp, equals_eq_beq hnull]
  exact heq

/-- The group with a key has what the whole table has for that key, also if only the rows with that
key are grouped. -/
theorem filter_groups (hrow : ∀ p, v.row = some p → ps.meaning p = id) :
    (v.groups ps rows).filter (fun g ↦ g.key.equals id) =
      if v.collects rows id = [] then [] else [⟨id, v.collects rows id⟩] := by
  by_cases hnull : id = .null
  · -- the group of `NULL` is not found, and no row has `NULL` for a key
    subst hnull
    simp only [VirtualTable.collects, equals_null, List.filter_false, List.map_nil, if_true]
  · have hkept := filter_keeps rows hrow hnull
    have hempty : v.collects rows id = [] ↔
        id ∉ (rows.filter (v.keeps ps)).map (· v.key) := by
      rw [VirtualTable.collects, ← hkept, List.map_eq_nil_iff, List.filter_eq_nil_iff]
      simp only [List.mem_map, beq_iff_eq, not_exists, not_and]
    simp only [VirtualTable.groups, List.filter_map, Function.comp_def, equals_eq_beq hnull,
      filter_beq_dedup, hempty, ite_not]
    split
    · rw [List.map_singleton, hkept]
      rfl
    · rfl

/-! ## Scopes -/

/-- Where the names of virtual tables are distinct and none is that of a table that is read, every
name comes to stand for its own virtual table, made of the table that it is meant to be made of. -/
theorem foldlM_define (ps : Parameters) {vs : List VirtualTable} (scope : Scope)
    (hname : ∀ v ∈ vs, scope v.name = .table (db.rows v.name))
    (hsource : ∀ v ∈ vs, scope v.source = .table (db.rows v.source))
    (hnodup : (vs.map VirtualTable.name).Nodup) (hfree : ∀ v ∈ vs, ∀ w ∈ vs, v.name ≠ w.source) :
    ∃ scope', vs.foldlM (VirtualTable.define ps) scope = .ok scope' ∧
      (∀ v ∈ vs, scope' v.name = .groups (v.groups ps (db.rows v.source))) ∧
      ∀ name ∉ vs.map VirtualTable.name, scope' name = scope name := by
  induction vs generalizing scope with
  | nil => exact ⟨scope, rfl, fun _ hv ↦ (nomatch hv), fun _ _ ↦ rfl⟩
  | cons v rest ih =>
      obtain ⟨hnew, hrest⟩ := List.nodup_cons.mp hnodup
      obtain ⟨hnameFirst, hnameRest⟩ := List.forall_mem_cons.mp hname
      obtain ⟨hsourceFirst, hsourceRest⟩ := List.forall_mem_cons.mp hsource
      have hdefine : v.define ps scope =
          .ok (Function.update scope v.name (.groups (v.groups ps (db.rows v.source)))) := by
        rw [VirtualTable.define, hnameFirst, hsourceFirst]
      -- the new name is neither one of the names behind it nor one of their sources
      have hne (w) (hw : w ∈ rest) : w.name ≠ v.name := fun heq ↦
        hnew (heq ▸ List.mem_map_of_mem hw)
      obtain ⟨scope', hfold, hgroups, hothers⟩ := ih
        (Function.update scope v.name (.groups (v.groups ps (db.rows v.source))))
        (fun w hw ↦ by rw [Function.update_of_ne (hne w hw), hnameRest w hw])
        (fun w hw ↦ by
          rw [Function.update_of_ne
            (hfree v List.mem_cons_self w (List.mem_cons_of_mem _ hw)).symm, hsourceRest w hw])
        hrest fun u hu w hw ↦ hfree u (List.mem_cons_of_mem _ hu) w (List.mem_cons_of_mem _ hw)
      refine ⟨scope', ?_, fun w hw ↦ ?_, fun name hname ↦ ?_⟩
      · rw [List.foldlM_cons, hdefine]
        exact hfold
      · rcases List.mem_cons.mp hw with rfl | hw
        · rw [hothers _ hnew, Function.update_self]
        · exact hgroups w hw
      · rw [List.map_cons, List.mem_cons, not_or] at hname
        rw [hothers name hname.2, Function.update_of_ne hname.1]

/-- Once a name stands for a virtual table, it does so for the rest of the statement. -/
theorem groups_of_foldlM_define {vs : List VirtualTable} {scope scope' : Scope}
    (h : vs.foldlM (VirtualTable.define ps) scope = .ok scope') {name : Ident}
    (hname : name ∈ vs.map VirtualTable.name ∨ ∃ groups, scope name = .groups groups) :
    ∃ groups, scope' name = .groups groups := by
  induction vs generalizing scope with
  | nil =>
      obtain rfl := pure_eq_ok_iff.mp h
      exact hname.resolve_left List.not_mem_nil
  | cons v rest ih =>
      rw [List.foldlM_cons] at h
      obtain ⟨next, hnext, h⟩ := bind_eq_ok_iff.mp h
      refine ih h (or_iff_not_imp_left.mpr fun hrest ↦ ?_)
      unfold VirtualTable.define at hnext
      split at hnext
      · cases hnext
      · cases hnext
      · next rows hv _ =>
        obtain rfl := Except.ok.inj hnext
        by_cases heq : name = v.name
        · rw [heq, Function.update_self]
          exact ⟨_, rfl⟩
        · rw [Function.update_of_ne heq]
          refine hname.resolve_left fun hmem ↦ ?_
          exact (List.mem_cons.mp hmem).elim heq hrest

/-- A read of a table that is hidden by its own `WITH` clause is refused by every database. -/
theorem listed_of_hidden (hidden : c.table ∈ c.virtualTables.map VirtualTable.name) :
    ∃ refusal, c.listed db ps = .error refusal := by
  unfold ReadCommand.listed
  cases hfold : c.virtualTables.foldlM (VirtualTable.define ps) db.scope with
  | error refusal => exact ⟨refusal, rfl⟩
  | ok scope =>
      obtain ⟨groups, hgroups⟩ := groups_of_foldlM_define hfold (.inl hidden)
      refine ⟨.noSuchColumn c.table idColumn, bind_eq_error_iff.mpr (.inr ⟨scope, rfl, ?_⟩)⟩
      dsimp only
      rw [hgroups]

/-! ## The result in closed form -/

namespace ReadCommand

/-- What the virtual table with a name collects for a key, from all rows of its source. -/
def relatedIds (c : ReadCommand) (db : Database) (id : Value) (name : Ident) : List Value :=
  ((c.virtualTables.find? (·.name == name)).map fun v ↦ v.collects (db.rows v.source) id).getD []

end ReadCommand

/-- The ids that are collected for a row, or the first of them; `NULL` if there are none. -/
def Shown.ofIds (many : Bool) : List Value → Shown
  | [] => .value .null
  | first :: rest => if many then .array (first :: rest) else .value first

/-- An output in a row, given the ids that each virtual table has for it. -/
def Output.shows (related : Ident → List Value) (count : Nat) (row : Row) : Output → Shown
  | .allColumns => .row row
  | .column name => .value (row name)
  | .relatedIds table many _ => .ofIds many (related table)
  | .totalCount => .count count

namespace ReadCommand

/-- The rows that a read selects, in their order. -/
def selected (c : ReadCommand) (db : Database) (ps : Parameters) : List Row :=
  (db.rows c.table).filter (c.selects db ps)

/-- A row of the result, for a row that is selected. -/
def resultRow (c : ReadCommand) (db : Database) (count : Nat) (row : Row) : ResultRow :=
  ⟨row, c.outputs.map fun o ↦ (o, o.shows (c.relatedIds db (row idColumn)) count row)⟩

theorem mem_arrange {row : Row} : row ∈ c.arrange rows ↔ row ∈ rows := by
  unfold arrange
  split
  · exact Iff.rfl
  · exact List.mem_mergeSort

/-- The one row that is read has the id that is bound. -/
theorem id_of_mem_selected {row : Row} (hrow : row ∈ c.selected db ps) {p : Placeholder}
    (hp : c.row = some p) : ps.meaning p = row idColumn := by
  have hselects := (List.mem_filter.mp hrow).2
  rw [selects, Bool.and_eq_true, Option.all_eq_true] at hselects
  exact (equals_iff.mp (hselects.1 p hp)).2.symm

/-- Related ids are looked up in the group that has the id of the row. -/
theorem shown_relatedIds {scope : Scope} {row : Row} {count : Nat} {name : Ident} {many : Bool}
    (hnodup : (c.virtualTables.map VirtualTable.name).Nodup) (hv : v ∈ c.virtualTables)
    (hscope : scope v.name = .groups (v.groups ps (db.rows v.source)))
    (hrow : ∀ p, v.row = some p → ps.meaning p = row idColumn) :
    (Output.relatedIds v.name many name).shown scope count row =
      .ok ((Output.relatedIds v.name many name).shows
        (c.relatedIds db (row idColumn)) count row) := by
  have hfind : c.virtualTables.find? (·.name == v.name) = some v :=
    (find?_key_eq_some_iff hnodup).mpr ⟨hv, rfl⟩
  rw [Output.shown, hscope, Output.shows, relatedIds, hfind, Option.map_some, Option.getD_some]
  dsimp only
  rw [filter_groups hrow]
  cases v.collects (db.rows v.source) (row idColumn) with
  | nil => rfl
  | cons first rest =>
      rw [if_neg (List.cons_ne_nil _ _)]
      rfl

/-- A read that hides no table lists the rows that it selects, each with its related ids. -/
theorem listed_eq (hreads : c.Reads d request)
    (hnodup : (c.virtualTables.map VirtualTable.name).Nodup) (hfree : ¬ c.Captures) :
    c.listed db ps = .ok ((c.arrange (c.selected db ps)).map
      (c.resultRow db (c.selected db ps).length)) := by
  have hapart (v) (hv : v ∈ c.virtualTables) (name) (hname : name ∈ (Command.read c).tables) :
      v.name ≠ name := fun heq ↦ hfree ⟨v, hv, heq ▸ hname⟩
  have hsources (v) (hv : v ∈ c.virtualTables) : v.source ∈ (Command.read c).tables :=
    List.mem_cons_of_mem _ (List.mem_map_of_mem hv)
  obtain ⟨scope, hfold, hgroups, hothers⟩ := foldlM_define ps db.scope (fun _ _ ↦ rfl)
    (fun _ _ ↦ rfl) hnodup fun v hv w hw ↦ hapart v hv _ (hsources w hw)
  have htable : scope c.table = .table (db.rows c.table) := by
    refine hothers c.table fun hmem ↦ ?_
    obtain ⟨v, hv, hname⟩ := List.mem_map.mp hmem
    exact hapart v hv _ List.mem_cons_self hname
  have hshown (row) (hrow : row ∈ c.selected db ps) (o) (ho : o ∈ c.outputs) :
      o.shown scope (c.selected db ps).length row =
        .ok (o.shows (c.relatedIds db (row idColumn)) (c.selected db ps).length row) := by
    cases o with
    | allColumns | column name | totalCount => rfl
    | relatedIds table many name =>
        obtain ⟨-, -, -, v, hv, rfl, -⟩ := exists_link_of_relatedIds hreads ho
        exact shown_relatedIds hnodup hv (hgroups v hv) fun p hp ↦
          id_of_mem_selected hrow (hreads.row v hv ▸ hp)
  refine bind_eq_ok_iff.mpr ⟨scope, hfold, ?_⟩
  dsimp only
  rw [htable]
  refine mapM_eq_ok_map fun row hrow ↦ bind_eq_ok_iff.mpr ⟨_, mapM_eq_ok_map fun o ho ↦ ?_, rfl⟩
  exact bind_eq_ok_iff.mpr ⟨_, hshown row (mem_arrange.mp hrow) o ho, rfl⟩

end ReadCommand

end ResourceSchema
