import ResourceSchema.Proofs.Sql.Placeholder
import ResourceSchema.Request.Command

/-!
# The placeholders of a command stand in its text

A command is written as fixed text with names and placeholders in it.  The text is closed, and the
placeholders that a reader comes to are those of the command, in the order in which it is written,
unless an authorization has put a condition of its own into it.
-/

namespace ResourceSchema

open Sql

/-! ## Between two fragments -/

theorem gap_comma : Gap ", " := ⟨⟨rfl, rfl⟩, rfl⟩

theorem gap_equal : Gap " = " := ⟨⟨rfl, rfl⟩, rfl⟩

theorem gap_from : Gap " FROM " := ⟨⟨rfl, rfl⟩, rfl⟩

theorem gap_where : Gap " WHERE " := ⟨⟨rfl, rfl⟩, rfl⟩

theorem gap_as : Gap " AS " := ⟨⟨rfl, rfl⟩, rfl⟩

theorem gap_close : Gap ")" := ⟨⟨rfl, rfl⟩, rfl⟩

theorem gap_closeAs : Gap ") AS " := ⟨⟨rfl, rfl⟩, rfl⟩

theorem trails_returning : Trails " RETURNING *" [] := ⟨⟨rfl, rfl⟩, rfl⟩

variable {left right : String} {ps qs : List Placeholder}

theorem equation_holds (hleft : Holds left ps) (hright : Holds right qs) :
    Holds (left ++ " = " ++ right) (ps ++ qs) :=
  hleft.between gap_equal hright

/-! ## Selects -/

/-- A fragment that can stand in a statement, whatever placeholders it has. -/
def IsFragment (text : String) : Prop := Holds text (placeholders text)

namespace Sql.Select

/-- All parts are fragments. -/
structure IsSafe (s : Select) : Prop where
  commonTables : ∀ t ∈ s.commonTables, Holds t.name [] ∧ IsFragment t.query
  columns : ∀ text ∈ s.columns, IsFragment text
  source : Holds s.source []
  conditions : ∀ text ∈ s.conditions, IsFragment text
  groups : ∀ text ∈ s.groups, IsFragment text
  orders : ∀ text ∈ s.orders, IsFragment text
  limit : ∀ text ∈ s.limit.toList, IsFragment text
  offset : ∀ text ∈ s.offset.toList, IsFragment text

/-- The placeholders of the parts, in the order of the clauses. -/
def fragmentPlaceholders (s : Select) : List Placeholder :=
  s.commonTables.flatMap (fun t ↦ placeholders t.query) ++ s.columns.flatMap placeholders ++
    s.conditions.flatMap placeholders ++ s.groups.flatMap placeholders ++
    s.orders.flatMap placeholders ++ s.limit.toList.flatMap placeholders ++
    s.offset.toList.flatMap placeholders

theorem holds_fragments {separator : String} {fragments : List String} (hseparator : Gap separator)
    (h : ∀ text ∈ fragments, IsFragment text) :
    Holds (separator.intercalate fragments) (fragments.flatMap placeholders) := by
  have hall := holds_intercalate (f := id) hseparator h
  rwa [List.map_id] at hall

theorem clause_trails {keyword separator : String} {fragments : List String}
    (hkeyword : Gap keyword) (hseparator : Gap separator)
    (h : ∀ text ∈ fragments, IsFragment text) :
    Trails (clause keyword separator fragments) (fragments.flatMap placeholders) := by
  unfold clause
  split
  · next hempty =>
    rw [List.isEmpty_iff.mp hempty]
    exact trails_empty
  · exact hkeyword.append (holds_fragments hseparator h)

theorem clause_toList_trails {keyword : String} {fragment : Option String}
    (hkeyword : Gap keyword) (h : ∀ text ∈ fragment.toList, IsFragment text) :
    Trails (clause keyword "" fragment.toList) (fragment.toList.flatMap placeholders) := by
  cases fragment with
  | none => exact trails_empty
  | some text =>
      show Trails (keyword ++ String.intercalate "" [text]) ([text].flatMap placeholders)
      rw [String.intercalate_singleton, List.flatMap_singleton]
      exact hkeyword.append (h text List.mem_cons_self)

theorem columns_holds {columns : List String} (h : ∀ text ∈ columns, IsFragment text) :
    Holds (if columns.isEmpty then "*" else ", ".intercalate columns)
      (columns.flatMap placeholders) := by
  split
  · next hempty =>
    rw [List.isEmpty_iff.mp hempty]
    exact ⟨rfl, rfl, rfl⟩
  · exact holds_fragments gap_comma h

/-- The `WITH` clause, and what follows it immediately. -/
theorem with_lead {tables : List CommonTable}
    (h : ∀ t ∈ tables, Holds t.name [] ∧ IsFragment t.query) :
    Lead (if tables.isEmpty then "" else
      clause "WITH " ", " (tables.map fun t ↦ t.name ++ " AS (" ++ t.query ++ ")") ++ " ")
      (tables.flatMap fun t ↦ placeholders t.query) := by
  have hwith : Lead "WITH " [] := ⟨rfl, rfl, rfl⟩
  have hopen : Gap " AS (" := ⟨⟨rfl, rfl⟩, rfl⟩
  have hblank : Gap " " := ⟨⟨rfl, rfl⟩, rfl⟩
  have htable : ∀ t ∈ tables,
      Holds (t.name ++ " AS (" ++ t.query ++ ")") (placeholders t.query) := by
    intro t ht
    obtain ⟨hname, hquery⟩ := h t ht
    exact (hname.between hopen hquery).close gap_close.trails
  split
  · next hempty =>
    rw [List.isEmpty_iff.mp hempty]
    exact ⟨rfl, rfl, rfl⟩
  · next hne =>
    have hne' : (tables.map fun t ↦ t.name ++ " AS (" ++ t.query ++ ")").isEmpty = false := by
      rw [List.isEmpty_map]
      exact Bool.eq_false_iff.mpr hne
    rw [clause, hne']
    exact (hwith.append (holds_intercalate gap_comma htable)).lead hblank

/-- The text of a statement has the placeholders of its fragments. -/
theorem render_holds {s : Select} (h : s.IsSafe) : Holds s.render s.fragmentPlaceholders := by
  have hselect : Lead "SELECT " [] := ⟨rfl, rfl, rfl⟩
  have hand : Gap " AND " := ⟨⟨rfl, rfl⟩, rfl⟩
  have hgroup : Gap " GROUP BY " := ⟨⟨rfl, rfl⟩, rfl⟩
  have horder : Gap " ORDER BY " := ⟨⟨rfl, rfl⟩, rfl⟩
  have hlimit : Gap " LIMIT " := ⟨⟨rfl, rfl⟩, rfl⟩
  have hoffset : Gap " OFFSET " := ⟨⟨rfl, rfl⟩, rfl⟩
  have hcolumns := ((with_lead h.commonTables).lead hselect).append (columns_holds h.columns)
  have hsource := hcolumns.between gap_from h.source
  rw [List.append_nil, List.append_nil] at hsource
  have hconditions := hsource.append (clause_trails gap_where hand h.conditions)
  have hgroups := hconditions.append (clause_trails hgroup gap_comma h.groups)
  have horders := hgroups.append (clause_trails horder gap_comma h.orders)
  have hlimits := horders.append (clause_toList_trails hlimit h.limit)
  exact hlimits.append (clause_toList_trails hoffset h.offset)

end Sql.Select

theorem Sql.Holds.isFragment (h : Holds left ps) : IsFragment left := by
  rw [IsFragment, h.placeholders]
  exact h

theorem flatMap_placeholders {α : Type} {items : List α} {f : α → String}
    {q : α → List Placeholder} (h : ∀ a ∈ items, Holds (f a) (q a)) :
    (items.map f).flatMap placeholders = items.flatMap q := by
  rw [List.flatMap_map]
  exact List.flatMap_congr fun a ha ↦ (h a ha).placeholders

/-! ## Reads -/

theorem VirtualTable.keyName_holds : Holds keyName [] := ⟨rfl, rfl, rfl⟩

theorem VirtualTable.idsName_holds : Holds idsName [] := ⟨rfl, rfl, rfl⟩

/-- The condition that picks the rows with a key. -/
theorem row_holds {key : String} (hkey : Holds key []) (row : Option Placeholder) :
    (∀ text ∈ row.toList.map (fun p ↦ key ++ " = " ++ p.render), IsFragment text) ∧
      (row.toList.map fun p ↦ key ++ " = " ++ p.render).flatMap placeholders = row.toList := by
  have hequation (p : Placeholder) : Holds (key ++ " = " ++ p.render) [p] :=
    equation_holds hkey (placeholder_holds p)
  constructor
  · intro text htext
    obtain ⟨p, -, rfl⟩ := List.mem_map.mp htext
    exact (hequation p).isFragment
  · rw [flatMap_placeholders fun p _ ↦ hequation p]
    exact List.flatMap_singleton' _

/-- The clauses of the subquery. -/
def VirtualTable.select (v : VirtualTable) : Select :=
  { source := v.source.escaped
    columns := [v.source.qualify v.key ++ " AS " ++ keyName,
      "array_agg(" ++ v.source.qualify v.value ++ ") AS " ++ idsName]
    conditions := v.row.toList.map fun p ↦ v.source.qualify v.key ++ " = " ++ p.render
    groups := [v.source.qualify v.key] }

theorem VirtualTable.columns_holds (v : VirtualTable) :
    ∀ text ∈ v.select.columns, Holds text [] := by
  have haggregate : Lead "array_agg(" [] := ⟨rfl, rfl, rfl⟩
  have hvalue := haggregate.append (qualify_holds v.source v.value)
  intro text htext
  rcases List.mem_pair.mp htext with rfl | rfl
  · exact (qualify_holds v.source v.key).between gap_as keyName_holds
  · exact hvalue.between gap_closeAs idsName_holds

theorem VirtualTable.render_holds (v : VirtualTable) : Holds v.render v.row.toList := by
  have hkey := qualify_holds v.source v.key
  have hcolumns := v.columns_holds
  obtain ⟨hconditions, hrow⟩ := row_holds hkey v.row
  have hsafe : v.select.IsSafe := by
    refine ⟨fun _ ↦ nofun, fun text htext ↦ (hcolumns text htext).isFragment,
      escaped_holds v.source, hconditions, fun text htext ↦ ?_, fun _ ↦ nofun, fun _ ↦ nofun,
      fun _ ↦ nofun⟩
    obtain rfl := List.mem_singleton.mp htext
    exact hkey.isFragment
  have hplaceholders : v.select.fragmentPlaceholders = v.row.toList := by
    have hnone : v.select.columns.flatMap placeholders = [] :=
      List.flatMap_eq_nil_iff.mpr fun text htext ↦ (hcolumns text htext).placeholders
    rw [Select.fragmentPlaceholders, hnone]
    simp only [select, hrow, List.flatMap_cons, List.flatMap_nil, hkey.placeholders,
      Option.toList_none, List.append_nil, List.nil_append]
  exact hplaceholders ▸ Select.render_holds hsafe

theorem Output.render_holds (table : Ident) (o : Output) : Holds (o.render table) [] := by
  cases o with
  | allColumns =>
      have hall : Trails ".*" [] := ⟨⟨rfl, rfl⟩, rfl⟩
      exact (escaped_holds table).close hall
  | column c => exact qualify_holds table c
  | relatedIds virtualTable many name =>
      have hopen : Lead "(" [] := ⟨rfl, rfl, rfl⟩
      have hfirst : Trails ")[1]" [] := ⟨⟨rfl, rfl⟩, rfl⟩
      have hselect : Lead "(SELECT " [] := ⟨rfl, rfl, rfl⟩
      have hvirtual := escaped_holds virtualTable
      have hids := hvirtual.between gap_point VirtualTable.idsName_holds
      have hvalue : Holds (if many then virtualTable.escaped ++ "." ++ VirtualTable.idsName
          else "(" ++ (virtualTable.escaped ++ "." ++ VirtualTable.idsName) ++ ")[1]") [] := by
        split
        · exact hids
        · exact (hopen.append hids).close hfirst
      have hsource := (hselect.append hvalue).between gap_from hvirtual
      have hkey := (hsource.between gap_where hvirtual).between gap_point
        VirtualTable.keyName_holds
      have hrow := hkey.between gap_equal (qualify_holds table idColumn)
      exact hrow.between gap_closeAs (escaped_holds name)
  | totalCount =>
      have hcount : Lead "count(*) OVER () AS " [] := ⟨rfl, rfl, rfl⟩
      exact hcount.append (escaped_holds totalCountColumn)

namespace ReadCommand

variable {c : ReadCommand}

/-- The placeholders of a read: for the row, in each virtual table and in the statement itself, or
for the page. -/
def placeholders (c : ReadCommand) : List Placeholder :=
  c.virtualTables.flatMap (fun v ↦ v.row.toList) ++ c.row.toList ++
    c.page.toList.flatMap fun b ↦ [b.limit, b.offset]

/-- Without a condition from an authorization, all parts of a read are fragments. -/
theorem select_safe (hfilter : c.filter = none) : c.select.IsSafe := by
  have hid := qualify_holds c.table idColumn
  refine ⟨fun t ht ↦ ?_, fun text htext ↦ ?_, escaped_holds c.table, fun text htext ↦ ?_,
    fun _ ↦ nofun, fun text htext ↦ ?_, fun text htext ↦ ?_, fun text htext ↦ ?_⟩
  · obtain ⟨v, -, rfl⟩ := List.mem_map.mp ht
    exact ⟨escaped_holds v.name, v.render_holds.isFragment⟩
  · obtain ⟨o, -, rfl⟩ := List.mem_map.mp htext
    exact (o.render_holds c.table).isFragment
  · rw [select, hfilter] at htext
    rcases List.mem_append.mp htext with htext | htext
    · exact (row_holds hid c.row).1 text htext
    · cases htext
  · simp only [select] at htext
    split at htext
    · cases htext
    · obtain rfl := List.mem_singleton.mp htext
      exact hid.isFragment
  · obtain ⟨p, -, rfl⟩ := Option.map_eq_some_iff.mp (Option.mem_toList.mp htext)
    exact (placeholder_holds p.limit).isFragment
  · obtain ⟨p, -, rfl⟩ := Option.map_eq_some_iff.mp (Option.mem_toList.mp htext)
    exact (placeholder_holds p.offset).isFragment

theorem select_placeholders (hfilter : c.filter = none) :
    c.select.fragmentPlaceholders = c.placeholders := by
  have hid := qualify_holds c.table idColumn
  have htables : c.select.commonTables.flatMap (fun t ↦ Sql.placeholders t.query) =
      c.virtualTables.flatMap fun v ↦ v.row.toList := by
    rw [select, List.flatMap_map]
    exact List.flatMap_congr fun v _ ↦ v.render_holds.placeholders
  have hcolumns : c.select.columns.flatMap Sql.placeholders = [] :=
    List.flatMap_eq_nil_iff.mpr fun text htext ↦ by
      obtain ⟨o, -, rfl⟩ := List.mem_map.mp htext
      exact (o.render_holds c.table).placeholders
  have hconditions : c.select.conditions.flatMap Sql.placeholders = c.row.toList := by
    rw [select, hfilter, Option.toList_none, List.map_nil, List.append_nil]
    exact (row_holds hid c.row).2
  have horders : c.select.orders.flatMap Sql.placeholders = [] := by
    simp only [select]
    split
    · rfl
    · rw [List.flatMap_singleton]
      exact hid.placeholders
  have hpage : c.select.limit.toList.flatMap Sql.placeholders ++
      c.select.offset.toList.flatMap Sql.placeholders =
        c.page.toList.flatMap fun b ↦ [b.limit, b.offset] := by
    simp only [select]
    cases c.page with
    | none => rfl
    | some b =>
        simp only [Option.map_some, Option.toList_some, List.flatMap_singleton,
          (placeholder_holds b.limit).placeholders, (placeholder_holds b.offset).placeholders]
        rfl
  have hgroups : c.select.groups.flatMap Sql.placeholders = [] := rfl
  rw [Select.fragmentPlaceholders, htables, hcolumns, hconditions, hgroups, horders,
    List.append_nil, List.append_nil, List.append_nil, List.append_assoc, hpage, placeholders]

end ReadCommand

/-! ## Commands -/

/-- The placeholders of a command, in the order in which it is written. -/
def Command.placeholders : Command → List Placeholder
  | .read c => c.placeholders
  | .insert _ assignments => assignments.map Assignment.value
  | .update _ assignments row => assignments.map Assignment.value ++ [row]
  | .delete _ row => [row]

theorem rowCondition_trails (table : Ident) (row : Placeholder) :
    Trails (rowCondition table row) [row] := by
  have hcolumn := gap_where.append (qualify_holds table idColumn)
  rw [rowCondition, String.append_assoc]
  exact hcolumn.append (gap_equal.append (placeholder_holds row))

theorem map_value_eq (assignments : List Assignment) :
    assignments.map Assignment.value = assignments.flatMap fun a ↦ [a.value] :=
  List.map_eq_flatMap

/-- The text of a command has the placeholders of the command. -/
theorem Command.render_holds {command : Command}
    (hfilter : ∀ c, command = .read c → c.filter = none) :
    Holds command.render command.placeholders := by
  unfold Command.render
  split
  · next c =>
    rw [placeholders, ← ReadCommand.select_placeholders (hfilter c rfl)]
    exact Select.render_holds (ReadCommand.select_safe (hfilter c rfl))
  · next table =>
    have hinsert : Lead "INSERT INTO " [] := ⟨rfl, rfl, rfl⟩
    have hvalues : Trails " DEFAULT VALUES RETURNING *" [] := ⟨⟨rfl, rfl⟩, rfl⟩
    exact (hinsert.append (escaped_holds table)).close hvalues
  · next table assignments hne =>
    have hinsert : Lead "INSERT INTO " [] := ⟨rfl, rfl, rfl⟩
    have hopen : Gap " (" := ⟨⟨rfl, rfl⟩, rfl⟩
    have hvalues : Gap ") VALUES (" := ⟨⟨rfl, rfl⟩, rfl⟩
    have hclose : Trails ") RETURNING *" [] := ⟨⟨rfl, rfl⟩, rfl⟩
    have hcolumns := holds_intercalate gap_comma
      fun (a : Assignment) (_ : a ∈ assignments) ↦ escaped_holds a.column
    have hplaceholders := holds_intercalate gap_comma
      fun (a : Assignment) (_ : a ∈ assignments) ↦ placeholder_holds a.value
    have hnames := (hinsert.append (escaped_holds table)).between hopen hcolumns
    rw [List.flatMap_eq_nil_iff.mpr fun _ _ ↦ rfl] at hnames
    rw [placeholders, map_value_eq]
    exact (hnames.between hvalues hplaceholders).close hclose
  · next table assignments row =>
    have hupdate : Lead "UPDATE " [] := ⟨rfl, rfl, rfl⟩
    have hset : Gap " SET " := ⟨⟨rfl, rfl⟩, rfl⟩
    have hassignments := holds_intercalate gap_comma
      fun (a : Assignment) (_ : a ∈ assignments) ↦
        equation_holds (escaped_holds a.column) (placeholder_holds a.value)
    have htable := (hupdate.append (escaped_holds table)).between hset hassignments
    rw [placeholders, map_value_eq]
    exact (htable.append (rowCondition_trails table row)).close trails_returning
  · next table row =>
    have hdelete : Lead "DELETE FROM " [] := ⟨rfl, rfl, rfl⟩
    exact ((hdelete.append (escaped_holds table)).append
      (rowCondition_trails table row)).close trails_returning

/-- The statement of a command is closed, unless an authorization has put a condition into it. -/
theorem Command.render_closed {command : Command}
    (hfilter : ∀ c, command = .read c → c.filter = none) : Closed command.render :=
  (render_holds hfilter).closed

end ResourceSchema
