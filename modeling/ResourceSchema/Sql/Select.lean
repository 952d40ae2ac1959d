/-!
# `SELECT` statements from fragments of SQL text
-/

namespace ResourceSchema.Sql

/-- A subquery with a name, in the `WITH` clause. -/
structure CommonTable where
  name : String
  query : String
deriving DecidableEq, Repr

/-- The clauses of a `SELECT` statement. Fragments are SQL text already. -/
structure Select where
  commonTables : List CommonTable := []
  columns : List String := []
  source : String
  conditions : List String := []
  groups : List String := []
  orders : List String := []
  limit : Option String := none
  offset : Option String := none
deriving DecidableEq, Repr

namespace Select

/-- A `SELECT` from a table. -/
def table (source : String) : Select := { source }

/-- Adds a subquery. -/
def addCommonTable (s : Select) (name query : String) : Select :=
  { s with commonTables := s.commonTables ++ [⟨name, query⟩] }

/-- Adds an output column. -/
def addColumn (s : Select) (column : String) : Select :=
  { s with columns := s.columns ++ [column] }

/-- Adds a condition; every condition has to hold. -/
def addCondition (s : Select) (condition : String) : Select :=
  { s with conditions := s.conditions ++ [condition] }

/-- Adds a grouping key. -/
def addGroup (s : Select) (key : String) : Select := { s with groups := s.groups ++ [key] }

/-- Adds a sorting key. -/
def addOrder (s : Select) (key : String) : Select := { s with orders := s.orders ++ [key] }

/-- Sets the number of rows. -/
def setLimit (s : Select) (limit : String) : Select := { s with limit := some limit }

/-- Sets the number of rows left out at the start. -/
def setOffset (s : Select) (offset : String) : Select := { s with offset := some offset }

/-- A clause with its fragments, or nothing when there are none. -/
def clause (keyword separator : String) (fragments : List String) : String :=
  if fragments.isEmpty then "" else keyword ++ separator.intercalate fragments

/-- The statement as SQL text. Without columns it has all of them. -/
def render (s : Select) : String :=
  (if s.commonTables.isEmpty then "" else
    clause "WITH " ", " (s.commonTables.map fun t => t.name ++ " AS (" ++ t.query ++ ")") ++ " ") ++
  "SELECT " ++ (if s.columns.isEmpty then "*" else ", ".intercalate s.columns) ++
  " FROM " ++ s.source ++
  clause " WHERE " " AND " s.conditions ++
  clause " GROUP BY " ", " s.groups ++
  clause " ORDER BY " ", " s.orders ++
  clause " LIMIT " "" s.limit.toList ++
  clause " OFFSET " "" s.offset.toList

end Select

end ResourceSchema.Sql
