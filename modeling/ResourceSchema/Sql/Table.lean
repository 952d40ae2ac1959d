import ResourceSchema.Name.Ident

/-!
# Tables and the DDL that creates them

Columns and tables are built step by step; `Column.render` and `Table.render` write them as DDL.
A primary key refuses NULL and equal values by itself, so its definition says neither.
-/

namespace ResourceSchema.Sql

/-- What happens to referencing rows when the referenced row changes. -/
inductive ReferentialAction where
  | cascade
  | setNull
  | restrict
deriving DecidableEq, Repr

/-- A referential action in DDL. -/
def ReferentialAction.render : ReferentialAction → String
  | cascade => "CASCADE"
  | setNull => "SET NULL"
  | restrict => "RESTRICT"

/-- The column of another table that a column refers to. -/
structure Reference where
  table : Ident
  column : Ident
  onUpdate : Option ReferentialAction := none
  onDelete : Option ReferentialAction := none
deriving DecidableEq, Repr

/-- A reference in DDL. -/
def Reference.render (r : Reference) : String :=
  "REFERENCES " ++ r.table.escaped ++ "(" ++ r.column.escaped ++ ")" ++
  (match r.onUpdate with
    | none => ""
    | some action => " ON UPDATE " ++ action.render) ++
  (match r.onDelete with
    | none => ""
    | some action => " ON DELETE " ++ action.render)

/-- A column of a table. -/
structure Column where
  name : Ident
  type : String
  nullable : Bool := true
  /-- The expression of the default. -/
  default : Option String := none
  primaryKey : Bool := false
  unique : Bool := false
  reference : Option Reference := none
deriving DecidableEq, Repr

namespace Column

/-- Refuses NULL. -/
def notNull (c : Column) : Column := { c with nullable := false }

/-- Allows or refuses NULL. -/
def setNullable (c : Column) (nullable : Bool) : Column := { c with nullable }

/-- Sets the expression of the default. -/
def setDefault (c : Column) (default : Option String) : Column := { c with default }

/-- Makes the column the primary key, which refuses NULL. -/
def asPrimaryKey (c : Column) : Column := { c with primaryKey := true, nullable := false }

/-- Refuses equal values. -/
def asUnique (c : Column) : Column := { c with unique := true }

/-- Refers to a column of another table. -/
def references (c : Column) (reference : Reference) : Column :=
  { c with reference := some reference }

/-- The definition of a column in DDL. -/
def render (c : Column) : String :=
  c.name.escaped ++ " " ++ c.type ++
  (if c.primaryKey then " PRIMARY KEY" else "") ++
  (match c.reference with
    | none => ""
    | some reference => " " ++ reference.render) ++
  (if c.primaryKey then "" else
    (if c.nullable then "" else " NOT NULL") ++ (if c.unique then " UNIQUE" else "")) ++
  (match c.default with
    | none => ""
    | some expression => " DEFAULT " ++ expression)

end Column

/-- A table. -/
structure Table where
  name : Ident
  columns : List Column := []
  /-- The columns of a primary key that no single column is. -/
  primaryKey : List Ident := []
deriving DecidableEq, Repr

namespace Table

/-- Adds a column at the end. -/
def addColumn (t : Table) (column : Column) : Table :=
  { t with columns := t.columns ++ [column] }

/-- Sets the columns of the primary key. -/
def setPrimaryKey (t : Table) (columns : List Ident) : Table := { t with primaryKey := columns }

/-- The first column with a name. -/
def column? (t : Table) (name : String) : Option Column := t.columns.find? (·.name.raw == name)

/-- The lines between the parentheses of `CREATE TABLE`. -/
def lines (t : Table) : List String :=
  t.columns.map Column.render ++
  if t.primaryKey.isEmpty then []
  else ["PRIMARY KEY (" ++ ", ".intercalate (t.primaryKey.map Ident.escaped) ++ ")"]

/-- The statement that creates the table. -/
def render (t : Table) : String :=
  "CREATE TABLE " ++ t.name.escaped ++ " (\n" ++
  ",\n".intercalate (t.lines.map ("    " ++ ·)) ++ "\n)"

end Table

end ResourceSchema.Sql
