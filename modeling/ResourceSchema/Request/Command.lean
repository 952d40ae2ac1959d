import ResourceSchema.Name.Derived
import ResourceSchema.Name.Ident
import ResourceSchema.Schema.Definition
import ResourceSchema.Sql.Parameters
import ResourceSchema.Sql.Select

/-!
# Commands on tables

A `Command` says which rows of which tables are read or written, with placeholders in the place of
values; `Command.render` is its SQL text. A relationship whose key another table stores is read
through a virtual table, a subquery that collects the related ids of every row.
-/

namespace ResourceSchema

open Sql

/-- A subquery that groups the rows of `source` by `key` and collects `value` in each group; only
the group of one key if there is a placeholder for it. -/
structure VirtualTable where
  name : Ident
  source : Ident
  key : Ident
  value : Ident
  row : Option Placeholder
deriving DecidableEq, Repr

namespace VirtualTable

/-- The column of a virtual table with the key. -/
def keyName : String := "host_id"

/-- The column of a virtual table with the collected ids. -/
def idsName : String := "ids"

/-- The subquery. -/
def render (v : VirtualTable) : String :=
  let key := v.source.qualify v.key
  Select.render
    { source := v.source.escaped
      columns := [key ++ " AS " ++ keyName,
        "array_agg(" ++ v.source.qualify v.value ++ ") AS " ++ idsName]
      conditions := v.row.toList.map fun p => key ++ " = " ++ p.render
      groups := [key] }

end VirtualTable

/-- A column of the result of a read. -/
inductive Output where
  /-- Every column of the table. -/
  | allColumns
  | column (column : Ident)
  /-- The ids that a virtual table collects for the row, or the first of them. -/
  | relatedIds (virtualTable : Ident) (many : Bool) (name : Ident)
  /-- How many rows there are on all pages. -/
  | totalCount
deriving DecidableEq, Repr

/-- The column with the number of rows. -/
def totalCountColumn : Ident := ⟨Name.metaColumn "total_count"⟩

/-- An output column of a read of a table. -/
def Output.render (table : Ident) : Output → String
  | allColumns => table.escaped ++ ".*"
  | column c => table.qualify c
  | relatedIds virtualTable many name =>
    let ids := virtualTable.escaped ++ "." ++ VirtualTable.idsName
    "(SELECT " ++ (if many then ids else "(" ++ ids ++ ")[1]") ++ " FROM " ++
      virtualTable.escaped ++ " WHERE " ++ virtualTable.escaped ++ "." ++ VirtualTable.keyName ++
      " = " ++ table.qualify idColumn ++ ") AS " ++ name.escaped
  | totalCount => "count(*) OVER () AS " ++ totalCountColumn.escaped

/-- The placeholders for the size of a page and for the number of rows before it. -/
structure PageBounds where
  limit : Placeholder
  offset : Placeholder
deriving DecidableEq, Repr

/-- Rows of a table: the row with an id, or a list in the order of ids. -/
structure ReadCommand where
  table : Ident
  virtualTables : List VirtualTable
  outputs : List Output
  row : Option Placeholder
  /-- A condition in SQL, apart from that on the id. -/
  filter : Option String
  page : Option PageBounds
deriving DecidableEq, Repr

namespace ReadCommand

/-- The clauses of the statement. -/
def select (c : ReadCommand) : Select :=
  let id := c.table.qualify idColumn
  { commonTables := c.virtualTables.map fun v => ⟨v.name.escaped, v.render⟩
    columns := c.outputs.map (Output.render c.table)
    source := c.table.escaped
    conditions := (c.row.toList.map fun p => id ++ " = " ++ p.render) ++
      c.filter.toList.map fun f => "(" ++ f ++ ")"
    orders := if c.row.isSome then [] else [id]
    limit := c.page.map fun p => p.limit.render
    offset := c.page.map fun p => p.offset.render }

end ReadCommand

/-- The value of a column. -/
structure Assignment where
  column : Ident
  value : Placeholder
deriving DecidableEq, Repr

/-- A command on tables. Those that write return the row. -/
inductive Command where
  | read (command : ReadCommand)
  | insert (table : Ident) (assignments : List Assignment)
  | update (table : Ident) (assignments : List Assignment) (row : Placeholder)
  | delete (table : Ident) (row : Placeholder)
deriving DecidableEq, Repr

/-- The condition that picks the row with an id. -/
def rowCondition (table : Ident) (row : Placeholder) : String :=
  " WHERE " ++ table.qualify idColumn ++ " = " ++ row.render

/-- A command as SQL text. -/
def Command.render : Command → String
  | read command => command.select.render
  | insert table [] => "INSERT INTO " ++ table.escaped ++ " DEFAULT VALUES RETURNING *"
  | insert table assignments =>
    "INSERT INTO " ++ table.escaped ++
      " (" ++ ", ".intercalate (assignments.map fun a => a.column.escaped) ++ ") VALUES (" ++
      ", ".intercalate (assignments.map fun a => a.value.render) ++ ") RETURNING *"
  | update table assignments row =>
    "UPDATE " ++ table.escaped ++ " SET " ++
      ", ".intercalate (assignments.map fun a => a.column.escaped ++ " = " ++ a.value.render) ++
      rowCondition table row ++ " RETURNING *"
  | delete table row =>
    "DELETE FROM " ++ table.escaped ++ rowCondition table row ++ " RETURNING *"

/-- A command with the values of its placeholders. -/
structure Prepared where
  command : Command
  parameters : Parameters
deriving DecidableEq

/-- The SQL text with its parameters. -/
def Prepared.statement (p : Prepared) : Statement := ⟨p.command.render, p.parameters⟩

end ResourceSchema
