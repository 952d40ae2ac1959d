import ResourceSchema.Json.Printer

/-!
# Literals and column defaults in DDL

A string becomes a literal between single quotes, in which a single quote is written twice. A
string with a backslash takes the form `E'...'`, in which a backslash is written twice as well.
A column default is a literal, apart from numbers, truth values and a few functions.
-/

namespace ResourceSchema.Sql

/-- Writes a character twice wherever it occurs. -/
def doubled (mark : Char) (cs : List Char) : List Char :=
  cs.flatMap fun c => if c = mark then [c, c] else [c]

/-- The characters of a string literal. -/
def literalChars (cs : List Char) : List Char :=
  if cs.contains '\\' then 'E' :: '\'' :: doubled '\\' (doubled '\'' cs) ++ ['\'']
  else '\'' :: doubled '\'' cs ++ ['\'']

/-- A string literal. -/
def literal (text : String) : String := String.ofList (literalChars text.toList)

/-- Default expressions that are no literals. -/
def defaultFunctions : List String :=
  ["now()", "current_timestamp", "current_date", "current_time", "localtimestamp"]

/-- Text with the ASCII letters in lower case. -/
def lowercase (text : String) : String := String.ofList (text.toList.map Char.toLower)

/-- The expression of a column default; `null` has none. -/
def defaultExpression? : Json → Option String
  | .null => none
  | .bool true => some "TRUE"
  | .bool false => some "FALSE"
  | .number n => some n.render
  | .string s =>
    if defaultFunctions.contains (lowercase s) then some (lowercase s) else some (literal s)
  | .array items => some (literal (Json.array items).compact)
  | .object members => some (literal (Json.object members).compact)

end ResourceSchema.Sql
