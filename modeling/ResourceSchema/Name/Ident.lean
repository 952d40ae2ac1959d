/-!
# Identifiers and how SQL text writes them

An identifier of a description is a lower-case ASCII word. A name in SQL text is written bare when
it reads back as itself, and between double quotes otherwise.
-/

namespace ResourceSchema

/-- A lower-case ASCII letter, then lower-case letters, ASCII digits and underscores. -/
def isIdentifier (name : String) : Bool :=
  match name.toList with
  | [] => false
  | c :: rest => c.isLower && rest.all fun d => d.isLower || d.isDigit || d = '_'

/-- The name of a table, column or clause. -/
structure Ident where
  raw : String
deriving DecidableEq, Repr

namespace Ident

/-- Words that the database refuses as bare names. -/
def reserved : List String :=
  ["all", "analyse", "analyze", "and", "any", "array", "as", "asc", "asymmetric", "both", "case",
   "cast", "check", "collate", "column", "constraint", "create", "current_catalog",
   "current_date", "current_role", "current_time", "current_timestamp", "current_user",
   "default", "deferrable", "desc", "distinct", "do", "else", "end", "except", "false", "fetch",
   "for", "foreign", "from", "grant", "group", "having", "in", "initially", "intersect", "into",
   "lateral", "leading", "limit", "localtime", "localtimestamp", "not", "null", "offset", "on",
   "only", "or", "order", "placing", "primary", "references", "returning", "select",
   "session_user", "some", "symmetric", "table", "then", "to", "trailing", "true", "union",
   "unique", "user", "using", "variadic", "when", "where", "window", "with"]

/-- May start a bare name. -/
def startsBare (c : Char) : Bool := c.isLower || c = '_'

/-- May stand in a bare name. -/
def continuesBare (c : Char) : Bool := c.isLower || c.isDigit || c = '_' || c = '$'

/-- Reads back as itself when written without quotes, reserved words apart. -/
def isPlain : List Char → Bool
  | [] => false
  | c :: rest => startsBare c && rest.all continuesBare

/-- The name is written without quotes. -/
def isBare (name : Ident) : Bool := isPlain name.raw.toList && !reserved.contains name.raw

/-- Characters between double quotes, with every double quote inside written twice. -/
def quote (cs : List Char) : List Char :=
  '"' :: cs.flatMap (fun c => if c = '"' then ['"', '"'] else [c]) ++ ['"']

/-- The name as it stands in SQL text. -/
def escaped (name : Ident) : String :=
  if name.isBare then name.raw else String.ofList (quote name.raw.toList)

/-- A column of a table, as it stands in SQL text. -/
def qualify (table column : Ident) : String := table.escaped ++ "." ++ column.escaped

end Ident

end ResourceSchema
