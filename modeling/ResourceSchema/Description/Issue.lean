import ResourceSchema.Description.Form
import ResourceSchema.Decimal.Digits
import ResourceSchema.Name.Derived
import ResourceSchema.Name.Ident
import ResourceSchema.Sql.TypeLiteral

/-!
# What is wrong with descriptions

`issues` lists every violation in a set of descriptions: those of each description in turn, and
then the names that several descriptions share. A set without issues is valid.
-/

namespace ResourceSchema

/-- The two kinds of fields. -/
inductive FieldSection where
  | attributes
  | metaFields
deriving DecidableEq, Repr

/-- The member of a description that holds the fields of a kind. -/
def FieldSection.name : FieldSection → String
  | attributes => "attributes"
  | metaFields => "meta"

/-- The part of a description that an issue is about. -/
inductive Place where
  | whole
  | name
  | pluralForm
  | field (part : FieldSection) (key : String)
  | fieldType (part : FieldSection) (key : String)
  | relationship (key : String)
  | target (relationship : String)
  | inverse (relationship : String)
  | defaultPageSize
  | defaultPageNumber
deriving DecidableEq, Repr

/-- The keys that lead to a place, with points between them. -/
def Place.path : Place → String
  | whole => ""
  | name => "name"
  | pluralForm => "plural_form"
  | field part key => part.name ++ "." ++ key
  | fieldType part key => part.name ++ "." ++ key ++ ".type"
  | relationship key => "relationships." ++ key
  | target key => "relationships." ++ key ++ ".resource"
  | inverse key => "relationships." ++ key ++ ".inverse"
  | defaultPageSize => "pagination.default_page_size"
  | defaultPageNumber => "pagination.default_page_number"

/-- What is wrong at a place. -/
inductive Violation where
  | notIdentifier
  | reservedId
  | reservedPrefix
  | alsoAttribute
  | alsoMetaField
  | keyColumnOf (relationship : String)
  | unsupportedType (type : String)
  | belowOne
  | declaredTimes (count : Nat)
deriving DecidableEq, Repr

/-- A violation in words. -/
def Violation.message : Violation → String
  | notIdentifier => "not a valid identifier"
  | reservedId => "'" ++ Name.idColumn ++ "' is reserved"
  | reservedPrefix => "prefix '" ++ Name.metaPrefix ++ "' is reserved"
  | alsoAttribute => "also declared as an attribute"
  | alsoMetaField => "also declared as a meta field"
  | keyColumnOf relationship =>
    "clashes with the key column of relationship '" ++ relationship ++ "'"
  | unsupportedType type => "unsupported type literal '" ++ type ++ "'"
  | belowOne => "must be at least 1"
  | declaredTimes count => "resource declared " ++ Decimal.ofNat count ++ " times"

/-- A violation, and where it is. -/
structure Issue where
  resource : String
  place : Place
  violation : Violation
deriving DecidableEq, Repr

namespace Issue

/-- The path of the place. -/
def path (i : Issue) : String := i.place.path

/-- The violation in words. -/
def message (i : Issue) : String := i.violation.message

/-- Place and violation in one line. -/
def render (i : Issue) : String :=
  i.resource ++ (if i.path.isEmpty then "" else "." ++ i.path) ++ ": " ++ i.message

end Issue

/-- The text starts with the prefix of meta columns. -/
def hasMetaPrefix (key : String) : Bool := Name.metaPrefix.toList.isPrefixOf key.toList

/-- What is wrong with the key of a field or relationship by itself. -/
def keyViolation? (key : String) : Option Violation :=
  if !isIdentifier key then some .notIdentifier
  else if key = Name.idColumn then some .reservedId
  else if hasMetaPrefix key then some .reservedPrefix
  else none

namespace Description

/-- An issue of a description if a condition holds. -/
def issueIf (d : Description) (condition : Bool) (place : Place) (violation : Violation) :
    List Issue :=
  if condition then [⟨d.name, place, violation⟩] else []

/-- A text that is given has to be an identifier. -/
def identifierIssues (d : Description) (place : Place) (given : Option String) : List Issue :=
  d.issueIf (given.any (!isIdentifier ·)) place .notIdentifier

/-- The issue of a key. -/
def keyIssues (d : Description) (place : Place) (key : String) : List Issue :=
  (keyViolation? key).toList.map fun v => ⟨d.name, place, v⟩

/-- The issues of one field: its key and its type. -/
def fieldIssues (d : Description) (part : FieldSection) (key : String) (form : FieldForm) :
    List Issue :=
  d.keyIssues (.field part key) key ++
  d.issueIf (!isTypeLiteral form.type) (.fieldType part key) (.unsupportedType form.type)

/-- The issues of one relationship: its key, the names it shares with fields, its key column and
the names it refers to. -/
def relationshipIssues (d : Description) (key : String) (form : RelationshipForm) : List Issue :=
  let column := Name.foreignKeyColumn key
  d.keyIssues (.relationship key) key ++
  d.issueIf (d.attributes.contains key) (.relationship key) .alsoAttribute ++
  d.issueIf (d.metaFields.contains key) (.relationship key) .alsoMetaField ++
  d.issueIf (d.attributes.contains column) (.field .attributes column) (.keyColumnOf key) ++
  d.identifierIssues (.target key) form.target? ++
  d.identifierIssues (.inverse key) form.inverse?

/-- The issues of the pagination. -/
def paginationIssues (d : Description) : List Issue :=
  match d.pagination with
  | some (.full _ size number) =>
    d.issueIf (size = some 0) .defaultPageSize .belowOne ++
    d.issueIf (number = some 0) .defaultPageNumber .belowOne
  | _ => []

/-- The issues of one description. -/
def issues (d : Description) : List Issue :=
  d.identifierIssues .name (some d.name) ++
  d.identifierIssues .pluralForm d.pluralForm ++
  d.attributes.entries.flatMap (fun e => d.fieldIssues .attributes e.1 e.2) ++
  d.metaFields.entries.flatMap (fun e => d.fieldIssues .metaFields e.1 e.2) ++
  d.metaFields.keys.flatMap (fun key =>
    d.issueIf (d.attributes.contains key) (.field .metaFields key) .alsoAttribute) ++
  d.relationships.entries.flatMap (fun e => d.relationshipIssues e.1 e.2) ++
  d.paginationIssues

end Description

/-- The names that several descriptions share, each once, in code-point order. -/
def duplicateIssues (ds : List Description) : List Issue :=
  let names := ds.map Description.name
  (NameSet.ofNames names).keys.flatMap fun name =>
    if 1 < names.count name then [⟨name, .whole, .declaredTimes (names.count name)⟩] else []

/-- The issues of a set of descriptions. -/
def issues (ds : List Description) : List Issue :=
  ds.flatMap Description.issues ++ duplicateIssues ds

end ResourceSchema
