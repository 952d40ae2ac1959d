import ResourceSchema.Description.Form
import ResourceSchema.Json.Reader

/-!
# Descriptions as documents

A document is the text of one description. It is read from left to right, and the first problem
decides its fault; the values of fields, relationships and pagination are read whole before they
have to fit a form.
-/

namespace ResourceSchema.Description

open Json

/-- An optional truth value of a record. -/
def switch {σ : Type} (name : String) (put : Option Bool → σ → σ) : Reader.Field σ :=
  ⟨name, false, fun s => return put (← Reader.optional Reader.truth) s⟩

/-- The switches of the actions. -/
def actionFields : List (Reader.Field ActionsForm) :=
  [switch "create" fun b a => { a with create := b },
   switch "read_one" fun b a => { a with readOne := b },
   switch "read_many" fun b a => { a with readMany := b },
   switch "update" fun b a => { a with update := b },
   switch "delete" fun b a => { a with delete := b }]

/-- A field form, with its default in canonical form. -/
def fieldForm? (j : Json) : Option FieldForm := (FieldForm.ofJson? j).map FieldForm.canonical

/-- The fields of a description of which `room` containers may be nested inside. -/
def fields (room : Nat) : List (Reader.Field Description) :=
  [⟨"name", true, fun d => return { d with name := ← Reader.text }⟩,
   ⟨"plural_form", false, fun d =>
     return { d with pluralForm := ← Reader.optional Reader.text }⟩,
   ⟨"attributes", false, fun d =>
     return { d with attributes := ← Reader.mapOf room fieldForm? }⟩,
   ⟨"meta", false, fun d => return { d with metaFields := ← Reader.mapOf room fieldForm? }⟩,
   ⟨"relationships", false, fun d =>
     return { d with relationships := ← Reader.mapOf room RelationshipForm.ofJson? }⟩,
   ⟨"actions", false, fun d =>
     return { d with actions := ← Reader.optional (Reader.record room actionFields {}) }⟩,
   ⟨"pagination", false, fun d =>
     return { d with
       pagination := ← Reader.optional (Reader.decoded room PaginationForm.ofJson?) }⟩,
   ⟨"built_in_meta", false, fun d =>
     return { d with
       builtIns := ← Reader.optional (Reader.setOf room BuiltIns.addKey? .none) }⟩]

/-- Reads a document. -/
def parse (document : String) : Except Fault Description :=
  readAll (Reader.record Reader.depth (fields (Reader.depth - 1)) (named "")) document

end ResourceSchema.Description
