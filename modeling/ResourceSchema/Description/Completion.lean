import ResourceSchema.Description.Form
import ResourceSchema.Name.Derived

/-!
# Filling in what a description leaves out

`Description.complete` is total: it turns any description into a resource. Fields are nullable and
without default, relationships are hosted, nullable and point at the resource of their name,
actions are allowed and lists are paginated, unless the description says otherwise.
-/

namespace ResourceSchema

/-- The attribute of a field form; a default of `null` is none. -/
def FieldForm.complete : FieldForm → Attribute
  | short type => ⟨type, true, none⟩
  | full type nullable default =>
    ⟨type, nullable.getD true, default.filter fun value => !value.isNull⟩

/-- The relationship of a form under a key. -/
def RelationshipForm.complete (key : String) : RelationshipForm → Relationship
  | short cardinality => { resource := key, cardinality }
  | full resource cardinality host nullable inverse =>
    ⟨resource.getD key, cardinality, host.getD true, nullable.getD true, inverse⟩

/-- The actions; those that are not switched off are allowed. -/
def ActionsForm.complete (a : ActionsForm) : Actions :=
  ⟨a.create.getD true, a.readOne.getD true, a.readMany.getD true, a.update.getD true,
    a.delete.getD true⟩

/-- The pagination of a form. -/
def PaginationForm.complete : PaginationForm → Pagination
  | short enabled => { enabled }
  | full enabled size number =>
    ⟨enabled.getD true, size.getD Pagination.standardSize,
      number.getD Pagination.standardNumber⟩

/-- Adds the built-in meta fields; they replace fields with their keys. -/
def BuiltIns.addTo (s : BuiltIns) (fields : SortedMap Attribute) : SortedMap Attribute :=
  s.toList.foldl (fun m b => m.insert b.key b.toAttribute) fields

/-- The resource that a description describes. -/
def Description.complete (d : Description) : Resource :=
  let builtIns := d.builtIns.getD .all
  { name := d.name
    pluralForm := d.pluralForm.getD (Name.defaultPlural d.name)
    attributes := d.attributes.map fun _ form => form.complete
    metaFields := builtIns.addTo (d.metaFields.map fun _ form => form.complete)
    relationships := d.relationships.map RelationshipForm.complete
    actions := (d.actions.getD {}).complete
    pagination := (d.pagination.getD (.short true)).complete
    builtIns }

end ResourceSchema
