import ResourceSchema.Description.Completion
import ResourceSchema.Proofs.Json.Record

/-!
# Resources as descriptions

What a resource is written as is not only a resource again when it is read back, it is a description
as well: the one that leaves nothing out.  Completing it gives the resource, if the resource was
complete to begin with.
-/

namespace ResourceSchema

variable {α β : Type} {r r' : Resource} {d : Description}

/-! ## Reading what was written -/

namespace Json

theorem map?_ofMap {decode : Json → Option β} {encode : α → Json} {f : α → β}
    (h : ∀ a, decode (encode a) = some (f a)) (m : SortedMap α) :
    map? decode (ofMap encode m) = some (m.map fun _ a ↦ f a) := by
  have hentries : (m.entries.map fun e ↦ (e.1, encode e.2)).mapM
      (fun e ↦ do return (e.1, ← decode e.2)) = some (m.map fun _ a ↦ f a).entries := by
    rw [List.mapM_map]
    simp only [Function.comp_def, h]
    exact List.mapM_pure
  rw [ofMap, map?, hentries]
  exact congrArg some (SortedMap.ofList_entries _)

theorem uint32?_ofUInt32 (n : UInt32) : uint32? (ofUInt32 n) = some n := by
  rw [uint32?, ofUInt32, integer?, Option.bind_some]
  exact Word.uint32?_eq_some_iff.mpr rfl

end Json

/-- The attribute with nothing left out. -/
def Attribute.describe (a : Attribute) : FieldForm :=
  .full a.type (some a.nullable) (a.default.filter fun value ↦ !value.isNull)

/-- The relationship with nothing left out. -/
def Relationship.describe (r : Relationship) : RelationshipForm :=
  .full (some r.resource) r.cardinality (some r.host) (some r.nullable) r.inverse

/-- The actions with nothing left out. -/
def Actions.describe (a : Actions) : ActionsForm :=
  ⟨some a.create, some a.readOne, some a.readMany, some a.update, some a.delete⟩

/-- The pagination with nothing left out. -/
def Pagination.describe (p : Pagination) : PaginationForm :=
  .full (some p.enabled) (some p.defaultPageSize) (some p.defaultPageNumber)

/-- The resource with nothing left out. -/
def Resource.describe (r : Resource) : Description where
  name := r.name
  pluralForm := some r.pluralForm
  attributes := r.attributes.map fun _ a ↦ a.describe
  metaFields := r.metaFields.map fun _ a ↦ a.describe
  relationships := r.relationships.map fun _ rel ↦ rel.describe
  actions := some r.actions.describe
  pagination := some r.pagination.describe
  builtIns := some r.builtIns

theorem FieldForm.ofJson?_toJson (a : Attribute) :
    FieldForm.ofJson? a.toJson = some a.describe := by
  cases a with
  | mk type nullable default =>
      cases default with
      | none => rfl
      | some value => cases value <;> rfl

theorem RelationshipForm.ofJson?_toJson (r : Relationship) :
    RelationshipForm.ofJson? r.toJson = some r.describe := by
  cases r with
  | mk resource cardinality host nullable inverse =>
      cases inverse with
      | none => cases cardinality <;> rfl
      | some name => cases cardinality <;> rfl

theorem ActionsForm.ofJson?_toJson (a : Actions) :
    ActionsForm.ofJson? a.toJson = some a.describe := rfl

theorem PaginationForm.ofJson?_toJson (p : Pagination) :
    PaginationForm.ofJson? p.toJson = some p.describe := by
  have henabled : (Json.bool p.enabled).isNull = false := rfl
  have hsize : (Json.ofUInt32 p.defaultPageSize).isNull = false := rfl
  have hnumber : (Json.ofUInt32 p.defaultPageNumber).isNull = false := rfl
  have hmembers : p.toJson.objectRecord? Pagination.fieldNames =
      some [("enabled", .bool p.enabled), ("default_page_size", .ofUInt32 p.defaultPageSize),
        ("default_page_number", .ofUInt32 p.defaultPageNumber)] := rfl
  rw [PaginationForm.ofJson?.eq_2 p.toJson nofun, hmembers, Option.bind_eq_bind, Option.bind_some,
    Json.optional_of_lookup rfl henabled, Json.optional_of_lookup rfl hsize,
    Json.optional_of_lookup rfl hnumber, Json.uint32?_ofUInt32, Json.uint32?_ofUInt32]
  rfl

theorem BuiltIns.ofJson?_toJson (b : BuiltIns) : BuiltIns.ofJson? b.toJson = some b := by
  cases b with
  | mk createdAt updatedAt => cases createdAt <;> cases updatedAt <;> rfl

/-- What a resource is written as describes it. -/
theorem Description.ofJson?_toJson (r : Resource) :
    Description.ofJson? r.toJson = some r.describe := by
  have hmembers : r.toJson.record? Resource.fieldNames 1 = some
      [("name", .string r.name), ("plural_form", .string r.pluralForm),
        ("attributes", .ofMap Attribute.toJson r.attributes),
        ("meta", .ofMap Attribute.toJson r.metaFields),
        ("relationships", .ofMap Relationship.toJson r.relationships),
        ("actions", r.actions.toJson), ("pagination", r.pagination.toJson),
        ("built_in_meta", r.builtIns.toJson)] := rfl
  have hattributes := Json.map?_ofMap FieldForm.ofJson?_toJson r.attributes
  have hmeta := Json.map?_ofMap FieldForm.ofJson?_toJson r.metaFields
  have hrelationships := Json.map?_ofMap RelationshipForm.ofJson?_toJson r.relationships
  have hactions := congrArg (Option.map some) (ActionsForm.ofJson?_toJson r.actions)
  have hpagination := congrArg (Option.map some) (PaginationForm.ofJson?_toJson r.pagination)
  have hbuiltIns := congrArg (Option.map some) (BuiltIns.ofJson?_toJson r.builtIns)
  -- field by field, in the order in which they are read
  simp only [Description.ofJson?, Option.bind_eq_bind]
  refine Option.bind_eq_some_iff.mpr ⟨_, hmembers, ?_⟩
  refine Option.bind_eq_some_iff.mpr ⟨r.name, rfl, ?_⟩
  refine Option.bind_eq_some_iff.mpr ⟨some r.pluralForm, rfl, ?_⟩
  refine Option.bind_eq_some_iff.mpr ⟨_, (Json.defaulted_of_lookup rfl).trans hattributes, ?_⟩
  refine Option.bind_eq_some_iff.mpr ⟨_, (Json.defaulted_of_lookup rfl).trans hmeta, ?_⟩
  refine Option.bind_eq_some_iff.mpr ⟨_, (Json.defaulted_of_lookup rfl).trans hrelationships, ?_⟩
  refine Option.bind_eq_some_iff.mpr ⟨_, (Json.optional_of_lookup rfl rfl).trans hactions, ?_⟩
  refine Option.bind_eq_some_iff.mpr ⟨_, (Json.optional_of_lookup rfl rfl).trans hpagination, ?_⟩
  refine Option.bind_eq_some_iff.mpr ⟨_, (Json.optional_of_lookup rfl rfl).trans hbuiltIns, ?_⟩
  rfl

/-! ## Completing what leaves nothing out -/

/-- No field has the default `null`; what has no default says so. -/
def NoNullDefaults (fields : SortedMap Attribute) : Prop :=
  ∀ key a, fields.get? key = some a → a.default ≠ some .null

/-- Completing what the resource describes changes nothing. -/
structure Resource.IsComplete (r : Resource) : Prop where
  attributes : NoNullDefaults r.attributes
  metaFields : NoNullDefaults r.metaFields
  builtIns : r.builtIns.addTo r.metaFields = r.metaFields

theorem Attribute.complete_describe {a : Attribute} (h : a.default ≠ some .null) :
    a.describe.complete = a := by
  cases a with
  | mk type nullable default =>
      cases default with
      | none => rfl
      | some value =>
          cases value with
          | null => exact absurd rfl h
          | _ => rfl

theorem Relationship.complete_describe (key : String) (rel : Relationship) :
    rel.describe.complete key = rel := rfl

/-- A complete resource is the one that it describes. -/
theorem Resource.IsComplete.complete_describe (hr : r.IsComplete) : r.describe.complete = r := by
  have hattributes : (r.attributes.map fun _ a ↦ a.describe).map (fun _ form ↦ form.complete) =
      r.attributes :=
    SortedMap.map_map_eq_self fun key a ha ↦ Attribute.complete_describe (hr.attributes key a ha)
  have hmeta : (r.metaFields.map fun _ a ↦ a.describe).map (fun _ form ↦ form.complete) =
      r.metaFields :=
    SortedMap.map_map_eq_self fun key a ha ↦ Attribute.complete_describe (hr.metaFields key a ha)
  have hrelationships :
      (r.relationships.map fun _ rel ↦ rel.describe).map RelationshipForm.complete =
        r.relationships :=
    SortedMap.map_map_eq_self fun key rel _ ↦ rel.complete_describe key
  simp only [Resource.describe, Description.complete, Option.getD_some, hattributes, hmeta,
    hrelationships, hr.builtIns]
  rfl

/-! ## What is complete -/

theorem FieldForm.default_complete (form : FieldForm) : form.complete.default ≠ some .null := by
  cases form with
  | short type => exact nofun
  | full type nullable default =>
      intro h
      obtain ⟨-, hnull⟩ := Option.filter_eq_some_iff.mp h
      cases hnull

theorem FieldForm.noNullDefaults_complete (fields : SortedMap FieldForm) :
    NoNullDefaults (fields.map fun _ form ↦ form.complete) := by
  intro key a ha
  rw [SortedMap.get?_map, Option.map_eq_some_iff] at ha
  obtain ⟨form, -, rfl⟩ := ha
  exact form.default_complete

theorem NoNullDefaults.insert {fields : SortedMap Attribute} (h : NoNullDefaults fields)
    (b : BuiltIn) : NoNullDefaults (fields.insert b.key b.toAttribute) := by
  intro key a ha
  rw [SortedMap.get?_insert] at ha
  split at ha
  · obtain rfl := Option.some.inj ha
    cases b with
    | createdAt | updatedAt => exact nofun
  · exact h key a ha

namespace BuiltIns

variable {b : BuiltIns} {fields : SortedMap Attribute}

theorem get?_addTo {builtIn : BuiltIn} (h : builtIn ∈ b.toList) :
    (b.addTo fields).get? builtIn.key = some builtIn.toAttribute := by
  cases b with
  | mk createdAt updatedAt =>
      cases createdAt <;> cases updatedAt <;> cases builtIn <;>
        simp_all [addTo, toList, SortedMap.get?_insert, BuiltIn.key]

/-- Built-in fields that are there need not be added. -/
theorem addTo_addTo (b : BuiltIns) (fields : SortedMap Attribute) :
    b.addTo (b.addTo fields) = b.addTo fields :=
  List.foldlRecOn (motive := fun m ↦ m = b.addTo fields) b.toList _ rfl
    fun m hm builtIn hb ↦ by rw [hm, SortedMap.insert_eq_self (get?_addTo hb)]

end BuiltIns

/-- What a description is completed to is complete. -/
theorem Description.isComplete_complete (d : Description) : d.complete.IsComplete where
  attributes := FieldForm.noNullDefaults_complete d.attributes
  metaFields := List.foldlRecOn _ _ (FieldForm.noNullDefaults_complete d.metaFields)
    fun _ hm builtIn _ ↦ hm.insert builtIn
  builtIns := BuiltIns.addTo_addTo _ _

end ResourceSchema
