import ResourceSchema.Proofs.Description.Acceptance

/-!
# Valid descriptions

A description without issues keeps the rules for names, keys and types.  What they guarantee is
still there when the description has become a resource: the fields that the database maintains keep
the rules themselves, and no host relationship is added.
-/

namespace ResourceSchema

variable {ds : List Description} {d : Description} {rs : List Resource} {r : Resource}
variable {part : FieldSection} {place : Place} {key : String} {form : FieldForm}
variable {rel : RelationshipForm}

/-! ## The rules -/

/-- A key of a field or a relationship: an identifier that is not reserved. -/
structure IsKey (key : String) : Prop where
  identifier : isIdentifier key = true
  ne_id : key ≠ Name.idColumn
  not_meta : hasMetaPrefix key = false

/-- The rules for a field. -/
structure FieldForm.Valid (key : String) (form : FieldForm) : Prop where
  isKey : IsKey key
  type : isTypeLiteral form.type = true

/-- The rules for a relationship of the description `d`. -/
structure RelationshipForm.Valid (d : Description) (key : String) (form : RelationshipForm) :
    Prop where
  isKey : IsKey key
  not_attribute : d.attributes.contains key = false
  not_metaField : d.metaFields.contains key = false
  column : d.attributes.contains (Name.foreignKeyColumn key) = false
  target : ∀ name, form.target? = some name → isIdentifier name = true
  inverse : ∀ name, form.inverse? = some name → isIdentifier name = true

/-- The rules for a description. -/
structure Description.Valid (d : Description) : Prop where
  name : isIdentifier d.name = true
  pluralForm : ∀ plural, d.pluralForm = some plural → isIdentifier plural = true
  attributes : ∀ key form, d.attributes.get? key = some form → form.Valid key
  metaFields : ∀ key form, d.metaFields.get? key = some form → form.Valid key
  metaFields_new : ∀ key ∈ d.metaFields.keys, d.attributes.contains key = false
  relationships : ∀ key form, d.relationships.get? key = some form → form.Valid d key
  pagination : ∀ enabled size number, d.pagination = some (.full enabled size number) →
    size ≠ some 0 ∧ number ≠ some 0

/-! ## No issues -/

theorem keyViolation?_eq_none_iff : keyViolation? key = none ↔ IsKey key := by
  unfold keyViolation?
  constructor
  · intro h
    split at h
    · cases h
    · next hidentifier =>
      split at h
      · cases h
      · next hid =>
        split at h
        · cases h
        · next hmeta =>
          rw [Bool.not_eq_true, Bool.not_eq_false'] at hidentifier
          exact ⟨hidentifier, hid, Bool.eq_false_iff.mpr hmeta⟩
  · rintro ⟨hidentifier, hid, hmeta⟩
    simp [hidentifier, hid, hmeta]

namespace Description

theorem issueIf_eq_nil_iff {condition : Bool} {violation : Violation} :
    d.issueIf condition place violation = [] ↔ condition = false := by
  cases condition with
  | false => exact iff_of_true rfl rfl
  | true => exact iff_of_false (List.cons_ne_nil _ _) Bool.noConfusion

theorem identifierIssues_eq_nil_iff {given : Option String} :
    d.identifierIssues place given = [] ↔ ∀ text, given = some text → isIdentifier text = true := by
  rw [identifierIssues, issueIf_eq_nil_iff]
  cases given with
  | none => simp
  | some text => simp

theorem keyIssues_eq_nil_iff : d.keyIssues place key = [] ↔ IsKey key := by
  rw [keyIssues, List.map_eq_nil_iff, Option.toList_eq_nil_iff, keyViolation?_eq_none_iff]

theorem fieldIssues_eq_nil_iff : d.fieldIssues part key form = [] ↔ form.Valid key := by
  rw [fieldIssues, List.append_eq_nil_iff, keyIssues_eq_nil_iff, issueIf_eq_nil_iff,
    Bool.not_eq_false']
  exact ⟨fun ⟨hkey, htype⟩ ↦ ⟨hkey, htype⟩, fun ⟨hkey, htype⟩ ↦ ⟨hkey, htype⟩⟩

theorem relationshipIssues_eq_nil_iff : d.relationshipIssues key rel = [] ↔ rel.Valid d key := by
  unfold relationshipIssues
  simp only [List.append_eq_nil_iff, keyIssues_eq_nil_iff, issueIf_eq_nil_iff,
    identifierIssues_eq_nil_iff]
  constructor
  · rintro ⟨⟨⟨⟨⟨hkey, hattribute⟩, hmeta⟩, hcolumn⟩, htarget⟩, hinverse⟩
    exact ⟨hkey, hattribute, hmeta, hcolumn, htarget, hinverse⟩
  · rintro ⟨hkey, hattribute, hmeta, hcolumn, htarget, hinverse⟩
    exact ⟨⟨⟨⟨⟨hkey, hattribute⟩, hmeta⟩, hcolumn⟩, htarget⟩, hinverse⟩

theorem paginationIssues_eq_nil_iff :
    d.paginationIssues = [] ↔ ∀ enabled size number,
      d.pagination = some (.full enabled size number) → size ≠ some 0 ∧ number ≠ some 0 := by
  unfold paginationIssues
  split
  · next enabled size number h =>
    simp [h, List.append_eq_nil_iff, issueIf_eq_nil_iff]
  · next hnone =>
    exact iff_of_true rfl fun enabled size number h ↦ absurd h (hnone enabled size number)

theorem flatMap_entries_eq_nil_iff {α : Type} {m : SortedMap α} {f : String → α → List Issue} :
    m.entries.flatMap (fun e ↦ f e.1 e.2) = [] ↔
      ∀ key value, m.get? key = some value → f key value = [] := by
  simp only [List.flatMap_eq_nil_iff, Prod.forall, SortedMap.get?_eq_some_iff]

/-- A description has no issues exactly if it keeps the rules. -/
theorem issues_eq_nil_iff : d.issues = [] ↔ d.Valid := by
  unfold issues
  rw [List.append_eq_nil_iff, List.append_eq_nil_iff, List.append_eq_nil_iff,
    List.append_eq_nil_iff, List.append_eq_nil_iff, List.append_eq_nil_iff,
    flatMap_entries_eq_nil_iff, flatMap_entries_eq_nil_iff, flatMap_entries_eq_nil_iff]
  simp only [identifierIssues_eq_nil_iff, Option.some.injEq, forall_eq', fieldIssues_eq_nil_iff,
    relationshipIssues_eq_nil_iff, paginationIssues_eq_nil_iff, List.flatMap_eq_nil_iff,
    issueIf_eq_nil_iff]
  constructor
  · rintro ⟨⟨⟨⟨⟨⟨hname, hplural⟩, hattributes⟩, hmeta⟩, hnew⟩, hrelationships⟩, hpagination⟩
    exact ⟨hname, hplural, hattributes, hmeta, hnew, hrelationships, hpagination⟩
  · rintro ⟨hname, hplural, hattributes, hmeta, hnew, hrelationships, hpagination⟩
    exact ⟨⟨⟨⟨⟨⟨hname, hplural⟩, hattributes⟩, hmeta⟩, hnew⟩, hrelationships⟩, hpagination⟩

end Description

/-- A set has no issues exactly if its descriptions keep the rules and no name comes twice. -/
theorem issues_eq_nil_iff :
    issues ds = [] ↔ (∀ d ∈ ds, d.Valid) ∧ (ds.map Description.name).Nodup := by
  rw [issues, List.append_eq_nil_iff, duplicateIssues_eq_nil_iff, List.flatMap_eq_nil_iff]
  simp only [Description.issues_eq_nil_iff]

/-! ## Resources of valid descriptions -/

/-- The fields have keys and types that can make columns. -/
def ValidFields (fields : SortedMap Attribute) : Prop :=
  ∀ key a, fields.get? key = some a → IsKey key ∧ isTypeLiteral a.type = true

/-- What the rules guarantee about the columns of a resource. -/
structure Resource.WellKeyed (r : Resource) : Prop where
  attributes : ValidFields r.attributes
  metaFields : ValidFields r.metaFields
  hosts : ∀ key rel, r.relationships.get? key = some rel → rel.host = true →
    IsKey key ∧ r.attributes.contains (Name.foreignKeyColumn key) = false

theorem BuiltIn.isKey (b : BuiltIn) : IsKey b.key := by
  cases b with
  | createdAt => exact ⟨by decide, by decide, by decide⟩
  | updatedAt => exact ⟨by decide, by decide, by decide⟩

theorem BuiltIn.isTypeLiteral (b : BuiltIn) : isTypeLiteral b.toAttribute.type = true := by
  cases b with
  | createdAt | updatedAt => decide +kernel

theorem FieldForm.type_complete (form : FieldForm) : form.complete.type = form.type := by
  cases form with
  | short | full => rfl

theorem FieldForm.validFields_complete {fields : SortedMap FieldForm}
    (hfields : ∀ key form, fields.get? key = some form → form.Valid key) :
    ValidFields (fields.map fun _ form ↦ form.complete) := by
  intro key a ha
  rw [SortedMap.get?_map, Option.map_eq_some_iff] at ha
  obtain ⟨form, hform, rfl⟩ := ha
  obtain ⟨hkey, htype⟩ := hfields key form hform
  exact ⟨hkey, form.type_complete ▸ htype⟩

theorem ValidFields.insert {fields : SortedMap Attribute} (h : ValidFields fields) (b : BuiltIn) :
    ValidFields (fields.insert b.key b.toAttribute) := by
  intro key a ha
  rw [SortedMap.get?_insert] at ha
  split at ha
  · next hkey =>
    obtain rfl := Option.some.inj ha
    exact ⟨hkey ▸ b.isKey, b.isTypeLiteral⟩
  · exact h key a ha

theorem BuiltIns.validFields_addTo (b : BuiltIns) {fields : SortedMap Attribute}
    (h : ValidFields fields) : ValidFields (b.addTo fields) :=
  List.foldlRecOn b.toList _ h fun _ hm builtIn _ ↦ hm.insert builtIn

theorem Description.Valid.wellKeyed (h : d.Valid) : d.complete.WellKeyed where
  attributes := FieldForm.validFields_complete h.attributes
  metaFields := BuiltIns.validFields_addTo _ (FieldForm.validFields_complete h.metaFields)
  hosts := by
    intro key rel hrel _
    rw [complete, SortedMap.get?_map, Option.map_eq_some_iff] at hrel
    obtain ⟨form, hform, -⟩ := hrel
    obtain ⟨hkey, -, -, hcolumn, -, -⟩ := h.relationships key form hform
    exact ⟨hkey, (SortedMap.contains_map _ _ _).trans hcolumn⟩

theorem Resource.wellKeyed_of_hosting {r' : Resource} (hosts : r.hosting = r'.hosting)
    (h : r.WellKeyed) : r'.WellKeyed := by
  have hattributes : r.hosting.attributes = r'.hosting.attributes := by rw [hosts]
  have hmeta : r.hosting.metaFields = r'.hosting.metaFields := by rw [hosts]
  change r.attributes = r'.attributes at hattributes
  change r.metaFields = r'.metaFields at hmeta
  have hrelationships := congrArg Resource.relationships hosts
  refine ⟨hattributes ▸ h.attributes, hmeta ▸ h.metaFields, fun key rel hrel hhost ↦ ?_⟩
  have hrel' : r'.hosting.relationships.get? key = some rel :=
    SortedMap.get?_filter_eq_some_iff.mpr ⟨hrel, hhost⟩
  rw [← hrelationships] at hrel'
  rw [← hattributes]
  exact h.hosts key rel (SortedMap.get?_filter_eq_some_iff.mp hrel').1 hhost

section Accepted

variable (accepted : resourcesOf ds = .ok rs) (hr : r ∈ rs)
include accepted hr

/-- An accepted resource has the fields and the host relationships of a valid description. -/
theorem exists_valid_description : ∃ d ∈ ds, d.Valid ∧ d.complete.hosting = r.hosting := by
  obtain ⟨hissues, rfl⟩ := resourcesOf_eq_ok_iff.mp accepted
  obtain ⟨hvalid, -⟩ := issues_eq_nil_iff.mp hissues
  have hhosting := List.mem_map_of_mem (f := Resource.hosting) hr
  rw [map_hosting_addInverses, List.map_map] at hhosting
  obtain ⟨d, hd, hosts⟩ := List.mem_map.mp hhosting
  exact ⟨d, hd, hvalid d hd, hosts⟩

/-- The resources of an accepted set have well-formed keys, and no two of them clash. -/
theorem accepted_wellKeyed : r.WellKeyed := by
  obtain ⟨d, -, hvalid, hosts⟩ := exists_valid_description accepted hr
  exact Resource.wellKeyed_of_hosting hosts hvalid.wellKeyed

/-- A host relationship has not the key of an attribute, and that of a meta field only if the field
came in later. -/
theorem accepted_host_apart {host : Relationship} (hrel : r.relationships.get? key = some host)
    (hhost : host.host = true) :
    r.attributes.contains key = false ∧
      (r.metaFields.contains key = true → ∃ b ∈ r.builtIns.toList, key = b.key) := by
  obtain ⟨d, -, hvalid, hosts⟩ := exists_valid_description accepted hr
  have hhosting : r.hosting.relationships.get? key = some host :=
    SortedMap.get?_filter_eq_some_iff.mpr ⟨hrel, hhost⟩
  rw [← hosts] at hhosting
  obtain ⟨hcomplete, -⟩ := SortedMap.get?_filter_eq_some_iff.mp hhosting
  rw [Description.complete, SortedMap.get?_map, Option.map_eq_some_iff] at hcomplete
  obtain ⟨form, hform, -⟩ := hcomplete
  obtain ⟨-, hattribute, hmeta, -, -, -⟩ := hvalid.relationships key form hform
  constructor
  · show r.hosting.attributes.contains key = false
    rw [← hosts]
    exact (SortedMap.contains_map _ _ _).trans hattribute
  · show r.hosting.metaFields.contains key = true → ∃ b ∈ r.hosting.builtIns.toList, key = b.key
    rw [← hosts]
    intro hcontains
    refine (BuiltIns.contains_addTo.mp hcontains).resolve_right ?_
    rw [SortedMap.contains_map, hmeta]
    exact Bool.false_ne_true

/-- An attribute has the key of a meta field only if the field came in later. -/
theorem accepted_metaField_apart (hattribute : r.attributes.contains key = true)
    (hmeta : r.metaFields.contains key = true) : ∃ b ∈ r.builtIns.toList, key = b.key := by
  obtain ⟨d, -, hvalid, hosts⟩ := exists_valid_description accepted hr
  change r.hosting.attributes.contains key = true at hattribute
  change r.hosting.metaFields.contains key = true at hmeta
  show ∃ b ∈ r.hosting.builtIns.toList, key = b.key
  rw [← hosts] at hattribute hmeta ⊢
  refine (BuiltIns.contains_addTo.mp hmeta).resolve_right fun hdeclared ↦ ?_
  rw [SortedMap.contains_map] at hdeclared
  have hnew := hvalid.metaFields_new key (SortedMap.contains_iff.mp hdeclared)
  rw [← SortedMap.contains_map (fun _ form ↦ form.complete)] at hnew
  exact nomatch hnew.symm.trans hattribute

end Accepted

end ResourceSchema
