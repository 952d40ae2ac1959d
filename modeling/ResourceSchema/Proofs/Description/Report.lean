import ResourceSchema.Proofs.Description.Validity

/-!
# What is reported about a set of descriptions

Several rules can be broken in one place, and of the rules for a key only the first that is broken
is reported.  Still, the places that are reported are exactly those in which a rule is broken.  What
is reported about a description does not depend on those around it; only names that come twice are
reported for the set as a whole.
-/

namespace ResourceSchema

variable {ds : List Description} {d : Description} {place : Place} {key : String}
variable {q : String × Place}

/-! ## Places in which a rule is broken -/

/-- The fields of a kind. -/
def Description.fieldsOf (d : Description) : FieldSection → SortedMap FieldForm
  | .attributes => d.attributes
  | .metaFields => d.metaFields

/-- A rule for descriptions is broken in the place. -/
inductive Description.BreaksAt (d : Description) : Place → Prop
  | name (malformed : isIdentifier d.name = false) : d.BreaksAt .name
  | pluralForm {plural : String} (given : d.pluralForm = some plural)
      (malformed : isIdentifier plural = false) : d.BreaksAt .pluralForm
  | fieldKey {part : FieldSection} {key : String} {form : FieldForm}
      (declared : (d.fieldsOf part).get? key = some form) (refused : ¬ IsKey key) :
      d.BreaksAt (.field part key)
  | fieldType {part : FieldSection} {key : String} {form : FieldForm}
      (declared : (d.fieldsOf part).get? key = some form)
      (unsupported : isTypeLiteral form.type = false) : d.BreaksAt (.fieldType part key)
  /-- A meta field has the key of an attribute. -/
  | metaField {key : String} (declared : d.metaFields.contains key = true)
      (clash : d.attributes.contains key = true) : d.BreaksAt (.field .metaFields key)
  | relationshipKey {key : String} {form : RelationshipForm}
      (declared : d.relationships.get? key = some form) (refused : ¬ IsKey key) :
      d.BreaksAt (.relationship key)
  /-- A relationship has the key of an attribute or a meta field. -/
  | relationship {key : String} {form : RelationshipForm}
      (declared : d.relationships.get? key = some form)
      (clash : d.attributes.contains key = true ∨ d.metaFields.contains key = true) :
      d.BreaksAt (.relationship key)
  /-- An attribute has the name of the column that a relationship may need. -/
  | keyColumn {key : String} {form : RelationshipForm}
      (declared : d.relationships.get? key = some form)
      (clash : d.attributes.contains (Name.foreignKeyColumn key) = true) :
      d.BreaksAt (.field .attributes (Name.foreignKeyColumn key))
  | target {key name : String} {form : RelationshipForm}
      (declared : d.relationships.get? key = some form) (given : form.target? = some name)
      (malformed : isIdentifier name = false) : d.BreaksAt (.target key)
  | inverse {key name : String} {form : RelationshipForm}
      (declared : d.relationships.get? key = some form) (given : form.inverse? = some name)
      (malformed : isIdentifier name = false) : d.BreaksAt (.inverse key)
  | defaultPageSize {enabled : Option Bool} {number : Option UInt32}
      (given : d.pagination = some (.full enabled (some 0) number)) : d.BreaksAt .defaultPageSize
  | defaultPageNumber {enabled : Option Bool} {size : Option UInt32}
      (given : d.pagination = some (.full enabled size (some 0))) : d.BreaksAt .defaultPageNumber

/-! ## Places that are reported -/

/-- Where an issue is: the name of the description, and the place in it. -/
def Issue.spot (i : Issue) : String × Place := (i.resource, i.place)

namespace Description

theorem mem_spots_issueIf {condition : Bool} {violation : Violation} :
    q ∈ (d.issueIf condition place violation).map Issue.spot ↔
      condition = true ∧ q = (d.name, place) := by
  cases condition with
  | false => simp [issueIf]
  | true => simp [issueIf, Issue.spot]

theorem mem_spots_identifierIssues {given : Option String} :
    q ∈ (d.identifierIssues place given).map Issue.spot ↔
      (∃ text, given = some text ∧ isIdentifier text = false) ∧ q = (d.name, place) := by
  rw [identifierIssues, mem_spots_issueIf, Option.any_eq_true]
  simp only [Bool.not_eq_true']

/-- Whichever rule for keys is broken first, its place is reported. -/
theorem mem_spots_keyIssues :
    q ∈ (d.keyIssues place key).map Issue.spot ↔ ¬ IsKey key ∧ q = (d.name, place) := by
  rw [keyIssues, ← keyViolation?_eq_none_iff]
  cases keyViolation? key with
  | none => simp
  | some violation => simp [Issue.spot]

theorem mem_spots_fieldIssues {part : FieldSection} {form : FieldForm} :
    q ∈ (d.fieldIssues part key form).map Issue.spot ↔
      (¬ IsKey key ∧ q = (d.name, .field part key)) ∨
        isTypeLiteral form.type = false ∧ q = (d.name, .fieldType part key) := by
  rw [fieldIssues, List.map_append, List.mem_append, mem_spots_keyIssues, mem_spots_issueIf,
    Bool.not_eq_true']

theorem mem_spots_relationshipIssues {form : RelationshipForm} :
    q ∈ (d.relationshipIssues key form).map Issue.spot ↔
      (¬ IsKey key ∧ q = (d.name, .relationship key)) ∨
      (d.attributes.contains key = true ∧ q = (d.name, .relationship key)) ∨
      (d.metaFields.contains key = true ∧ q = (d.name, .relationship key)) ∨
      (d.attributes.contains (Name.foreignKeyColumn key) = true ∧
        q = (d.name, .field .attributes (Name.foreignKeyColumn key))) ∨
      ((∃ name, form.target? = some name ∧ isIdentifier name = false) ∧
        q = (d.name, .target key)) ∨
      (∃ name, form.inverse? = some name ∧ isIdentifier name = false) ∧
        q = (d.name, .inverse key) := by
  simp only [relationshipIssues, List.map_append, List.mem_append, mem_spots_keyIssues,
    mem_spots_issueIf, mem_spots_identifierIssues, or_assoc]

theorem mem_spots_paginationIssues :
    q ∈ d.paginationIssues.map Issue.spot ↔
      ((∃ enabled number, d.pagination = some (.full enabled (some 0) number)) ∧
        q = (d.name, .defaultPageSize)) ∨
      (∃ enabled size, d.pagination = some (.full enabled size (some 0))) ∧
        q = (d.name, .defaultPageNumber) := by
  unfold paginationIssues
  split
  · next enabled size number h =>
    simp [h, mem_spots_issueIf]
  · next hnone =>
    refine iff_of_false List.not_mem_nil ?_
    rintro (⟨⟨_, _, h⟩, -⟩ | ⟨⟨_, _, h⟩, -⟩)
    · exact hnone _ _ _ h
    · exact hnone _ _ _ h

/-- What is reported about a description is reported about a part of it. -/
theorem mem_spots_issues :
    q ∈ d.issues.map Issue.spot ↔
      q ∈ (d.identifierIssues .name (some d.name)).map Issue.spot ∨
      q ∈ (d.identifierIssues .pluralForm d.pluralForm).map Issue.spot ∨
      (∃ part key form, (d.fieldsOf part).get? key = some form ∧
        q ∈ (d.fieldIssues part key form).map Issue.spot) ∨
      (∃ key, d.metaFields.contains key = true ∧ d.attributes.contains key = true ∧
        q = (d.name, .field .metaFields key)) ∨
      (∃ key form, d.relationships.get? key = some form ∧
        q ∈ (d.relationshipIssues key form).map Issue.spot) ∨
      q ∈ d.paginationIssues.map Issue.spot := by
  have hparts {p : FieldSection → Prop} : (∃ part, p part) ↔ p .attributes ∨ p .metaFields := by
    constructor
    · rintro ⟨part, hp⟩
      cases part with
      | attributes => exact .inl hp
      | metaFields => exact .inr hp
    · exact fun hp ↦ hp.elim (⟨_, ·⟩) (⟨_, ·⟩)
  rw [hparts, or_assoc]
  simp only [issues, List.map_append, List.mem_append, List.map_flatMap, List.mem_flatMap,
    Prod.exists, ← SortedMap.get?_eq_some_iff, ← SortedMap.contains_iff, mem_spots_issueIf,
    fieldsOf, or_assoc]

/-- A rule is broken wherever something is reported. -/
theorem breaksAt_of_mem_spots (h : q ∈ d.issues.map Issue.spot) :
    q.1 = d.name ∧ d.BreaksAt q.2 := by
  rcases mem_spots_issues.mp h with h | h | ⟨part, key, form, declared, h⟩ |
    ⟨key, hmeta, hattribute, rfl⟩ | ⟨key, form, declared, h⟩ | h
  · obtain ⟨⟨_, hname, hmalformed⟩, rfl⟩ := mem_spots_identifierIssues.mp h
    exact ⟨rfl, .name (Option.some.inj hname ▸ hmalformed)⟩
  · obtain ⟨⟨plural, given, hmalformed⟩, rfl⟩ := mem_spots_identifierIssues.mp h
    exact ⟨rfl, .pluralForm given hmalformed⟩
  · rcases mem_spots_fieldIssues.mp h with ⟨hkey, rfl⟩ | ⟨htype, rfl⟩
    · exact ⟨rfl, .fieldKey declared hkey⟩
    · exact ⟨rfl, .fieldType declared htype⟩
  · exact ⟨rfl, .metaField hmeta hattribute⟩
  · rcases mem_spots_relationshipIssues.mp h with ⟨hkey, rfl⟩ | ⟨hattribute, rfl⟩ | ⟨hmeta, rfl⟩ |
      ⟨hcolumn, rfl⟩ | ⟨⟨name, given, hmalformed⟩, rfl⟩ | ⟨⟨name, given, hmalformed⟩, rfl⟩
    · exact ⟨rfl, .relationshipKey declared hkey⟩
    · exact ⟨rfl, .relationship declared (.inl hattribute)⟩
    · exact ⟨rfl, .relationship declared (.inr hmeta)⟩
    · exact ⟨rfl, .keyColumn declared hcolumn⟩
    · exact ⟨rfl, .target declared given hmalformed⟩
    · exact ⟨rfl, .inverse declared given hmalformed⟩
  · rcases mem_spots_paginationIssues.mp h with
      ⟨⟨enabled, number, given⟩, rfl⟩ | ⟨⟨enabled, size, given⟩, rfl⟩
    · exact ⟨rfl, .defaultPageSize given⟩
    · exact ⟨rfl, .defaultPageNumber given⟩

/-- Something is reported wherever a rule is broken. -/
theorem mem_spots_of_breaksAt (h : d.BreaksAt place) :
    (d.name, place) ∈ d.issues.map Issue.spot := by
  rw [mem_spots_issues]
  cases h with
  | name malformed => exact .inl (mem_spots_identifierIssues.mpr ⟨⟨_, rfl, malformed⟩, rfl⟩)
  | pluralForm given malformed =>
      exact .inr (.inl (mem_spots_identifierIssues.mpr ⟨⟨_, given, malformed⟩, rfl⟩))
  | fieldKey declared refused =>
      refine .inr (.inr (.inl ⟨_, _, _, declared, ?_⟩))
      exact mem_spots_fieldIssues.mpr (.inl ⟨refused, rfl⟩)
  | fieldType declared unsupported =>
      refine .inr (.inr (.inl ⟨_, _, _, declared, ?_⟩))
      exact mem_spots_fieldIssues.mpr (.inr ⟨unsupported, rfl⟩)
  | metaField declared clash => exact .inr (.inr (.inr (.inl ⟨_, declared, clash, rfl⟩)))
  | relationshipKey declared refused =>
      refine .inr (.inr (.inr (.inr (.inl ⟨_, _, declared, ?_⟩))))
      exact mem_spots_relationshipIssues.mpr (.inl ⟨refused, rfl⟩)
  | relationship declared clash =>
      refine .inr (.inr (.inr (.inr (.inl ⟨_, _, declared, ?_⟩))))
      rcases clash with clash | clash
      · exact mem_spots_relationshipIssues.mpr (.inr (.inl ⟨clash, rfl⟩))
      · exact mem_spots_relationshipIssues.mpr (.inr (.inr (.inl ⟨clash, rfl⟩)))
  | keyColumn declared clash =>
      refine .inr (.inr (.inr (.inr (.inl ⟨_, _, declared, ?_⟩))))
      exact mem_spots_relationshipIssues.mpr (.inr (.inr (.inr (.inl ⟨clash, rfl⟩))))
  | target declared given malformed =>
      refine .inr (.inr (.inr (.inr (.inl ⟨_, _, declared, ?_⟩))))
      exact mem_spots_relationshipIssues.mpr
        (.inr (.inr (.inr (.inr (.inl ⟨⟨_, given, malformed⟩, rfl⟩)))))
  | inverse declared given malformed =>
      refine .inr (.inr (.inr (.inr (.inl ⟨_, _, declared, ?_⟩))))
      exact mem_spots_relationshipIssues.mpr
        (.inr (.inr (.inr (.inr (.inr ⟨⟨_, given, malformed⟩, rfl⟩)))))
  | defaultPageSize given =>
      refine .inr (.inr (.inr (.inr (.inr ?_))))
      exact mem_spots_paginationIssues.mpr (.inl ⟨⟨_, _, given⟩, rfl⟩)
  | defaultPageNumber given =>
      refine .inr (.inr (.inr (.inr (.inr ?_))))
      exact mem_spots_paginationIssues.mpr (.inr ⟨⟨_, _, given⟩, rfl⟩)

end Description

/-! ## Names that come twice -/

/-- How often a name is given to a description. -/
def timesDeclared (ds : List Description) (name : String) : Nat :=
  (ds.map Description.name).count name

/-- The names that several descriptions have, each once. -/
def repeatedNames (ds : List Description) : List String :=
  (NameSet.ofNames (ds.map Description.name)).keys.filter fun name ↦ 1 < timesDeclared ds name

theorem mem_repeatedNames_iff {name : String} :
    name ∈ repeatedNames ds ↔ 1 < timesDeclared ds name := by
  rw [repeatedNames, List.mem_filter, NameSet.mem_keys_ofNames, decide_eq_true_iff]
  exact ⟨And.right, fun h ↦ ⟨List.count_pos_iff.mp (Nat.zero_lt_of_lt h), h⟩⟩

theorem repeatedNames_ascending (ds : List Description) :
    (repeatedNames ds).Pairwise Text.Before :=
  (SortedMap.keys_ascending _).filter _

/-- A name that comes twice is reported once, with the number of times. -/
theorem duplicateIssues_eq (ds : List Description) :
    duplicateIssues ds = (repeatedNames ds).map fun name ↦
      ⟨name, .whole, .declaredTimes (timesDeclared ds name)⟩ := by
  rw [duplicateIssues, repeatedNames]
  induction (NameSet.ofNames (ds.map Description.name)).keys with
  | nil => rfl
  | cons name rest ih =>
      rw [List.flatMap_cons, ih, List.filter_cons]
      change (if 1 < timesDeclared ds name then _ else _) ++ _ = _
      by_cases h : 1 < timesDeclared ds name
      · rw [if_pos h, if_pos (decide_eq_true h)]
        rfl
      · rw [if_neg h, if_neg (by simpa using h)]
        rfl

/-- Nothing but its own issues is reported about a description that stands alone. -/
theorem issues_singleton (d : Description) : issues [d] = d.issues := by
  have hnodup : duplicateIssues [d] = [] := duplicateIssues_eq_nil_iff.mpr (List.nodup_singleton _)
  rw [issues, hnodup, List.append_nil, List.flatMap_singleton]

/-! ## Validation -/

theorem validate_eq_error_iff {e : SchemaError} :
    validate ds = .error e ↔ issues ds ≠ [] ∧ e = .invalid (issues ds) := by
  unfold validate
  split
  · next h => simp [List.isEmpty_iff.mp h]
  · next h =>
    rw [Except.error.injEq, eq_comm, and_iff_right fun hnil ↦ h (List.isEmpty_iff.mpr hnil)]

/-- **What validation accepts, and what it reports.**  A set of descriptions is accepted exactly if
all of them keep the rules and no name comes twice.  Otherwise every place in which a rule is broken
is reported, and nothing else but the names that come twice.  The report goes through the
descriptions in their order, saying about each what is said about it alone, and then through these
names in code-point order. -/
theorem validate_reports (ds : List Description) :
    (validate ds = .ok () ↔ (∀ d ∈ ds, d.Valid) ∧ (ds.map Description.name).Nodup) ∧
    (validate ds ≠ .ok () → ∃ found, validate ds = .error (.invalid found) ∧
      (∀ d ∈ ds, ∀ place, d.BreaksAt place →
        ∃ i ∈ found, i.resource = d.name ∧ i.path = place.path) ∧
      (∀ i ∈ found, (∃ d ∈ ds, i.resource = d.name ∧ d.BreaksAt i.place) ∨
        (i.place = .whole ∧ 1 < timesDeclared ds i.resource)) ∧
      ∃ names : List String, names.Pairwise Text.Before ∧
        (∀ name, name ∈ names ↔ 1 < timesDeclared ds name) ∧
        found = ds.flatMap (fun d ↦ issues [d]) ++
          names.map fun name ↦ ⟨name, .whole, .declaredTimes (timesDeclared ds name)⟩) := by
  refine ⟨by rw [validate_eq_ok_iff, issues_eq_nil_iff], fun hrefused ↦ ?_⟩
  rw [ne_eq, validate_eq_ok_iff] at hrefused
  refine ⟨issues ds, validate_eq_error_iff.mpr ⟨hrefused, rfl⟩, fun d hd place hbroken ↦ ?_,
    fun i hi ↦ ?_, repeatedNames ds, repeatedNames_ascending ds, fun _ ↦ mem_repeatedNames_iff, ?_⟩
  · obtain ⟨i, hi, hspot⟩ := List.mem_map.mp (d.mem_spots_of_breaksAt hbroken)
    obtain ⟨hresource, hplace⟩ := Prod.mk.inj hspot
    exact ⟨i, List.mem_append_left _ (List.mem_flatMap.mpr ⟨d, hd, hi⟩), hresource,
      congrArg Place.path hplace⟩
  · rcases List.mem_append.mp hi with hi | hi
    · obtain ⟨d, hd, hi⟩ := List.mem_flatMap.mp hi
      exact .inl ⟨d, hd, Description.breaksAt_of_mem_spots (List.mem_map_of_mem hi)⟩
    · rw [duplicateIssues_eq] at hi
      obtain ⟨name, hname, rfl⟩ := List.mem_map.mp hi
      exact .inr ⟨rfl, mem_repeatedNames_iff.mp hname⟩
  · simp only [issues_singleton]
    rw [issues, duplicateIssues_eq]

/-- A cat with reserved keys, a type that could leave the column, and pages without rows; and two
dogs. -/
def strays : List Description :=
  [{ name := "Cat"
     attributes := .ofList [("meta_x", .short "text"), ("id", .short "integer"),
       ("bad", .short "text;")]
     pagination := some (.full none (some 0) none) }, .named "dog", .named "dog"]

theorem validate_reports_strays :
    validate strays ≠ .ok () ∧ ∃ found, validate strays = .error (.invalid found) ∧
      (∃ i ∈ found, i.resource = "Cat" ∧ i.path = "attributes.bad.type") ∧
      ∃ i ∈ found, i.resource = "Cat" ∧ i.path = "pagination.default_page_size" := by
  have hrefused : validate strays ≠ .ok () := by
    rw [ne_eq, validate_eq_ok_iff]
    decide +kernel
  obtain ⟨found, hfound, hbroken, -, -⟩ := (validate_reports strays).2 hrefused
  have hbad : (strays[0].fieldsOf .attributes).get? "bad" = some (.short "text;") := by decide
  have htype : strays[0].BreaksAt (.fieldType .attributes "bad") := .fieldType hbad (by decide)
  have hsize : strays[0].BreaksAt .defaultPageSize := .defaultPageSize rfl
  exact ⟨hrefused, found, hfound, hbroken _ List.mem_cons_self _ htype,
    hbroken _ List.mem_cons_self _ hsize⟩

end ResourceSchema
