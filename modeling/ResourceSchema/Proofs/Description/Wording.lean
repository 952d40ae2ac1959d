import Mathlib.Logic.Relation
import ResourceSchema.Proofs.Json.Record
import ResourceSchema.Schema.Compilation

/-!
# Descriptions in other words

A short form is only notation.  Two descriptions that differ in nothing else have one and the same
spelled-out description, and to be spelled out changes neither what a description is completed to
nor what is wrong with it.  So documents can be put in other words, short forms spelled out, `null`
given or left out, and unknown members added, and the resources or the issues stay the same.
-/

namespace ResourceSchema

variable {d : Description} {j j' : Json} {members : List (String × Json)}

/-! ## Spelling out -/

/-- The full form. -/
def FieldForm.spelledOut : FieldForm → FieldForm
  | short type => full type none none
  | form => form

/-- The full form. -/
def RelationshipForm.spelledOut : RelationshipForm → RelationshipForm
  | short cardinality => full none cardinality none none none
  | form => form

/-- The full form. -/
def PaginationForm.spelledOut : PaginationForm → PaginationForm
  | short enabled => full (some enabled) none none
  | form => form

/-- The description without short forms. -/
def Description.spelledOut (d : Description) : Description :=
  { d with
    attributes := d.attributes.map fun _ form ↦ form.spelledOut
    metaFields := d.metaFields.map fun _ form ↦ form.spelledOut
    relationships := d.relationships.map fun _ form ↦ form.spelledOut
    pagination := d.pagination.map PaginationForm.spelledOut }

theorem FieldForm.complete_spelledOut (form : FieldForm) :
    form.spelledOut.complete = form.complete := by
  cases form <;> rfl

theorem FieldForm.type_spelledOut (form : FieldForm) : form.spelledOut.type = form.type := by
  cases form <;> rfl

theorem RelationshipForm.complete_spelledOut (key : String) (form : RelationshipForm) :
    form.spelledOut.complete key = form.complete key := by
  cases form <;> rfl

theorem RelationshipForm.target?_spelledOut (form : RelationshipForm) :
    form.spelledOut.target? = form.target? := by
  cases form <;> rfl

theorem RelationshipForm.inverse?_spelledOut (form : RelationshipForm) :
    form.spelledOut.inverse? = form.inverse? := by
  cases form <;> rfl

theorem PaginationForm.complete_spelledOut (form : PaginationForm) :
    form.spelledOut.complete = form.complete := by
  cases form <;> rfl

namespace Description

theorem complete_spelledOut (d : Description) : d.spelledOut.complete = d.complete := by
  have hpagination : ((d.pagination.map PaginationForm.spelledOut).getD (.short true)).complete =
      (d.pagination.getD (.short true)).complete := by
    cases d.pagination with
    | none => rfl
    | some form => exact form.complete_spelledOut
  simp only [complete, spelledOut, SortedMap.map_map, FieldForm.complete_spelledOut,
    RelationshipForm.complete_spelledOut, hpagination]

theorem fieldIssues_spelledOut (part : FieldSection) (key : String) (form : FieldForm) :
    d.spelledOut.fieldIssues part key form.spelledOut = d.fieldIssues part key form := by
  rw [fieldIssues, FieldForm.type_spelledOut]
  rfl

theorem relationshipIssues_spelledOut (key : String) (form : RelationshipForm) :
    d.spelledOut.relationshipIssues key form.spelledOut = d.relationshipIssues key form := by
  simp only [relationshipIssues, RelationshipForm.target?_spelledOut,
    RelationshipForm.inverse?_spelledOut, spelledOut, SortedMap.contains_map]
  rfl

theorem paginationIssues_spelledOut (d : Description) :
    d.spelledOut.paginationIssues = d.paginationIssues := by
  cases hpagination : d.pagination with
  | none => simp [paginationIssues, spelledOut, hpagination]
  | some form =>
      cases form <;> simp [paginationIssues, spelledOut, hpagination, PaginationForm.spelledOut,
        issueIf]

theorem issues_spelledOut (d : Description) : d.spelledOut.issues = d.issues := by
  have hattributes : d.spelledOut.attributes.entries =
      d.attributes.entries.map fun e ↦ (e.1, e.2.spelledOut) := rfl
  have hmeta : d.spelledOut.metaFields.entries =
      d.metaFields.entries.map fun e ↦ (e.1, e.2.spelledOut) := rfl
  have hrelationships : d.spelledOut.relationships.entries =
      d.relationships.entries.map fun e ↦ (e.1, e.2.spelledOut) := rfl
  have hkeys : d.spelledOut.metaFields.keys = d.metaFields.keys := SortedMap.keys_map _ _
  have hcontains (key : String) : d.spelledOut.attributes.contains key = d.attributes.contains key :=
    SortedMap.contains_map _ _ _
  simp only [issues, hattributes, hmeta, hrelationships, hkeys, hcontains, List.flatMap_map,
    fieldIssues_spelledOut, relationshipIssues_spelledOut, paginationIssues_spelledOut]
  rfl

end Description

/-- The resources and the issues of descriptions are those of the spelled-out descriptions. -/
theorem resourcesOf_spelledOut (ds : List Description) :
    resourcesOf (ds.map Description.spelledOut) = resourcesOf ds := by
  have hissues : issues (ds.map Description.spelledOut) = issues ds := by
    have hnames : (ds.map Description.spelledOut).map Description.name =
        ds.map Description.name := List.map_map
    simp only [issues, duplicateIssues, hnames, List.flatMap_map, Description.issues_spelledOut]
  have hcomplete : (ds.map Description.spelledOut).map Description.complete =
      ds.map Description.complete := by
    rw [List.map_map]
    exact List.map_congr_left fun d _ ↦ d.complete_spelledOut
  simp only [resourcesOf, validate, hissues, hcomplete]

/-! ## Other words -/

/-- An attribute or meta field as an object. -/
def FieldForm.shape : Json.RecordShape where
  fields := Attribute.fieldNames
  optional := ["nullable", "default"]

/-- A relationship as an object. -/
def RelationshipForm.shape : Json.RecordShape where
  fields := Relationship.fieldNames
  optional := ["resource", "host", "nullable", "inverse"]

/-- A pagination as an object. -/
def PaginationForm.shape : Json.RecordShape where
  fields := Pagination.fieldNames
  optional := Pagination.fieldNames

/-- The switches of the actions as an object. -/
def ActionsForm.shape : Json.RecordShape where
  fields := Actions.fieldNames
  optional := Actions.fieldNames

/-- A short field is spelled out, or a full one is put in other words. -/
inductive FieldForm.Rewords : Json → Json → Prop
  | short (type : String) : Rewords (.string type) (.object [("type", .string type)])
  | full {j j' : Json} (reworded : Json.Rewords shape j j') : Rewords j j'

/-- A short relationship is spelled out, or a full one is put in other words. -/
inductive RelationshipForm.Rewords : Json → Json → Prop
  | short {j : Json} (cardinality : (Cardinality.ofJson? j).isSome) :
      Rewords j (.object [("cardinality", j)])
  | full {members : List (String × Json)} {j' : Json}
      (cardinality : (members.lookup "cardinality").isSome)
      (reworded : Json.Rewords shape (.object members) j') : Rewords (.object members) j'

/-- A switch is spelled out, or settings are put in other words. -/
inductive PaginationForm.Rewords : Json → Json → Prop
  | short (enabled : Bool) : Rewords (.bool enabled) (.object [("enabled", .bool enabled)])
  | full {j j' : Json} (reworded : Json.Rewords shape j j') : Rewords j j'

/-- What stands under a field of a description is put in other words. -/
def Description.RewordsField : String → Json → Json → Prop
  | "attributes" | "meta" => Json.RewordsEntry FieldForm.Rewords
  | "relationships" => Json.RewordsEntry RelationshipForm.Rewords
  | "actions" => Json.Rewords ActionsForm.shape
  | "pagination" => PaginationForm.Rewords
  | _ => fun _ _ ↦ False

/-- A description as an object. -/
def Description.shape : Json.RecordShape where
  fields := Resource.fieldNames
  optional := ["plural_form", "actions", "pagination", "built_in_meta"]
  values := RewordsField

/-- A description is put in other words at one place. -/
def Description.Rewords : Json → Json → Prop := Json.Rewords shape

/-! ## What is read -/

/-- Reads either form of a field and spells it out. -/
def FieldForm.spelledOut? (j : Json) : Option FieldForm := (ofJson? j).map spelledOut

/-- Reads either form of a relationship and spells it out. -/
def RelationshipForm.spelledOut? (j : Json) : Option RelationshipForm := (ofJson? j).map spelledOut

/-- Reads either form of a pagination and spells it out. -/
def PaginationForm.spelledOut? (j : Json) : Option PaginationForm := (ofJson? j).map spelledOut

/-- Reads a description and spells it out. -/
def Description.spelledOut? (j : Json) : Option Description := (ofJson? j).map spelledOut

theorem FieldForm.Rewords.spelledOut?_eq (h : FieldForm.Rewords j j') :
    spelledOut? j' = spelledOut? j := by
  cases h with
  | short type => rfl
  | full reworded =>
      obtain ⟨members, members', rfl, rfl, same⟩ := reworded.exists_saysSame
      have plain (field : String) : shape.Plain field := fun _ _ ↦ id
      refine congrArg (Option.map spelledOut) (same.objectRecord?_bind ?_)
      rw [same.required_eq "type" (by decide) (by decide) (plain _),
        same.optional_eq_of_plain "nullable" (by decide) (plain _),
        same.optional_eq_of_plain "default" (by decide) (plain _)]

/-- An object with a cardinality in it is not itself one. -/
theorem RelationshipForm.ofJson?_object (full : (members.lookup "cardinality").isSome) :
    ofJson? (.object members) = do
      let m ← (Json.object members).objectRecord? Relationship.fieldNames
      return RelationshipForm.full (← Json.optional Json.string? m "resource")
        (← Json.required Cardinality.ofJson? m "cardinality")
        (← Json.optional Json.bool? m "host") (← Json.optional Json.bool? m "nullable")
        (← Json.optional Json.string? m "inverse") := by
  have hnone : Cardinality.ofJson? (.object members) = none := by
    rw [Cardinality.ofJson?, Json.name?.eq_def]
    split
    · next heq => cases heq
    · next name heq =>
        cases heq
        obtain rfl : "cardinality" = name := by
          by_contra hne
          rw [SortedMap.lookup_cons_of_ne hne] at full
          cases full
        rfl
    · rfl
  rw [ofJson?, hnone]

theorem RelationshipForm.Rewords.spelledOut?_eq (h : RelationshipForm.Rewords j j') :
    spelledOut? j' = spelledOut? j := by
  cases h with
  | short cardinality =>
      obtain ⟨c, hc⟩ := Option.isSome_iff_exists.mp cardinality
      have hfull : ofJson? (.object [("cardinality", j)]) = some (.full none c none none none) := by
        have hj : Json.required Cardinality.ofJson? [("cardinality", j)] "cardinality" = some c := hc
        rw [ofJson?_object rfl]
        refine Option.bind_eq_some_iff.mpr ⟨_, rfl, Option.bind_eq_some_iff.mpr ⟨none, rfl, ?_⟩⟩
        rw [hj]
        rfl
      rw [spelledOut?, spelledOut?, hfull, ofJson?, hc]
      rfl
  | full cardinality reworded =>
      obtain ⟨members, members', hmembers, rfl, same⟩ := reworded.exists_saysSame
      cases hmembers
      have plain (field : String) : shape.Plain field := fun _ _ ↦ id
      -- the cardinality stays where it is, so the object is still not read as one
      have hlookup := same.lookup_eq "cardinality" (by decide) (by decide) (plain _)
      rw [spelledOut?, spelledOut?, ofJson?_object cardinality,
        ofJson?_object (hlookup ▸ cardinality)]
      refine congrArg (Option.map spelledOut) (same.objectRecord?_bind ?_)
      rw [same.required_eq "cardinality" (by decide) (by decide) (plain _),
        same.optional_eq_of_plain "resource" (by decide) (plain _),
        same.optional_eq_of_plain "host" (by decide) (plain _),
        same.optional_eq_of_plain "nullable" (by decide) (plain _),
        same.optional_eq_of_plain "inverse" (by decide) (plain _)]

theorem PaginationForm.Rewords.spelledOut?_eq (h : PaginationForm.Rewords j j') :
    spelledOut? j' = spelledOut? j := by
  cases h with
  | short enabled => rfl
  | full reworded =>
      obtain ⟨members, members', rfl, rfl, same⟩ := reworded.exists_saysSame
      have plain (field : String) : shape.Plain field := fun _ _ ↦ id
      refine congrArg (Option.map spelledOut) (same.objectRecord?_bind ?_)
      rw [same.optional_eq_of_plain "enabled" (by decide) (plain _),
        same.optional_eq_of_plain "default_page_size" (by decide) (plain _),
        same.optional_eq_of_plain "default_page_number" (by decide) (plain _)]

theorem PaginationForm.Rewords.isNull_eq_false (h : PaginationForm.Rewords j j') :
    j.isNull = false ∧ j'.isNull = false := by
  cases h with
  | short enabled => exact ⟨rfl, rfl⟩
  | full reworded => exact reworded.isNull_eq_false

theorem ActionsForm.ofJson?_eq (h : Json.Rewords shape j j') : ofJson? j' = ofJson? j := by
  obtain ⟨members, members', rfl, rfl, same⟩ := h.exists_saysSame
  have plain (field : String) : shape.Plain field := fun _ _ ↦ id
  refine same.objectRecord?_bind ?_
  rw [same.optional_eq_of_plain "create" (by decide) (plain _),
    same.optional_eq_of_plain "read_one" (by decide) (plain _),
    same.optional_eq_of_plain "read_many" (by decide) (plain _),
    same.optional_eq_of_plain "update" (by decide) (plain _),
    same.optional_eq_of_plain "delete" (by decide) (plain _)]

namespace Description

/-- The parts of a description are read and spelled out one by one. -/
theorem spelledOut?_object (members : List (String × Json)) :
    spelledOut? (.object members) =
      ((Json.object members).objectRecord? Resource.fieldNames).bind fun m ↦ do
        return {
          name := ← Json.required Json.string? m "name"
          pluralForm := ← Json.optional Json.string? m "plural_form"
          attributes := ← Json.defaulted .empty (Json.map? FieldForm.spelledOut?) m "attributes"
          metaFields := ← Json.defaulted .empty (Json.map? FieldForm.spelledOut?) m "meta"
          relationships := ← Json.defaulted .empty (Json.map? RelationshipForm.spelledOut?) m
            "relationships"
          actions := ← Json.optional ActionsForm.ofJson? m "actions"
          pagination := ← Json.optional PaginationForm.spelledOut? m "pagination"
          builtIns := ← Json.optional BuiltIns.ofJson? m "built_in_meta" } := by
  have hfields (m : List (String × Json)) (part : String) :
      Json.defaulted .empty (Json.map? FieldForm.spelledOut?) m part =
        (Json.defaulted .empty (Json.map? FieldForm.ofJson?) m part).map
          (SortedMap.map fun _ ↦ FieldForm.spelledOut) :=
    (Json.map_defaulted_map? ..).symm
  have hrelationships (m : List (String × Json)) :
      Json.defaulted .empty (Json.map? RelationshipForm.spelledOut?) m "relationships" =
        (Json.defaulted .empty (Json.map? RelationshipForm.ofJson?) m "relationships").map
          (SortedMap.map fun _ ↦ RelationshipForm.spelledOut) :=
    (Json.map_defaulted_map? ..).symm
  have hpagination (m : List (String × Json)) :
      Json.optional PaginationForm.spelledOut? m "pagination" =
        (Json.optional PaginationForm.ofJson? m "pagination").map
          (Option.map PaginationForm.spelledOut) :=
    (Json.map_optional ..).symm
  simp only [hfields, hrelationships, hpagination, Option.bind_eq_bind, Option.bind_map,
    Function.comp_def]
  rw [spelledOut?, ofJson?, Option.bind_eq_bind, Option.map_bind]
  refine congrArg _ (funext fun m ↦ ?_)
  simp only [Function.comp_def, Option.bind_eq_bind, Option.map_bind]
  rfl

theorem Rewords.spelledOut?_eq (h : Rewords j j') : spelledOut? j' = spelledOut? j := by
  obtain ⟨members, members', rfl, rfl, same⟩ := Json.Rewords.exists_saysSame h
  have hfields (j j' : Json) (h : Json.RewordsEntry FieldForm.Rewords j j') :
      Json.map? FieldForm.spelledOut? j' = Json.map? FieldForm.spelledOut? j :=
    h.map?_eq fun _ _ ↦ FieldForm.Rewords.spelledOut?_eq
  have hrelationships (j j' : Json) (h : Json.RewordsEntry RelationshipForm.Rewords j j') :
      Json.map? RelationshipForm.spelledOut? j' = Json.map? RelationshipForm.spelledOut? j :=
    h.map?_eq fun _ _ ↦ RelationshipForm.Rewords.spelledOut?_eq
  have hactions (j j' : Json) (h : Json.Rewords ActionsForm.shape j j') :
      j.isNull = false ∧ j'.isNull = false ∧ ActionsForm.ofJson? j' = ActionsForm.ofJson? j := by
    obtain ⟨hj, hj'⟩ := h.isNull_eq_false
    exact ⟨hj, hj', ActionsForm.ofJson?_eq h⟩
  have hpagination (j j' : Json) (h : PaginationForm.Rewords j j') :
      j.isNull = false ∧ j'.isNull = false ∧
        PaginationForm.spelledOut? j' = PaginationForm.spelledOut? j := by
    obtain ⟨hj, hj'⟩ := h.isNull_eq_false
    exact ⟨hj, hj', h.spelledOut?_eq⟩
  rw [spelledOut?_object, spelledOut?_object]
  refine same.objectRecord?_bind ?_
  rw [same.required_eq "name" (by decide) (by decide) fun _ _ ↦ id,
    same.optional_eq_of_plain "plural_form" (by decide) fun _ _ ↦ id,
    same.defaulted_eq "attributes" (by decide) (by decide) hfields,
    same.defaulted_eq "meta" (by decide) (by decide) hfields,
    same.defaulted_eq "relationships" (by decide) (by decide) hrelationships,
    same.optional_eq "actions" (by decide) hactions,
    same.optional_eq "pagination" (by decide) hpagination,
    same.optional_eq_of_plain "built_in_meta" (by decide) fun _ _ ↦ id]

theorem spelledOut?_eq_of_reflTransGen (h : Relation.ReflTransGen Rewords j j') :
    spelledOut? j' = spelledOut? j := by
  induction h with
  | refl => rfl
  | tail _ last ih => exact last.spelledOut?_eq.trans ih

theorem mapM_spelledOut?_eq {docs docs' : List Json}
    (h : List.Forall₂ (Relation.ReflTransGen Rewords) docs docs') :
    docs'.mapM spelledOut? = docs.mapM spelledOut? := by
  induction h with
  | nil => rfl
  | cons first _ ih =>
      rw [List.mapM_cons, List.mapM_cons, ih, spelledOut?_eq_of_reflTransGen first]

end Description

/-- **A short form is only notation.**  Documents that can be read can be put in other words, any
number of them and each at any number of places, and can still be read.  The resources are the
same, or the issues are. -/
theorem resourcesOf_reworded {docs docs' : List Json} {ds : List Description}
    (read : docs.mapM Description.ofJson? = some ds)
    (reworded : List.Forall₂ (Relation.ReflTransGen Description.Rewords) docs docs') :
    ∃ ds', docs'.mapM Description.ofJson? = some ds' ∧ resourcesOf ds' = resourcesOf ds := by
  have hspelled : (docs'.mapM Description.ofJson?).map (List.map Description.spelledOut) =
      some (ds.map Description.spelledOut) := by
    calc
      _ = docs'.mapM Description.spelledOut? := map_mapM
      _ = docs.mapM Description.spelledOut? := Description.mapM_spelledOut?_eq reworded
      _ = (docs.mapM Description.ofJson?).map (List.map Description.spelledOut) := map_mapM.symm
      _ = some (ds.map Description.spelledOut) := by rw [read, Option.map_some]
  obtain ⟨ds', hread, hsame⟩ := Option.map_eq_some_iff.mp hspelled
  refine ⟨ds', hread, ?_⟩
  rw [← resourcesOf_spelledOut, hsame, resourcesOf_spelledOut]

/-- A document about cats, whose name, owner and pages can be given in several ways. -/
def catDocument (name owner pagination : Json) (more : List (String × Json)) : Json :=
  .object ([("name", .string "cat"), ("attributes", .object [("name", name)]),
    ("relationships", .object [("owner", owner)]), ("pagination", pagination)] ++ more)

/-- Cats as briefly as it goes. -/
def briefCats : List Json :=
  [catDocument (.string "text") (.string "many-to-one") (.bool false) [],
    .object [("name", .string "owner")]]

/-- Cats at length, with a `null` and a remark. -/
def longCats : List Json :=
  [catDocument (.object [("type", .string "text"), ("default", .null)])
      (.object [("cardinality", .string "many-to-one")]) (.object [("enabled", .bool false)])
      [("remark", .string "tame")],
    .object [("name", .string "owner")]]

/-- Brief or at length, cats and their owners are the same resources. -/
theorem resourcesOf_reworded_cats :
    ∃ ds ds' rs, briefCats.mapM Description.ofJson? = some ds ∧
      longCats.mapM Description.ofJson? = some ds' ∧
      resourcesOf ds = .ok rs ∧ resourcesOf ds' = .ok rs := by
  have hbrief : ((briefCats.mapM Description.ofJson?).any fun ds ↦ (resourcesOf ds).isOk) = true := by
    decide +kernel
  obtain ⟨ds, read, hok⟩ := Option.any_eq_true _ _ |>.mp hbrief
  obtain ⟨rs, hrs⟩ := exists_eq_ok hok
  have hnull : FieldForm.Rewords (.object [("type", .string "text")])
      (.object [("type", .string "text"), ("default", .null)]) :=
    .full (.addNull [_] [] (by decide) (by decide))
  have hname {name name' : Json} (h : FieldForm.Rewords name name') (owner pagination : Json) :
      Description.Rewords (catDocument name owner pagination [])
        (catDocument name' owner pagination []) :=
    .value [("name", .string "cat")]
      [("relationships", .object [("owner", owner)]), ("pagination", pagination)]
      (show Description.RewordsField "attributes" _ _ from .mk [] [] h)
  have howner {owner owner' : Json} (h : RelationshipForm.Rewords owner owner')
      (name pagination : Json) :
      Description.Rewords (catDocument name owner pagination [])
        (catDocument name owner' pagination []) :=
    .value [("name", .string "cat"), ("attributes", .object [("name", name)])]
      [("pagination", pagination)]
      (show Description.RewordsField "relationships" _ _ from .mk [] [] h)
  have hpagination {pagination pagination' : Json}
      (h : PaginationForm.Rewords pagination pagination') (name owner : Json) :
      Description.Rewords (catDocument name owner pagination [])
        (catDocument name owner pagination' []) :=
    .value [("name", .string "cat"), ("attributes", .object [("name", name)]),
        ("relationships", .object [("owner", owner)])] []
      (show Description.RewordsField "pagination" _ _ from h)
  have hcats : List.Forall₂ (Relation.ReflTransGen Description.Rewords) briefCats longCats := by
    refine .cons ?_ (.cons .refl .nil)
    refine .head (hname (.short "text") _ _) ?_
    refine .head (hname hnull _ _) ?_
    refine .head (howner (.short rfl) _ _) ?_
    refine .head (hpagination (.short false) _ _) ?_
    exact .single (.addUnknown [_, _, _, _] [] _ (by decide))
  obtain ⟨ds', read', hsame⟩ := resourcesOf_reworded read hcats
  exact ⟨ds, ds', rs, read, read', hrs, hsame.trans hrs⟩

end ResourceSchema
