import ResourceSchema.Proofs.Description.Validity
import ResourceSchema.Proofs.Resource.Serialization

/-!
# Accepted resources as descriptions

Accepted resources are written in a form that reads as descriptions again.  These would become the
same resources, for all defaults are filled in and all inverses are there.  But they are accepted
only if the keys are still apart, and keys have come in since the rules were checked: those of
built-in fields, and the names of inverses.  One by one, resources describe themselves even where
they would not be accepted.
-/

namespace ResourceSchema

variable {ds : List Description} {d : Description} {rs : List Resource} {r : Resource} {h : Hosted}

/-! ## Keys that are apart -/

/-- No two keys are equal, none is reserved, and no attribute has the name of a key column. -/
structure Resource.KeysApart (r : Resource) : Prop where
  distinct : (r.attributes.keys ++ r.metaFields.keys ++ r.relationships.keys).Nodup
  unreserved : ∀ key ∈ r.attributes.keys ++ r.metaFields.keys ++ r.relationships.keys,
    key ≠ Name.idColumn ∧ hasMetaPrefix key = false
  columns : ∀ key ∈ r.relationships.keys, Name.foreignKeyColumn key ∉ r.attributes.keys

instance (r : Resource) : Decidable r.KeysApart :=
  decidable_of_iff (_ ∧ _ ∧ _) ⟨fun ⟨hdistinct, hunreserved, hcolumns⟩ ↦
    ⟨hdistinct, hunreserved, hcolumns⟩, fun ⟨hdistinct, hunreserved, hcolumns⟩ ↦
      ⟨hdistinct, hunreserved, hcolumns⟩⟩

/-- The names in a resource are identifiers. -/
structure Resource.IsNamed (r : Resource) : Prop where
  name : isIdentifier r.name = true
  pluralForm : isIdentifier r.pluralForm = true
  relationships : ∀ key rel, r.relationships.get? key = some rel →
    isIdentifier key = true ∧ isIdentifier rel.resource = true ∧
      ∀ inverse, rel.inverse = some inverse → isIdentifier inverse = true

/-- Pages are not empty and are counted from one. -/
structure Pagination.IsPositive (p : Pagination) : Prop where
  size : p.defaultPageSize ≠ 0
  number : p.defaultPageNumber ≠ 0

/-! ## What accepted resources keep -/

theorem isIdentifier_defaultPlural {name : String} (hname : isIdentifier name = true) :
    isIdentifier (Name.defaultPlural name) = true := by
  unfold isIdentifier at hname ⊢
  rw [Name.defaultPlural, String.toList_append]
  split at hname
  · cases hname
  · next c rest hchars =>
    obtain ⟨hfirst, hrest⟩ := Bool.and_eq_true_iff.mp hname
    rw [hchars, List.cons_append]
    refine Bool.and_eq_true_iff.mpr ⟨hfirst, ?_⟩
    rw [List.all_append, hrest]
    rfl

theorem Description.Valid.isNamed (hd : d.Valid) : d.complete.IsNamed where
  name := hd.name
  pluralForm := by
    rw [complete]
    cases hplural : d.pluralForm with
    | none => exact isIdentifier_defaultPlural hd.name
    | some plural => exact hd.pluralForm plural hplural
  relationships := by
    intro key rel hrel
    rw [complete, SortedMap.get?_map, Option.map_eq_some_iff] at hrel
    obtain ⟨form, hform, rfl⟩ := hrel
    obtain ⟨hkey, -, -, -, htarget, hinverse⟩ := hd.relationships key form hform
    cases form with
    | short cardinality =>
        refine ⟨hkey.identifier, hkey.identifier, fun _ hnone ↦ ?_⟩
        cases hnone
    | full resource cardinality host nullable inverse =>
        refine ⟨hkey.identifier, ?_, hinverse⟩
        cases resource with
        | none => exact hkey.identifier
        | some name => exact htarget name rfl

theorem getD_ne_zero {given : Option UInt32} {standard : UInt32} (hgiven : given ≠ some 0)
    (hstandard : standard ≠ 0) : given.getD standard ≠ 0 := by
  cases given with
  | none => exact hstandard
  | some n => exact fun hzero ↦ hgiven (congrArg some hzero)

theorem Description.Valid.isPositive (hd : d.Valid) : d.complete.pagination.IsPositive := by
  have hsize : Pagination.standardSize ≠ 0 := by decide
  have hnumber : Pagination.standardNumber ≠ 0 := by decide
  show ((d.pagination.getD (.short true)).complete).IsPositive
  cases hpagination : d.pagination with
  | none => exact ⟨hsize, hnumber⟩
  | some form =>
      cases form with
      | short enabled => exact ⟨hsize, hnumber⟩
      | full enabled size number =>
          obtain ⟨hsize', hnumber'⟩ := hd.pagination enabled size number hpagination
          exact ⟨getD_ne_zero hsize' hsize, getD_ne_zero hnumber' hnumber⟩

/-- The inverse of a host relationship has names of the resource that declares it. -/
theorem Resource.IsNamed.inverse (hr : r.IsNamed) (hh : h ∈ r.hosted) :
    isIdentifier h.inverseName = true ∧ isIdentifier h.inverse.resource = true ∧
      ∀ inverse, h.inverse.inverse = some inverse → isIdentifier inverse = true := by
  obtain ⟨hsource, hplural, hrel, -⟩ := mem_hosted_iff.mp hh
  refine ⟨?_, ?_, ?_⟩
  · rw [Hosted.inverseName, hsource, hplural]
    split
    · exact hr.pluralForm
    · exact hr.name
  · rw [Hosted.inverse, hsource]
    exact hr.name
  · intro inverse hinverse
    obtain rfl := Option.some.inj hinverse
    exact (hr.relationships _ _ hrel).1

/-- Whether a resource is complete does not depend on its relationships. -/
theorem isComplete_bare_iff : r.bare.IsComplete ↔ r.IsComplete :=
  ⟨fun ⟨hattributes, hmeta, hbuiltIns⟩ ↦ ⟨hattributes, hmeta, hbuiltIns⟩,
    fun ⟨hattributes, hmeta, hbuiltIns⟩ ↦ ⟨hattributes, hmeta, hbuiltIns⟩⟩

/-- Inverses leave nothing to be completed. -/
theorem isComplete_addInverses (hrs : ∀ r ∈ rs, r.IsComplete) (hr : r ∈ addInverses rs) :
    r.IsComplete := by
  have hmem := List.mem_map_of_mem (f := Resource.bare) hr
  rw [map_bare_addInverses] at hmem
  obtain ⟨before, hbefore, hbare⟩ := List.mem_map.mp hmem
  rw [← isComplete_bare_iff, ← hbare, isComplete_bare_iff]
  exact hrs before hbefore

theorem isComplete_completed (hr : r ∈ ds.map Description.complete) : r.IsComplete := by
  obtain ⟨d, -, rfl⟩ := List.mem_map.mp hr
  exact d.isComplete_complete

section Accepted

variable (accepted : resourcesOf ds = .ok rs)
include accepted

theorem accepted_valid : ∀ d ∈ ds, d.Valid :=
  (issues_eq_nil_iff.mp (resourcesOf_eq_ok_iff.mp accepted).1).1

theorem accepted_isNamed (hr : r ∈ rs) : r.IsNamed := by
  obtain ⟨d, hd, hbare⟩ := exists_description accepted hr
  have hnamed := (accepted_valid accepted d hd).isNamed
  have hname : d.complete.bare.name = r.bare.name := congrArg Resource.name hbare
  have hplural : d.complete.bare.pluralForm = r.bare.pluralForm :=
    congrArg Resource.pluralForm hbare
  refine ⟨hname ▸ hnamed.name, hplural ▸ hnamed.pluralForm, fun key rel hrel ↦ ?_⟩
  have hcompleted (r) (hr : r ∈ ds.map Description.complete) : r.IsNamed := by
    obtain ⟨d, hd, rfl⟩ := List.mem_map.mp hr
    exact (accepted_valid accepted d hd).isNamed
  obtain ⟨-, rfl⟩ := resourcesOf_eq_ok_iff.mp accepted
  obtain ⟨before, hbefore, hgains⟩ := exists_of_mem_right (gainsInverses_addInverses _) hr
  rcases hgains.added key rel hrel with hdeclared | ⟨h, hh, -, rfl, rfl⟩
  · exact (hcompleted before hbefore).relationships key rel hdeclared
  · obtain ⟨source, hsource, hh⟩ := List.mem_flatMap.mp hh
    exact (hcompleted source hsource).inverse hh

theorem accepted_isPositive (hr : r ∈ rs) : r.pagination.IsPositive := by
  obtain ⟨d, hd, hbare⟩ := exists_description accepted hr
  have hpagination : d.complete.bare.pagination = r.bare.pagination :=
    congrArg Resource.pagination hbare
  exact hpagination ▸ (accepted_valid accepted d hd).isPositive

theorem accepted_isComplete (hr : r ∈ rs) : r.IsComplete := by
  obtain ⟨-, rfl⟩ := resourcesOf_eq_ok_iff.mp accepted
  exact isComplete_addInverses (fun _ hmem ↦ isComplete_completed hmem) hr

/-- All inverses are there already. -/
theorem addInverses_accepted : addInverses rs = rs := by
  obtain ⟨-, rfl⟩ := resourcesOf_eq_ok_iff.mp accepted
  exact addInverses_eq_self fun _ hh ↦ settledIn_of_mem_addInverses hh

end Accepted

/-! ## When the resources are accepted again -/

theorem isKey_of_mem {fields : SortedMap Attribute} (hfields : ValidFields fields) {key : String}
    (hkey : key ∈ fields.keys) : IsKey key := by
  obtain ⟨a, ha⟩ := SortedMap.mem_keys_iff.mp hkey
  exact (hfields key a ha).1

/-- The rules that keys of relationships keep where the keys are apart. -/
structure Resource.FreeKey (r : Resource) (key : String) : Prop where
  isKey : IsKey key
  not_attribute : key ∉ r.attributes.keys
  not_metaField : key ∉ r.metaFields.keys
  column : Name.foreignKeyColumn key ∉ r.attributes.keys

/-- Fields keep the rules for keys anyhow, so it is meta fields that may meet attributes, and
relationships that may meet anything. -/
theorem keysApart_iff (named : r.IsNamed) (keyed : r.WellKeyed) :
    r.KeysApart ↔ (∀ key ∈ r.metaFields.keys, key ∉ r.attributes.keys) ∧
      ∀ key ∈ r.relationships.keys, r.FreeKey key := by
  constructor
  · rintro ⟨hdistinct, hunreserved, hcolumns⟩
    obtain ⟨hfields, -, hrelationships⟩ := List.nodup_append'.mp hdistinct
    obtain ⟨-, -, hmeta⟩ := List.nodup_append'.mp hfields
    refine ⟨List.disjoint_right.mp hmeta, fun key hkey ↦ ?_⟩
    obtain ⟨rel, hrel⟩ := SortedMap.mem_keys_iff.mp hkey
    obtain ⟨hid, hprefix⟩ := hunreserved key (List.mem_append_right _ hkey)
    have hfree := List.disjoint_right.mp hrelationships hkey
    exact ⟨⟨(named.relationships key rel hrel).1, hid, hprefix⟩,
      fun hmem ↦ hfree (List.mem_append_left _ hmem),
      fun hmem ↦ hfree (List.mem_append_right _ hmem), hcolumns key hkey⟩
  · rintro ⟨hmeta, hfree⟩
    refine ⟨?_, fun key hkey ↦ ?_, fun key hkey ↦ (hfree key hkey).column⟩
    · refine List.nodup_append'.mpr ⟨List.nodup_append'.mpr ⟨r.attributes.keys_nodup,
        r.metaFields.keys_nodup, List.disjoint_right.mpr hmeta⟩, r.relationships.keys_nodup,
        List.disjoint_right.mpr fun key hkey hmem ↦ ?_⟩
      exact (List.mem_append.mp hmem).elim (hfree key hkey).not_attribute
        (hfree key hkey).not_metaField
    · have hisKey : IsKey key := by
        rcases List.mem_append.mp hkey with hkey | hkey
        · rcases List.mem_append.mp hkey with hkey | hkey
          · exact isKey_of_mem keyed.attributes hkey
          · exact isKey_of_mem keyed.metaFields hkey
        · exact (hfree key hkey).isKey
      exact ⟨hisKey.ne_id, hisKey.not_meta⟩

theorem ValidFields.valid_describe {fields : SortedMap Attribute} (hfields : ValidFields fields)
    (key : String) (form : FieldForm)
    (hform : (fields.map fun _ a ↦ a.describe).get? key = some form) : form.Valid key := by
  rw [SortedMap.get?_map, Option.map_eq_some_iff] at hform
  obtain ⟨a, ha, rfl⟩ := hform
  obtain ⟨hkey, htype⟩ := hfields key a ha
  exact ⟨hkey, htype⟩

theorem Resource.IsNamed.valid_describe_iff (named : r.IsNamed) {key : String} {rel : Relationship}
    (hrel : r.relationships.get? key = some rel) :
    rel.describe.Valid r.describe key ↔ r.FreeKey key := by
  have hattribute (other : String) :
      other ∉ r.attributes.keys ↔ r.describe.attributes.contains other = false := by
    rw [describe, SortedMap.contains_map, SortedMap.not_mem_keys_iff]
  have hmeta : key ∉ r.metaFields.keys ↔ r.describe.metaFields.contains key = false := by
    rw [describe, SortedMap.contains_map, SortedMap.not_mem_keys_iff]
  obtain ⟨-, hrelated, hinverse⟩ := named.relationships key rel hrel
  constructor
  · rintro ⟨hkey, hnotAttribute, hnotMeta, hcolumn, -, -⟩
    exact ⟨hkey, (hattribute key).mpr hnotAttribute, hmeta.mpr hnotMeta, (hattribute _).mpr hcolumn⟩
  · rintro ⟨hkey, hnotAttribute, hnotMeta, hcolumn⟩
    refine ⟨hkey, (hattribute key).mp hnotAttribute, hmeta.mp hnotMeta, (hattribute _).mp hcolumn,
      fun name hname ↦ ?_, hinverse⟩
    obtain rfl := Option.some.inj hname
    exact hrelated

/-- What an accepted resource describes keeps the rules exactly if the keys are apart. -/
theorem valid_describe_iff (named : r.IsNamed) (keyed : r.WellKeyed)
    (positive : r.pagination.IsPositive) : r.describe.Valid ↔ r.KeysApart := by
  rw [keysApart_iff named keyed]
  constructor
  · intro hvalid
    refine ⟨fun key hkey ↦ ?_, fun key hkey ↦ ?_⟩
    · have hnew := hvalid.metaFields_new key ((SortedMap.keys_map _ r.metaFields).symm ▸ hkey)
      exact SortedMap.not_mem_keys_iff.mpr ((SortedMap.contains_map _ _ _).symm.trans hnew)
    · obtain ⟨rel, hrel⟩ := SortedMap.mem_keys_iff.mp hkey
      refine (named.valid_describe_iff hrel).mp (hvalid.relationships key rel.describe ?_)
      rw [Resource.describe, SortedMap.get?_map, hrel]
      rfl
  · rintro ⟨hmeta, hfree⟩
    refine ⟨named.name, fun plural hplural ↦ ?_, keyed.attributes.valid_describe,
      keyed.metaFields.valid_describe, fun key hkey ↦ ?_, fun key form hform ↦ ?_,
      fun enabled size number hpagination ↦ ?_⟩
    · obtain rfl := Option.some.inj hplural
      exact named.pluralForm
    · have hkey : key ∈ r.metaFields.keys := SortedMap.keys_map _ r.metaFields ▸ hkey
      exact (SortedMap.contains_map _ _ _).trans (SortedMap.not_mem_keys_iff.mp (hmeta key hkey))
    · rw [Resource.describe, SortedMap.get?_map, Option.map_eq_some_iff] at hform
      obtain ⟨rel, hrel, rfl⟩ := hform
      exact (named.valid_describe_iff hrel).mpr (hfree key (SortedMap.mem_keys_iff.mpr ⟨rel, hrel⟩))
    · obtain ⟨rfl, rfl, rfl⟩ := PaginationForm.full.inj (Option.some.inj hpagination)
      exact ⟨fun h ↦ positive.size (Option.some.inj h), fun h ↦ positive.number (Option.some.inj h)⟩

section Accepted

variable (accepted : resourcesOf ds = .ok rs)
include accepted

theorem issues_describe_iff : issues (rs.map Resource.describe) = [] ↔ ∀ r ∈ rs, r.KeysApart := by
  have hnames : ((rs.map Resource.describe).map Description.name).Nodup := by
    rw [List.map_map]
    exact accepted_distinct accepted
  rw [issues_eq_nil_iff, and_iff_left hnames, List.forall_mem_map]
  exact forall₂_congr fun r hr ↦ valid_describe_iff (accepted_isNamed accepted hr)
    (accepted_wellKeyed accepted hr) (accepted_isPositive accepted hr)

/-- **When accepted resources are accepted again.**  Read back from the form in which they are
written, they describe themselves; the descriptions are valid and become the same resources exactly
if the keys of each resource are apart. -/
theorem accepted_again_iff :
    ∃ ds', (rs.map Resource.toJson).mapM Description.ofJson? = some ds' ∧
      (validate ds' = .ok () ↔ ∀ r ∈ rs, r.KeysApart) ∧
      (resourcesOf ds' = .ok rs ↔ ∀ r ∈ rs, r.KeysApart) := by
  refine ⟨rs.map Resource.describe, ?_, ?_, ?_⟩
  · rw [List.mapM_map]
    simp only [Function.comp_def, Description.ofJson?_toJson]
    exact List.mapM_pure
  · rw [validate_eq_ok_iff, issues_describe_iff accepted]
  · have hcomplete : (rs.map Resource.describe).map Description.complete = rs := by
      rw [List.map_map]
      exact List.map_congr_left (fun r hr ↦ (accepted_isComplete accepted hr).complete_describe)
        |>.trans (List.map_id rs)
    rw [resourcesOf_eq_ok_iff, hcomplete, addInverses_accepted accepted, and_iff_left rfl,
      issues_describe_iff accepted]

end Accepted

/-- A cat with a name and an owner, and a person. -/
def pets : List Description :=
  [((Description.named "cat").withAttribute "name" "text"
    |>.withRelationship "owner" (.between "person" .manyToOne true)),
   Description.named "person"]

theorem accepted_again_pets :
    ∃ rs, resourcesOf pets = .ok rs ∧
      ∃ ds', (rs.map Resource.toJson).mapM Description.ofJson? = some ds' ∧
        resourcesOf ds' = .ok rs := by
  have hissues : issues pets = [] := by decide +kernel
  have accepted := resourcesOf_eq_ok_iff.mpr ⟨hissues, rfl⟩
  have hapart : ∀ r ∈ addInverses (pets.map Description.complete), r.KeysApart := by
    decide +kernel
  obtain ⟨ds', hread, -, hagain⟩ := accepted_again_iff accepted
  exact ⟨_, accepted, ds', hread, hagain.mpr hapart⟩

/-- A cat with an attribute that has the key of a built-in field. -/
def stray : List Description := [(Description.named "cat").withAttribute "created_at" "text"]

/-- A built-in field comes in next to an attribute with its key, and the resource is refused. -/
theorem not_accepted_again_stray :
    ∃ rs, resourcesOf stray = .ok rs ∧ (∃ r ∈ rs, ∃ key ∈ r.metaFields.keys,
        key ∈ r.attributes.keys) ∧
      ∃ ds', (rs.map Resource.toJson).mapM Description.ofJson? = some ds' ∧
        validate ds' ≠ .ok () := by
  have hissues : issues stray = [] := by decide +kernel
  have hclash : ∃ r ∈ addInverses (stray.map Description.complete), ∃ key ∈ r.metaFields.keys,
      key ∈ r.attributes.keys := by
    decide +kernel
  have hread : (((addInverses (stray.map Description.complete)).map Resource.toJson).mapM
      Description.ofJson?).any (fun ds' ↦ !(issues ds').isEmpty) = true := by
    decide +kernel
  obtain ⟨ds', hread, hrefused⟩ := Option.any_eq_true _ _ |>.mp hread
  refine ⟨_, resourcesOf_eq_ok_iff.mpr ⟨hissues, rfl⟩, hclash, ds', hread, fun hvalid ↦ ?_⟩
  rw [validate_eq_ok_iff.mp hvalid] at hrefused
  cases hrefused

/-! ## Resources that describe themselves -/

/-- What the resource is written as reads as a description that becomes the resource again. -/
def Resource.DescribesItself (r : Resource) : Prop :=
  ∃ d, Description.ofJson? r.toJson = some d ∧ d.complete = r

theorem Resource.describesItself_iff : r.DescribesItself ↔ r.IsComplete := by
  constructor
  · rintro ⟨d, -, rfl⟩
    exact d.isComplete_complete
  · exact fun hr ↦ ⟨r.describe, Description.ofJson?_toJson r, hr.complete_describe⟩

/-- **Resources describe themselves**, as they are completed and with the inverses of all of them,
whether they would be accepted or not. -/
theorem completed_describesItself (ds : List Description) :
    (∀ r ∈ ds.map Description.complete, r.DescribesItself) ∧
      ∀ r ∈ addInverses (ds.map Description.complete), r.DescribesItself := by
  constructor
  · exact fun r hr ↦ Resource.describesItself_iff.mpr (isComplete_completed hr)
  · exact fun r hr ↦ Resource.describesItself_iff.mpr
      (isComplete_addInverses (fun _ hmem ↦ isComplete_completed hmem) hr)

/-- The person to whom cats are added describes itself. -/
theorem completed_describesItself_pets :
    ∃ r ∈ addInverses (pets.map Description.complete),
      r.relationships.contains "cats" = true ∧ r.DescribesItself := by
  have hgains : ∃ r ∈ addInverses (pets.map Description.complete),
      r.relationships.contains "cats" = true := by
    decide +kernel
  obtain ⟨-, hdescribes⟩ := completed_describesItself pets
  obtain ⟨r, hr, hcats⟩ := hgains
  exact ⟨r, hr, hcats, hdescribes r hr⟩

end ResourceSchema
