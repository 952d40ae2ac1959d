import ResourceSchema.Proofs.Description.Validity
import ResourceSchema.Proofs.Schema.Creation

/-!
# The columns of a resource are distinct

Four kinds of columns meet in the table of a resource: the id, attributes under their own names,
meta fields behind a prefix and keys before a suffix.  The rules for keys are made so that none of
them can meet another.  So the table of a valid resource can always be made.
-/

namespace ResourceSchema

open Sql

variable {ds : List Description} {rs : List Resource} {r : Resource} {s : DefinitionSet}
variable {d : Definition} {l l' : Link} {t : Table} {key relationship : String} {column : Ident}

/-! ## Names of columns -/

theorem foreignKeyColumn_injective : Function.Injective Name.foreignKeyColumn :=
  fun _ _ ↦ (String.append_left_inj "_id").mp

theorem metaColumn_injective : Function.Injective Name.metaColumn :=
  fun _ _ ↦ (String.append_right_inj Name.metaPrefix).mp

theorem hasMetaPrefix_iff : hasMetaPrefix key = true ↔ Name.metaPrefix.toList <+: key.toList :=
  List.isPrefixOf_iff_prefix

theorem hasMetaPrefix_metaColumn (key : String) : hasMetaPrefix (Name.metaColumn key) = true := by
  rw [hasMetaPrefix_iff, Name.metaColumn, String.toList_append]
  exact List.prefix_append _ _

theorem foreignKeyColumn_ne_idColumn (relationship : String) :
    Name.foreignKeyColumn relationship ≠ Name.idColumn := by
  intro h
  have hlength := congrArg (fun name ↦ name.toList.length) h
  simp [Name.foreignKeyColumn, Name.idColumn] at hlength

theorem metaColumn_ne_idColumn (key : String) : Name.metaColumn key ≠ Name.idColumn := by
  intro h
  have hprefix := hasMetaPrefix_metaColumn key
  rw [h] at hprefix
  revert hprefix
  decide

theorem IsKey.ne_metaColumn (h : IsKey key) (other : String) : key ≠ Name.metaColumn other := by
  rintro rfl
  exact nomatch h.not_meta.symm.trans (hasMetaPrefix_metaColumn other)

/-- The key column of a relationship could only be that of a meta field if the relationship was
called `meta` and the field `id`. -/
theorem metaColumn_ne_foreignKeyColumn (hkey : IsKey key) (hrelationship : IsKey relationship) :
    Name.metaColumn key ≠ Name.foreignKeyColumn relationship := by
  intro h
  have hchars := congrArg String.toList h
  simp only [Name.metaColumn, Name.foreignKeyColumn, String.toList_append] at hchars
  have hno : ¬ Name.metaPrefix.toList <+: relationship.toList := by
    rw [← hasMetaPrefix_iff, hrelationship.not_meta]
    exact Bool.false_ne_true
  rcases List.append_eq_append_iff.mp hchars with ⟨inner, hleft, -⟩ | ⟨inner, hleft, hright⟩
  · exact hno ⟨inner, hleft.symm⟩
  · -- `inner` is what the prefix has more than the relationship, and the suffix starts with it
    cases inner with
    | nil => exact hno ⟨[], by rw [hleft, List.append_nil, List.append_nil]⟩
    | cons c rest =>
        obtain ⟨-, hrest⟩ := List.cons_eq_cons.mp (show '_' :: ['i', 'd'] = c :: _ from hright)
        cases rest with
        | nil => exact hkey.ne_id (String.toList_inj.mp hrest.symm)
        | cons c' rest =>
            obtain ⟨rfl, -⟩ := List.cons_eq_cons.mp hrest
            have hmem : 'i' ∈ Name.metaPrefix.toList := by
              rw [hleft]
              exact List.mem_append_right _ (List.mem_cons_of_mem _ List.mem_cons_self)
            exact absurd hmem (by decide)

/-! ## The table of a resource -/

theorem Resource.WellKeyed.fieldColumns_nodup (hr : r.WellKeyed) :
    (r.attributes.keys ++ r.metaFields.keys.map Name.metaColumn).Nodup := by
  refine List.nodup_append.mpr ⟨r.attributes.keys_nodup,
    r.metaFields.keys_nodup.map metaColumn_injective, ?_⟩
  rintro key hkey _ hmeta rfl
  obtain ⟨a, ha⟩ := SortedMap.mem_keys_iff.mp hkey
  obtain ⟨other, -, heq⟩ := List.mem_map.mp hmeta
  exact (hr.attributes key a ha).1.ne_metaColumn other heq.symm

/-- The names of the columns in which the resource stores keys. -/
def Definition.keyColumns (d : Definition) : List String :=
  d.links.filterMap fun l ↦ l.storage.ownColumn?.map Ident.raw

section Define

variable (defined : r.define rs = .ok d)
include defined

/-- A key that the resource stores is in the column named after its relationship. -/
theorem ownColumn?_eq_some (hl : l ∈ d.links) (hown : l.storage.ownColumn? = some column) :
    column = ⟨Name.foreignKeyColumn l.name⟩ ∧ l.relationship.host = true := by
  obtain ⟨target, hleads⟩ := exists_leadsTo defined hl
  have hst := hleads.storage
  rw [ownColumn?_eq_some_iff.mp hown] at hst
  obtain ⟨hhost, hmany⟩ := Relationship.storage_eq_ownTable hst
  rw [Relationship.storage_host hhost hmany] at hst
  exact ⟨(Storage.ownTable.inj (Except.ok.inj hst)).symm, hhost⟩

theorem mem_keyColumns {name : String} (hname : name ∈ d.keyColumns) :
    ∃ l ∈ d.links, l.relationship.host = true ∧ name = Name.foreignKeyColumn l.name := by
  obtain ⟨l, hl, hcolumn⟩ := List.mem_filterMap.mp hname
  obtain ⟨column, hown, rfl⟩ := Option.map_eq_some_iff.mp hcolumn
  obtain ⟨rfl, hhost⟩ := ownColumn?_eq_some defined hl hown
  exact ⟨l, hl, hhost, rfl⟩

theorem keyColumns_nodup : d.keyColumns.Nodup := by
  have hlinks : d.links.Pairwise fun l l' ↦ l.name ≠ l'.name :=
    List.pairwise_map.mp (link_names_nodup defined)
  refine List.pairwise_filterMap.mpr (hlinks.imp_of_mem fun hl hl' hne ↦ ?_)
  intro name hname name' hname' heq
  obtain ⟨column, hown, rfl⟩ := Option.map_eq_some_iff.mp hname
  obtain ⟨column', hown', rfl⟩ := Option.map_eq_some_iff.mp hname'
  obtain ⟨rfl, -⟩ := ownColumn?_eq_some defined hl hown
  obtain ⟨rfl, -⟩ := ownColumn?_eq_some defined hl' hown'
  exact hne (foreignKeyColumn_injective heq)

/-- The columns of a resource are the id, those of its fields and those of its keys. -/
theorem columnNames_of_toTable (made : d.toTable = .ok t) :
    t.columnNames = Name.idColumn ::
      (r.attributes.keys ++ r.metaFields.keys.map Name.metaColumn ++ d.keyColumns) := by
  obtain rfl := resource_of_define defined
  obtain ⟨fields, hfields, rfl⟩ := toTable_eq_ok_iff.mp made
  have hnames : fields.map (fun c ↦ c.name.raw) =
      d.resource.attributes.keys ++ d.resource.metaFields.keys.map Name.metaColumn := by
    rw [← map_eq_map_of_forall₂ hfields (f := fun f ↦ f.column.raw) fun f c hcolumn ↦ by
      obtain ⟨-, rfl⟩ := toColumn_eq_ok_iff.mp hcolumn
      rfl]
    simp only [Definition.attributes, Definition.metaFields, SortedMap.keys, List.map_append,
      List.map_map]
    rfl
  have hkeys : (d.links.filterMap Link.toColumn?).map (fun c ↦ c.name.raw) = d.keyColumns := by
    rw [List.map_filterMap, Definition.keyColumns]
    congr 1
    funext l
    rw [Link.toColumn?, Option.map_map]
    rfl
  rw [Sql.Table.columnNames, List.map_append, List.map_cons, hnames, hkeys]
  rfl

variable (hr : r.WellKeyed)
include hr

/-- No column of a field has the name of a key column. -/
theorem not_mem_keyColumns {name : String}
    (hname : name ∈ r.attributes.keys ++ r.metaFields.keys.map Name.metaColumn) :
    name ∉ d.keyColumns := by
  intro hkey
  obtain ⟨l, hl, hhost, rfl⟩ := mem_keyColumns defined hkey
  obtain ⟨_, hleads⟩ := exists_leadsTo defined hl
  obtain ⟨hrelationship, hfree⟩ := hr.hosts l.name l.relationship hleads.declared hhost
  rcases List.mem_append.mp hname with hattribute | hmeta
  · rw [← SortedMap.contains_iff, hfree] at hattribute
    cases hattribute
  · obtain ⟨key, hmem, heq⟩ := List.mem_map.mp hmeta
    obtain ⟨a, ha⟩ := SortedMap.mem_keys_iff.mp hmem
    exact metaColumn_ne_foreignKeyColumn (hr.metaFields key a ha).1 hrelationship heq

theorem idColumn_not_mem :
    Name.idColumn ∉
      r.attributes.keys ++ r.metaFields.keys.map Name.metaColumn ++ d.keyColumns := by
  intro hmem
  rcases List.mem_append.mp hmem with hfield | hkey
  · rcases List.mem_append.mp hfield with hattribute | hmeta
    · obtain ⟨a, ha⟩ := SortedMap.mem_keys_iff.mp hattribute
      exact (hr.attributes _ a ha).1.ne_id rfl
    · obtain ⟨key, -, heq⟩ := List.mem_map.mp hmeta
      exact metaColumn_ne_idColumn key heq
  · obtain ⟨l, -, -, heq⟩ := mem_keyColumns defined hkey
    exact foreignKeyColumn_ne_idColumn l.name heq.symm

/-- No two columns of the table of a valid resource have one name. -/
theorem columnNames_nodup (made : d.toTable = .ok t) : t.columnNames.Nodup := by
  rw [columnNames_of_toTable defined made, List.nodup_cons]
  refine ⟨idColumn_not_mem defined hr, List.nodup_append.mpr ⟨hr.fieldColumns_nodup, ?_, ?_⟩⟩
  · exact keyColumns_nodup defined
  · rintro name hname _ hkey rfl
    exact not_mem_keyColumns defined hr hname hkey

/-- A valid resource has a table. -/
theorem exists_toTable : ∃ t, d.toTable = .ok t := by
  obtain rfl := resource_of_define defined
  have hfields : ∀ f ∈ d.attributes ++ d.metaFields, ∃ c, f.toColumn d.name = .ok c := by
    intro f hf
    have htype : isTypeLiteral f.type.type = true := by
      rcases List.mem_append.mp hf with hf | hf
      · obtain ⟨e, he, rfl⟩ := List.mem_map.mp hf
        exact (hr.attributes e.1 e.2 (SortedMap.get?_eq_some_iff.mpr he)).2
      · obtain ⟨e, he, rfl⟩ := List.mem_map.mp hf
        exact (hr.metaFields e.1 e.2 (SortedMap.get?_eq_some_iff.mpr he)).2
    exact ⟨_, toColumn_eq_ok_iff.mpr ⟨htype, rfl⟩⟩
  obtain ⟨fields, hfields⟩ := exists_mapM_eq_ok_iff.mpr hfields
  exact ⟨_, toTable_eq_ok_iff.mpr ⟨fields, mapM_eq_ok_iff.mp hfields, rfl⟩⟩

end Define

end ResourceSchema
