import ResourceSchema.Proofs.Description.Recompilation
import ResourceSchema.Proofs.Request.Binding
import ResourceSchema.Proofs.Request.Refusal

/-!
# Which column a key writes

In a write, attributes, meta fields and relationships are named by their keys alone, and one of
them takes what two could mean: an attribute comes before a meta field, and a meta field before a
relationship.  The rules keep keys apart, but the built-in meta fields come in when the rules have
been checked.  So it is only their keys that may miss a column; nothing else is shadowed, and no
two keys ever write one column.
-/

namespace ResourceSchema

open Sql

variable {ds : List Description} {rs : List Resource} {r : Resource} {s : DefinitionSet}
variable {d : Definition} {compiler : QueryCompiler} {request : Request} {p : Prepared}
variable {values : SortedMap Json} {name key key' : String} {value value' : Json}
variable {column column' : Ident}

/-! ## What writes assign -/

/-- The request sets the values in a row of the resource, a new one or one that is there. -/
def Request.Sets (request : Request) (name : String) (values : SortedMap Json) : Prop :=
  ∃ id, request = .create name ⟨id, values⟩ ∨ request = .update name ⟨id, values⟩

/-- The columns that a command gives values, with placeholders for the values. -/
def Command.assignments : Command → List Assignment
  | insert _ assignments | update _ assignments _ => assignments
  | read _ | delete _ _ => []

/-- The value under the key is assigned to the column. -/
def Prepared.Assigns (p : Prepared) (key : String) (value : Json) (column : Ident) : Prop :=
  ∃ a ∈ p.command.assignments, a.column = column ∧
    p.parameters.at? a.value = some (parameterOf (key, value))

/-- A key writes a column: a create or an update can set it, and whatever else they set, the value
under the key goes to this column and to no other. -/
structure QueryCompiler.WritesTo (compiler : QueryCompiler) (name key : String) (column : Ident) :
    Prop where
  create : ∀ value, ∃ p,
    compiler.prepare (.create name { values := SortedMap.empty.insert key value }) = .ok p
  update : ∀ id value, ∃ p, compiler.prepare
    (.update name { id := some id, values := SortedMap.empty.insert key value }) = .ok p
  assigns : ∀ request values p value, request.Sets name values →
    compiler.prepare request = .ok p → values.get? key = some value →
      ∀ other, p.Assigns key value other ↔ other = column

section Build

variable (accepted : resourcesOf ds = .ok rs) (built : DefinitionSet.build rs = .ok s)
variable (hset : compiler.definitions = s)
include accepted built hset

/-- A write assigns one value for each of its keys. -/
theorem bindsValues_of_sets (hd : s.get? name = some d) (hsets : request.Sets name values)
    (hp : compiler.prepare request = .ok p) :
    d.BindsValues values.entries p.parameters p.command.assignments := by
  obtain ⟨operation, haccept, hprepare⟩ := bind_eq_ok_iff.mp hp
  rw [hset] at haccept
  have hbound := (request_binds accepted built haccept hprepare).2
  generalize p.command = command at hbound ⊢
  obtain ⟨id, rfl | rfl⟩ := hsets
  · cases hbound with
    | create found hvalues =>
        obtain rfl := Option.some.inj (found.symm.trans hd)
        exact hvalues
  · cases hbound with
    | update found _ hvalues =>
        obtain rfl := Option.some.inj (found.symm.trans hd)
        exact hvalues
    | reread _ _ empty =>
        rw [Definition.BindsValues, List.isEmpty_iff.mp empty]
        exact .nil

/-- What is assigned to a column stands under a key that can be written in it. -/
theorem writableColumn_of_assigns (hd : s.get? name = some d) (hsets : request.Sets name values)
    (hp : compiler.prepare request = .ok p) (h : p.Assigns key value column) :
    d.writableColumn key = .ok column := by
  obtain ⟨a, ha, rfl, hat⟩ := h
  obtain ⟨e, -, hcolumn, hat'⟩ :=
    exists_of_mem_right (bindsValues_of_sets accepted built hset hd hsets hp) ha
  obtain ⟨hkey, -⟩ := Parameter.mk.inj (Option.some.inj (hat.symm.trans hat'))
  rw [show key = e.1 from hkey]
  exact hcolumn

theorem assigns_iff (hd : s.get? name = some d) (hsets : request.Sets name values)
    (hp : compiler.prepare request = .ok p) (hvalue : values.get? key = some value) :
    p.Assigns key value column ↔ d.writableColumn key = .ok column := by
  refine ⟨writableColumn_of_assigns accepted built hset hd hsets hp, fun hcolumn ↦ ?_⟩
  obtain ⟨a, ha, hcolumn', hat⟩ := exists_of_mem_left
    (bindsValues_of_sets accepted built hset hd hsets hp) (SortedMap.get?_eq_some_iff.mp hvalue)
  exact ⟨a, ha, Except.ok.inj (hcolumn'.symm.trans hcolumn), hat⟩

/-- A key writes a column exactly if it can be written in it. -/
theorem writesTo_iff (hd : s.get? name = some d) (hcreate : d.resource.actions.create = true)
    (hupdate : d.resource.actions.update = true) :
    compiler.WritesTo name key column ↔ d.writableColumn key = .ok column := by
  constructor
  · intro h
    obtain ⟨p, hp⟩ := h.create .null
    have hvalue := SortedMap.get?_insert_self .empty key Json.null
    have hsets : Request.Sets (.create name { values := SortedMap.empty.insert key .null }) name
        (SortedMap.empty.insert key .null) := ⟨none, .inl rfl⟩
    exact (assigns_iff accepted built hset hd hsets hp hvalue).mp
      ((h.assigns _ _ p _ hsets hp hvalue column).mpr rfl)
  · intro hcolumn
    obtain ⟨-, hdefine⟩ := define_of_mem built (mem_of_get? hd).1
    have hstored (other) (hother : other ∈ [key]) : d.Stores other := by
      obtain rfl := List.mem_singleton.mp hother
      exact (canWrite_iff hdefine).mp (canWrite_iff_exists.mpr ⟨column, hcolumn⟩)
    constructor
    · exact fun value ↦ exists_prepare_of_finds built hset hd hcreate rfl hstored
    · exact fun id value ↦ exists_prepare_of_finds built hset hd hupdate rfl hstored
    · intro request values p value hsets hp hvalue other
      rw [assigns_iff accepted built hset hd hsets hp hvalue, hcolumn, Except.ok.injEq, eq_comm]

end Build

/-! ## Keys and columns -/

section Define

variable (defined : r.define rs = .ok d) (hr : r.WellKeyed)
include defined hr

/-- The key of an attribute, the column of a meta field and that of a relationship differ. -/
theorem columns_apart {l : Link} (hl : l ∈ d.links) (hown : l.storage = .ownTable column) :
    (r.attributes.contains key = true → (⟨key⟩ : Ident) ≠ column) ∧
      (r.metaFields.contains key = true → (⟨Name.metaColumn key⟩ : Ident) ≠ column) := by
  have hmem : column.raw ∈ d.keyColumns := by
    refine List.mem_filterMap.mpr ⟨l, hl, ?_⟩
    rw [ownColumn?_eq_some_iff.mpr hown]
    rfl
  constructor
  · rintro hattribute rfl
    exact not_mem_keyColumns defined hr
      (List.mem_append_left _ (SortedMap.contains_iff.mp hattribute)) hmem
  · rintro hmeta rfl
    exact not_mem_keyColumns defined hr
      (List.mem_append_right _ (List.mem_map_of_mem (SortedMap.contains_iff.mp hmeta))) hmem

/-- Two keys never write one column. -/
theorem writableColumn_injective (h : d.writableColumn key = .ok column)
    (h' : d.writableColumn key' = .ok column) : key = key' := by
  have hmetaColumn {key other : String} (hattribute : r.attributes.contains key = true) :
      key ≠ Name.metaColumn other := by
    obtain ⟨a, ha⟩ := SortedMap.contains_eq_true_iff.mp hattribute
    exact (hr.attributes key a ha).1.ne_metaColumn other
  obtain rfl := resource_of_define defined
  rcases (writableColumn_eq_ok_iff_stored defined).mp h with
    ⟨hattribute, rfl⟩ | ⟨-, hmeta, rfl⟩ | ⟨-, -, l, hl, rfl, hown⟩
  · rcases (writableColumn_eq_ok_iff_stored defined).mp h' with
      ⟨-, heq⟩ | ⟨-, -, heq⟩ | ⟨-, -, l', hl', -, hown'⟩
    · exact congrArg Ident.raw heq
    · exact absurd (congrArg Ident.raw heq) (hmetaColumn hattribute)
    · exact absurd rfl ((columns_apart defined hr hl' hown').1 hattribute)
  · rcases (writableColumn_eq_ok_iff_stored defined).mp h' with
      ⟨hattribute', heq⟩ | ⟨-, -, heq⟩ | ⟨-, -, l', hl', -, hown'⟩
    · exact absurd (congrArg Ident.raw heq).symm (hmetaColumn hattribute')
    · exact metaColumn_injective (congrArg Ident.raw heq)
    · exact absurd rfl ((columns_apart defined hr hl' hown').2 hmeta)
  · rcases (writableColumn_eq_ok_iff_stored defined).mp h' with
      ⟨hattribute', heq⟩ | ⟨-, hmeta', heq⟩ | ⟨-, -, l', hl', rfl, hown'⟩
    · exact absurd heq.symm ((columns_apart defined hr hl hown).1 hattribute')
    · exact absurd heq.symm ((columns_apart defined hr hl hown).2 hmeta')
    · obtain ⟨rfl, -⟩ := ownColumn?_eq_some defined hl (ownColumn?_eq_some_iff.mpr hown)
      obtain ⟨heq, -⟩ := ownColumn?_eq_some defined hl' (ownColumn?_eq_some_iff.mpr hown')
      exact foreignKeyColumn_injective (congrArg Ident.raw heq)

end Define

/-! ## Every key and its column -/

/-- The resource stores the key of the relationship in this column. -/
def Definition.StoresKey (d : Definition) (name : String) (column : Ident) : Prop :=
  ∃ l ∈ d.links, l.name = name ∧ l.storage = .ownTable column

/-- Every key of the resource writes its own column, unless a built-in meta field is in the way:
then an attribute is written instead of the meta field, or that instead of a relationship. -/
structure Definition.WritesApart (d : Definition) (compiler : QueryCompiler) : Prop where
  attributes : ∀ key, d.resource.attributes.contains key = true →
    compiler.WritesTo d.name key ⟨key⟩
  metaFields : ∀ key, d.resource.metaFields.contains key = true →
    (compiler.WritesTo d.name key ⟨Name.metaColumn key⟩ ↔
      d.resource.attributes.contains key = false)
  relationships : ∀ key column, d.StoresKey key column → column = ⟨Name.foreignKeyColumn key⟩ ∧
    (compiler.WritesTo d.name key column ↔ d.resource.metaFields.contains key = false)
  /-- Only a built-in field can be in the way. -/
  builtIns : ∀ key, d.resource.metaFields.contains key = true →
    (d.resource.attributes.contains key = true ∨ ∃ column, d.StoresKey key column) →
      ∃ b ∈ d.resource.builtIns.toList, key = b.key
  /-- What different keys set goes to different columns. -/
  injective : ∀ request values p, request.Sets d.name values → compiler.prepare request = .ok p →
    ∀ key key' value value' column, p.Assigns key value column → p.Assigns key' value' column →
      key = key'

section Define

variable (defined : r.define rs = .ok d)
include defined

theorem writableColumn_attribute (hattribute : r.attributes.contains key = true) :
    d.writableColumn key = .ok ⟨key⟩ := by
  obtain rfl := resource_of_define defined
  exact (writableColumn_eq_ok_iff_stored defined).mpr (.inl ⟨hattribute, rfl⟩)

variable (hr : r.WellKeyed)
include hr

theorem writableColumn_metaField_iff (hmeta : r.metaFields.contains key = true) :
    d.writableColumn key = .ok ⟨Name.metaColumn key⟩ ↔ r.attributes.contains key = false := by
  obtain rfl := resource_of_define defined
  rw [writableColumn_eq_ok_iff_stored defined]
  constructor
  · rintro (⟨hattribute, heq⟩ | ⟨hfree, -, -⟩ | ⟨hfree, -⟩)
    · obtain ⟨a, ha⟩ := SortedMap.contains_eq_true_iff.mp hattribute
      exact absurd (congrArg Ident.raw heq).symm ((hr.attributes key a ha).1.ne_metaColumn key)
    · exact hfree
    · exact hfree
  · exact fun hfree ↦ .inr (.inl ⟨hfree, hmeta, rfl⟩)

theorem writableColumn_relationship_iff (hstored : d.StoresKey key column)
    (hfree : r.attributes.contains key = false) :
    d.writableColumn key = .ok column ↔ r.metaFields.contains key = false := by
  obtain ⟨l, hl, hname, hown⟩ := hstored
  have hapart : r.metaFields.contains key = true → ⟨Name.metaColumn key⟩ ≠ column :=
    (columns_apart defined hr hl hown).2
  obtain rfl := resource_of_define defined
  rw [writableColumn_eq_ok_iff_stored defined]
  constructor
  · rintro (⟨hattribute, -⟩ | ⟨-, hmeta, rfl⟩ | ⟨-, hmeta, -⟩)
    · exact nomatch hfree.symm.trans hattribute
    · exact absurd rfl (hapart hmeta)
    · exact hmeta
  · exact fun hmeta ↦ .inr (.inr ⟨hfree, hmeta, l, hl, hname, hown⟩)

end Define

/-- **Every key writes its own column**, except where a built-in meta field has the key of an
attribute or of a relationship, and no two keys write one column. -/
theorem writes_apart (accepted : resourcesOf ds = .ok rs) (built : DefinitionSet.build rs = .ok s)
    (hset : compiler.definitions = s) (hd : d ∈ s.definitions)
    (hcreate : d.resource.actions.create = true) (hupdate : d.resource.actions.update = true) :
    d.WritesApart compiler := by
  obtain ⟨hmem, hdefine⟩ := define_of_mem built hd
  have hr := accepted_wellKeyed accepted hmem
  have hget := (get?_eq_some_iff built (accepted_distinct accepted)).mpr ⟨hd, rfl⟩
  have hwrites {key : String} {column : Ident} :
      compiler.WritesTo d.name key column ↔ d.writableColumn key = .ok column :=
    writesTo_iff accepted built hset hget hcreate hupdate
  -- a relationship whose key is stored here is a host
  have hhost {key : String} {column : Ident} (hstored : d.StoresKey key column) :
      ∃ host, d.resource.relationships.get? key = some host ∧ host.host = true := by
    obtain ⟨l, hl, rfl, hown⟩ := hstored
    obtain ⟨_, hleads⟩ := exists_leadsTo hdefine hl
    exact ⟨l.relationship, hleads.declared,
      (ownColumn?_eq_some hdefine hl (ownColumn?_eq_some_iff.mpr hown)).2⟩
  refine ⟨fun key hattribute ↦ ?_, fun key hmeta ↦ ?_, fun key column hstored ↦ ⟨?_, ?_⟩,
    fun key hmeta hother ↦ ?_, fun request values p hsets hp key key' value value' column h h' ↦ ?_⟩
  · exact hwrites.mpr (writableColumn_attribute hdefine hattribute)
  · exact hwrites.trans (writableColumn_metaField_iff hdefine hr hmeta)
  · obtain ⟨l, hl, rfl, hown⟩ := hstored
    exact (ownColumn?_eq_some hdefine hl (ownColumn?_eq_some_iff.mpr hown)).1
  · obtain ⟨host, hrel, hhosted⟩ := hhost hstored
    obtain ⟨hfree, -⟩ := accepted_host_apart accepted hmem hrel hhosted
    exact hwrites.trans (writableColumn_relationship_iff hdefine hr hstored hfree)
  · rcases hother with hattribute | ⟨column, hstored⟩
    · exact accepted_metaField_apart accepted hmem hattribute hmeta
    · obtain ⟨host, hrel, hhosted⟩ := hhost hstored
      exact (accepted_host_apart accepted hmem hrel hhosted).2 hmeta
  · exact writableColumn_injective hdefine hr
      (writableColumn_of_assigns accepted built hset hget hsets hp h)
      (writableColumn_of_assigns accepted built hset hget hsets hp h')

/-- An attribute, a built-in field and a key of a cat each write their own column. -/
theorem writes_apart_pets :
    ∃ rs s d, resourcesOf pets = .ok rs ∧ DefinitionSet.build rs = .ok s ∧ d ∈ s.definitions ∧
      d.resource.actions.create = true ∧ d.resource.actions.update = true ∧
      d.WritesApart ⟨s, none⟩ ∧ QueryCompiler.WritesTo ⟨s, none⟩ "cat" "name" ⟨"name"⟩ ∧
      QueryCompiler.WritesTo ⟨s, none⟩ "cat" "created_at" ⟨"meta_created_at"⟩ ∧
      QueryCompiler.WritesTo ⟨s, none⟩ "cat" "owner" ⟨"owner_id"⟩ := by
  have hsome : ((resourcesOf pets).toOption.any fun rs ↦
      (DefinitionSet.build rs).toOption.any fun s ↦ (s.get? "cat").any fun d ↦
        d.resource.actions.create && d.resource.actions.update &&
          d.resource.attributes.contains "name" && d.resource.metaFields.contains "created_at" &&
          !d.resource.attributes.contains "created_at" && !d.resource.metaFields.contains "owner" &&
          (d.link? "owner").any fun l ↦ decide (l.storage = .ownTable ⟨"owner_id"⟩)) = true := by
    decide +kernel
  simp only [Option.any_eq_true, toOption_eq_some_iff, Bool.and_eq_true, Bool.not_eq_true',
    decide_eq_true_iff] at hsome
  obtain ⟨rs, accepted, s, built, d, hget, ⟨⟨⟨⟨⟨hcreate, hupdate⟩, hname⟩, hmeta⟩, hfree⟩, hapart⟩,
    l, hlink, hown⟩ := hsome
  obtain ⟨hd, hcat⟩ := mem_of_get? hget
  obtain ⟨hl, howner⟩ := (link?_eq_some_iff (define_of_mem built hd).2).mp hlink
  have hwrites : d.WritesApart ⟨s, none⟩ := writes_apart accepted built rfl hd hcreate hupdate
  rw [← hcat]
  exact ⟨rs, s, d, accepted, built, hd, hcreate, hupdate, hwrites, hwrites.attributes _ hname,
    (hwrites.metaFields _ hmeta).mpr hfree,
    (hwrites.relationships _ _ ⟨l, hl, howner, hown⟩).2.mpr hapart⟩

/-- The time at which a cat was created cannot be written: its key is that of an attribute, and it
is the attribute that is written. -/
theorem metaField_not_written_stray :
    ∃ rs s d, resourcesOf stray = .ok rs ∧ DefinitionSet.build rs = .ok s ∧ d ∈ s.definitions ∧
      d.name = "cat" ∧ d.resource.actions.create = true ∧ d.resource.actions.update = true ∧
      d.resource.metaFields.contains "created_at" = true ∧
      ¬ QueryCompiler.WritesTo ⟨s, none⟩ "cat" "created_at" ⟨"meta_created_at"⟩ ∧
      ∃ p, (⟨s, none⟩ : QueryCompiler).prepare
          (.create "cat" { values := .ofList [("created_at", .null)] }) = .ok p ∧
        p.command.assignments.map Assignment.column = [⟨"created_at"⟩] := by
  have hsome : ((resourcesOf stray).toOption.any fun rs ↦
      (DefinitionSet.build rs).toOption.any fun s ↦ (s.get? "cat").any fun d ↦
        d.resource.actions.create && d.resource.actions.update &&
          d.resource.metaFields.contains "created_at" &&
          decide (d.writableColumn "created_at" ≠ .ok ⟨"meta_created_at"⟩) &&
          ((⟨s, none⟩ : QueryCompiler).prepare
            (.create "cat" { values := .ofList [("created_at", .null)] })).toOption.any fun p ↦
              decide (p.command.assignments.map Assignment.column = [⟨"created_at"⟩])) = true := by
    decide +kernel
  simp only [Option.any_eq_true, toOption_eq_some_iff, Bool.and_eq_true,
    decide_eq_true_iff] at hsome
  obtain ⟨rs, accepted, s, built, d, hget, ⟨⟨⟨hcreate, hupdate⟩, hmeta⟩, hcolumn⟩, p, hp,
    hassigned⟩ := hsome
  obtain ⟨hd, hcat⟩ := mem_of_get? hget
  exact ⟨rs, s, d, accepted, built, hd, hcat, hcreate, hupdate, hmeta,
    fun hwrites ↦ hcolumn ((writesTo_iff accepted built rfl hget hcreate hupdate).mp hwrites), p,
    hp, hassigned⟩

end ResourceSchema
