import ResourceSchema.Proofs.Request.Agreement
import ResourceSchema.Proofs.Schema.Columns

/-!
# The names of what a read returns

A read returns columns of the table, the related ids of other tables under names of their own, and
the number of rows.  The columns of a table have distinct names, as their keys are checked.  The
other names are made when the read is compiled, and nothing looks at what they meet there.  They
meet in three ways: two names for related ids differ by nothing but a plural `s`, a name for related
ids is that of a column, or the number of rows has the name of a meta field.
-/

namespace ResourceSchema

open Sql

variable {ds : List Description} {rs : List Resource} {r : Resource} {s : DefinitionSet}
variable {m : Migration} {d : Definition} {l l' : Link} {t : Table} {parts : List ResourceTable}
variable {request : ReadRequest} {filter : Option String} {p : Prepared} {c : ReadCommand}
variable {name key : String}

/-! ## Names -/

/-- The names of the columns that an output adds to the rows of a table. -/
def Output.names (t : Table) : Output → List String
  | .allColumns => t.columnNames
  | .column name | .relatedIds _ _ name => [name.raw]
  | .totalCount => [totalCountColumn.raw]

/-- The names of the columns that a read of a table returns. -/
def ReadCommand.outputNames (c : ReadCommand) (t : Table) : List String :=
  c.outputs.flatMap (Output.names t)

/-- What makes the names in a read distinct. -/
structure Definition.OutputsApart (d : Definition) (request : ReadRequest) : Prop where
  /-- To-many relationships have different names in the singular. -/
  related : ∀ l ∈ d.wantedLinks request, ∀ l' ∈ d.wantedLinks request,
    l.isToMany = true → l'.isToMany = true →
      Name.singular l.name = Name.singular l'.name → l = l'
  /-- No attribute that is asked for has the name of related ids. -/
  attributes : ∀ l ∈ d.wantedLinks request,
    d.resource.attributes.contains l.columnAlias.raw = true →
      request.wants l.columnAlias.raw = false
  /-- No meta field has a column with the name of related ids. -/
  metaFields : ∀ l ∈ d.wantedLinks request, ∀ key,
    d.resource.metaFields.contains key = true → l.columnAlias.raw ≠ Name.metaColumn key
  /-- No meta field has the name of the number of rows, where it is counted. -/
  total : request.id = none → d.resource.pagination.enabled = true →
    d.resource.metaFields.contains "total_count" = false

/-! ## Names for related ids -/

theorem getLast?_append {first : String} {c : Char} {last : String}
    (h : last.toList.getLast? = some c) : (first ++ last).toList.getLast? = some c := by
  rw [String.toList_append, List.getLast?_append, h]
  rfl

theorem foreignKeyColumn_getLast? (name : String) :
    (Name.foreignKeyColumn name).toList.getLast? = some 'd' := getLast?_append rfl

theorem Link.columnAlias_of_toMany (hmany : l.isToMany = true) :
    l.columnAlias.raw = Name.singular l.name ++ "_ids" := if_pos hmany

theorem Link.columnAlias_of_toOne (hone : l.isToMany = false) :
    l.columnAlias.raw = Name.foreignKeyColumn l.name :=
  if_neg (Bool.eq_false_iff.mp hone)

theorem Link.columnAlias_getLast? (l : Link) :
    l.columnAlias.raw.toList.getLast? = some (if l.isToMany then 's' else 'd') := by
  cases h : l.isToMany with
  | true =>
      rw [l.columnAlias_of_toMany h]
      exact getLast?_append rfl
  | false =>
      rw [l.columnAlias_of_toOne h]
      exact foreignKeyColumn_getLast? l.name

/-- The last letter of a name for related ids tells whether there may be several. -/
theorem Link.isToMany_iff_getLast? :
    l.isToMany = true ↔ l.columnAlias.raw.toList.getLast? = some 's' := by
  rw [l.columnAlias_getLast?]
  cases l.isToMany <;> decide

theorem columnAlias_ne_idColumn (l : Link) : l.columnAlias.raw ≠ Name.idColumn := by
  intro h
  cases hmany : l.isToMany with
  | true =>
      rw [Link.isToMany_iff_getLast?, h] at hmany
      exact absurd hmany (by decide)
  | false =>
      rw [l.columnAlias_of_toOne hmany] at h
      exact foreignKeyColumn_ne_idColumn _ h

/-- Related ids have the name of a key only if the relationship has the name that the key has. -/
theorem name_of_columnAlias_eq (h : l.columnAlias.raw = Name.foreignKeyColumn name) :
    l.name = name := by
  cases hmany : l.isToMany with
  | true =>
      rw [Link.isToMany_iff_getLast?, h, foreignKeyColumn_getLast?] at hmany
      exact absurd hmany (by decide)
  | false =>
      rw [l.columnAlias_of_toOne hmany] at h
      exact foreignKeyColumn_injective h

/-- Two relationships have one name for their ids if they have one name, or if both are to-many and
their names are equal in the singular. -/
theorem columnAlias_eq_iff :
    l.columnAlias.raw = l'.columnAlias.raw ↔
      (l.isToMany = false ∧ l'.isToMany = false ∧ l.name = l'.name) ∨
        (l.isToMany = true ∧ l'.isToMany = true ∧
          Name.singular l.name = Name.singular l'.name) := by
  constructor
  · intro h
    have hsame : l.isToMany = l'.isToMany := by
      rw [Bool.eq_iff_iff, Link.isToMany_iff_getLast?, Link.isToMany_iff_getLast?, h]
    cases hmany : l'.isToMany with
    | true =>
        rw [hmany] at hsame
        rw [l.columnAlias_of_toMany hsame, l'.columnAlias_of_toMany hmany] at h
        exact .inr ⟨hsame, rfl, (String.append_left_inj "_ids").mp h⟩
    | false =>
        rw [l'.columnAlias_of_toOne hmany] at h
        exact .inl ⟨hsame.trans hmany, rfl, name_of_columnAlias_eq h⟩
  · rintro (⟨hone, hone', h⟩ | ⟨hmany, hmany', h⟩)
    · rw [l.columnAlias_of_toOne hone, l'.columnAlias_of_toOne hone', h]
    · rw [l.columnAlias_of_toMany hmany, l'.columnAlias_of_toMany hmany', h]

/-! ## What a read returns -/

/-- The names of the columns of the table that a read returns, in the order of the table. -/
def Definition.ownNames (d : Definition) (request : ReadRequest) : List String :=
  Name.idColumn :: (d.resource.attributes.keys.filter request.wants ++
    d.resource.metaFields.keys.map Name.metaColumn ++
    (d.links.filter fun l ↦ request.wants l.name).filterMap fun l ↦
      l.storage.ownColumn?.map Ident.raw)

/-- The names under which a read returns related ids. -/
def Definition.relatedNames (d : Definition) (request : ReadRequest) : List String :=
  (d.wantedLinks request).map fun l ↦ l.columnAlias.raw

/-- The read counts the rows on all pages. -/
def Definition.counts (d : Definition) (request : ReadRequest) : Bool :=
  request.id.isNone && d.resource.pagination.enabled

theorem counts_eq_true_iff :
    d.counts request = true ↔ request.id = none ∧ d.resource.pagination.enabled = true := by
  rw [Definition.counts, Bool.and_eq_true, Option.isNone_iff_eq_none]

theorem nodup_append_ite {names : List String} {b : Bool} :
    (names ++ if b then [name] else []).Nodup ↔ names.Nodup ∧ (b = true → name ∉ names) := by
  cases b with
  | false => simp
  | true => simp [List.nodup_append']

theorem outputs_of_prepareRead (h : d.prepareRead request filter = .ok p) :
    ∃ c, p.command = .read c ∧ c.outputs =
      d.baseOutputs request ++ (d.wantedLinks request).map Link.output ++
        if d.counts request then [.totalCount] else [] := by
  obtain ⟨-, -, h⟩ := bind_eq_ok_iff.mp h
  dsimp only at h
  rw [Definition.counts]
  split at h
  · next id hid =>
    obtain rfl := pure_eq_ok_iff.mp h
    rw [hid]
    exact ⟨_, rfl, (List.append_nil _).symm⟩
  · next hid =>
    rw [hid]
    split at h
    · next hpaged =>
      obtain rfl := pure_eq_ok_iff.mp h
      rw [hpaged]
      exact ⟨_, rfl, rfl⟩
    · next hpaged =>
      obtain rfl := pure_eq_ok_iff.mp h
      rw [Bool.eq_false_iff.mpr hpaged]
      exact ⟨_, rfl, (List.append_nil _).symm⟩

theorem names_column {α : Type} (column : α → Ident) (as : List α) :
    (as.map fun a ↦ Output.column (column a)).flatMap (Output.names t) =
      as.map fun a ↦ (column a).raw := by
  rw [List.flatMap_map, List.map_eq_flatMap]
  rfl

theorem names_column? {α : Type} (column? : α → Option Ident) (as : List α) :
    (as.filterMap fun a ↦ (column? a).map Output.column).flatMap (Output.names t) =
      as.filterMap fun a ↦ (column? a).map Ident.raw := by
  rw [← List.map_filterMap, names_column, List.map_filterMap]

theorem mem_ownNames_iff :
    name ∈ d.ownNames request ↔ name = Name.idColumn ∨
      (d.resource.attributes.contains name = true ∧ request.wants name = true) ∨
      (∃ key, d.resource.metaFields.contains key = true ∧ Name.metaColumn key = name) ∨
      ∃ l ∈ d.links, request.wants l.name = true ∧
        l.storage.ownColumn?.map Ident.raw = some name := by
  simp only [Definition.ownNames, List.mem_cons, List.mem_append, List.mem_filter, List.mem_map,
    List.mem_filterMap, SortedMap.contains_iff, or_assoc, and_assoc]

theorem mem_relatedNames_iff :
    name ∈ d.relatedNames request ↔ ∃ l ∈ d.wantedLinks request, l.columnAlias.raw = name :=
  List.mem_map

section Define

variable (defined : r.define rs = .ok d) (made : d.toTable = .ok t)
include defined made

/-- A read of all fields returns all columns of the table. -/
theorem ownNames_eq_columnNames
    (hattributes : ∀ key ∈ d.resource.attributes.keys, request.wants key = true)
    (hlinks : ∀ l ∈ d.links, request.wants l.name = true) : d.ownNames request = t.columnNames := by
  obtain rfl := resource_of_define defined
  rw [columnNames_of_toTable defined made, Definition.ownNames,
    List.filter_eq_self.mpr hattributes, List.filter_eq_self.mpr hlinks]
  rfl

/-- All columns of the table, or those that are asked for with the meta fields in front. -/
theorem names_baseOutputs :
    ((d.baseOutputs request).flatMap (Output.names t)).Perm (d.ownNames request) := by
  unfold Definition.baseOutputs
  split
  · next hall =>
    have hwants := wants_of_all (Option.isNone_iff_eq_none.mp hall)
    rw [List.flatMap_singleton, Output.names, ownNames_eq_columnNames defined made
      (fun key _ ↦ hwants key) fun l _ ↦ hwants l.name]
  · have hmeta : d.metaFields.map (fun f ↦ f.column.raw) =
        d.resource.metaFields.keys.map Name.metaColumn := by
      simp only [Definition.metaFields, SortedMap.keys, List.map_map]
      rfl
    have hattributes : (d.attributes.filter fun f ↦ request.wants f.key).map
        (fun f ↦ f.column.raw) = d.resource.attributes.keys.filter request.wants := by
      simp only [Definition.attributes, SortedMap.keys, List.filter_map, List.map_map]
      rfl
    simp only [List.cons_append, List.flatMap_cons, List.flatMap_append, names_column,
      names_column?, hmeta, hattributes]
    exact (List.perm_append_comm.append_right _).cons _

/-- The columns that are asked for are columns of the table. -/
theorem ownNames_sublist : (d.ownNames request).Sublist t.columnNames := by
  rw [columnNames_of_toTable defined made]
  obtain rfl := resource_of_define defined
  have hattributes : (d.resource.attributes.keys.filter request.wants).Sublist
      d.resource.attributes.keys := List.filter_sublist
  have hlinks : (d.links.filter fun l ↦ request.wants l.name).Sublist d.links :=
    List.filter_sublist
  exact ((hattributes.append (.refl _)).append (hlinks.filterMap _)).cons_cons _

omit made in
/-- The names for related ids are distinct exactly if those of to-many relationships are. -/
theorem relatedNames_nodup_iff :
    (d.relatedNames request).Nodup ↔
      ∀ l ∈ d.wantedLinks request, ∀ l' ∈ d.wantedLinks request, l.isToMany = true →
        l'.isToMany = true → Name.singular l.name = Name.singular l'.name → l = l' := by
  have hlinks : d.links.Nodup := List.Nodup.of_map _ (link_names_nodup defined)
  have hwanted : (d.wantedLinks request).Nodup := (hlinks.filter _).filter _
  rw [Definition.relatedNames, List.nodup_map_iff_inj_on hwanted]
  constructor
  · intro hinj l hl l' hl' hmany hmany' hname
    exact hinj l hl l' hl' (columnAlias_eq_iff.mpr (.inr ⟨hmany, hmany', hname⟩))
  · intro hrelated l hl l' hl' halias
    rcases columnAlias_eq_iff.mp halias with ⟨-, -, hname⟩ | ⟨hmany, hmany', hname⟩
    · exact List.inj_on_of_nodup_map (link_names_nodup defined)
        (mem_wantedLinks_iff.mp hl).1 (mem_wantedLinks_iff.mp hl').1 hname
    · exact hrelated l hl l' hl' hmany hmany' hname

omit made in
/-- Related ids can have the name of an attribute or a meta field, but not that of the id or of a
key. -/
theorem columnAlias_mem_ownNames_iff (hl : l ∈ d.wantedLinks request) :
    l.columnAlias.raw ∈ d.ownNames request ↔
      (d.resource.attributes.contains l.columnAlias.raw = true ∧
        request.wants l.columnAlias.raw = true) ∨
      ∃ key, d.resource.metaFields.contains key = true ∧
        Name.metaColumn key = l.columnAlias.raw := by
  rw [mem_ownNames_iff]
  constructor
  · rintro (hid | hattribute | hmeta | ⟨l', hl', -, hcolumn⟩)
    · exact absurd hid (columnAlias_ne_idColumn l)
    · exact .inl hattribute
    · exact .inr hmeta
    · -- the key of `l'` has its name, but `l` has no key in this table
      obtain ⟨column, hown, hname⟩ := Option.map_eq_some_iff.mp hcolumn
      obtain ⟨rfl, -⟩ := ownColumn?_eq_some defined hl' hown
      obtain ⟨hl, hvirtual, -⟩ := mem_wantedLinks_iff.mp hl
      obtain rfl : l = l' := List.inj_on_of_nodup_map (link_names_nodup defined) hl hl'
        (name_of_columnAlias_eq hname.symm)
      rw [Link.isVirtual, ownColumn?_eq_some_iff.mp hown] at hvirtual
      cases hvirtual
  · rintro (hattribute | hmeta)
    · exact .inr (.inl hattribute)
    · exact .inr (.inr (.inl hmeta))

omit made in
/-- Only a meta field can have the name of the number of rows. -/
theorem totalCount_mem_iff (hr : r.WellKeyed) :
    totalCountColumn.raw ∈ d.ownNames request ++ d.relatedNames request ↔
      d.resource.metaFields.contains "total_count" = true := by
  obtain rfl := resource_of_define defined
  have hlast : totalCountColumn.raw.toList.getLast? = some 't' := by decide
  rw [List.mem_append, mem_ownNames_iff, mem_relatedNames_iff]
  constructor
  · rintro ((hid | ⟨hattribute, -⟩ | ⟨key, hmeta, hname⟩ | ⟨l, hl, -, hcolumn⟩) | ⟨l, -, halias⟩)
    · exact absurd hid.symm (metaColumn_ne_idColumn _).symm
    · obtain ⟨a, ha⟩ := SortedMap.contains_eq_true_iff.mp hattribute
      exact absurd rfl ((hr.attributes _ a ha).1.ne_metaColumn "total_count")
    · exact metaColumn_injective hname ▸ hmeta
    · obtain ⟨column, hown, hname⟩ := Option.map_eq_some_iff.mp hcolumn
      obtain ⟨rfl, -⟩ := ownColumn?_eq_some defined hl hown
      rw [← hname, foreignKeyColumn_getLast?] at hlast
      exact absurd hlast (by decide)
    · rw [← halias, l.columnAlias_getLast?] at hlast
      split at hlast
      · exact absurd hlast (by decide)
      · exact absurd hlast (by decide)
  · exact fun hmeta ↦ .inl (.inr (.inr (.inl ⟨_, hmeta, rfl⟩)))

/-- The names in a read are distinct exactly if what could meet is apart. -/
theorem outputNames_nodup_iff (hr : r.WellKeyed) (houtputs : c.outputs =
      d.baseOutputs request ++ (d.wantedLinks request).map Link.output ++
        if d.counts request then [.totalCount] else []) :
    (c.outputNames t).Nodup ↔ d.OutputsApart request := by
  have hrelated : ((d.wantedLinks request).map Link.output).flatMap (Output.names t) =
      d.relatedNames request := by
    rw [List.flatMap_map, Definition.relatedNames, List.map_eq_flatMap]
    rfl
  have hown : (d.ownNames request).Nodup :=
    (columnNames_nodup defined hr made).sublist (ownNames_sublist defined made)
  have hperm : (c.outputNames t).Perm (d.ownNames request ++ d.relatedNames request ++
      if d.counts request then [totalCountColumn.raw] else []) := by
    rw [ReadCommand.outputNames, houtputs, List.flatMap_append, List.flatMap_append, hrelated]
    refine ((names_baseOutputs defined made).append_right _).append ?_
    cases d.counts request <;> exact .refl _
  rw [hperm.nodup_iff, nodup_append_ite, List.nodup_append', and_iff_right hown,
    relatedNames_nodup_iff defined, totalCount_mem_iff defined hr, List.disjoint_right,
    Bool.not_eq_true, counts_eq_true_iff]
  constructor
  · rintro ⟨⟨hmany, hapart⟩, htotal⟩
    have hapart (l) (hl : l ∈ d.wantedLinks request) :=
      (columnAlias_mem_ownNames_iff defined hl).not.mp (hapart (List.mem_map_of_mem hl))
    refine ⟨hmany, fun l hl hattribute ↦ ?_, fun l hl key hmeta hname ↦ ?_,
      fun hlist hpaged ↦ htotal ⟨hlist, hpaged⟩⟩
    · exact Bool.eq_false_iff.mpr fun hwants ↦ hapart l hl (.inl ⟨hattribute, hwants⟩)
    · exact hapart l hl (.inr ⟨key, hmeta, hname.symm⟩)
  · rintro ⟨hmany, hattributes, hmeta, htotal⟩
    refine ⟨⟨hmany, fun name hname hmem ↦ ?_⟩, fun ⟨hlist, hpaged⟩ ↦ htotal hlist hpaged⟩
    obtain ⟨l, hl, rfl⟩ := mem_relatedNames_iff.mp hname
    rcases (columnAlias_mem_ownNames_iff defined hl).mp hmem with
      ⟨hattribute, hwants⟩ | ⟨key, hkey, hname⟩
    · exact nomatch hwants.symm.trans (hattributes l hl hattribute)
    · exact hmeta l hl key hkey hname.symm

end Define

/-- **When a read returns no two columns of one name.**  The names of to-many relationships have to
differ in the singular, the names for related ids have to be free, and the number of rows may not
have the name of a meta field.  Nothing checks this before the statement is compiled. -/
theorem read_names_nodup_iff (accepted : resourcesOf ds = .ok rs)
    (built : DefinitionSet.build rs = .ok s) (migrated : s.migration = .ok m)
    {compiler : QueryCompiler} (hset : compiler.definitions = s) {statement : Statement}
    (compiled : compiler.compile (.read name request) = .ok statement) :
    ∃ d t p c, s.get? name = some d ∧ m.table? d.table = some t ∧
      compiler.prepare (.read name request) = .ok p ∧ statement = p.statement ∧
      p.command = .read c ∧ ((c.outputNames t).Nodup ↔ d.OutputsApart request) := by
  obtain ⟨parts, layout⟩ := migration_eq_ok_iff.mp migrated
  obtain ⟨p, hp, rfl⟩ := compile_eq_ok_iff.mp compiled
  obtain ⟨operation, haccept, hprepare⟩ := bind_eq_ok_iff.mp hp
  rw [hset] at haccept
  cases acceptedAs_of_accept haccept with
  | read found allowed =>
      rename_i d
      obtain ⟨hd, -⟩ := mem_of_get? found
      obtain ⟨hmem, hdefine⟩ := define_of_mem built hd
      obtain ⟨t, ht, htable⟩ := exists_table? layout (accepted_distinct accepted) built hd
      obtain ⟨c, hc, houtputs⟩ := outputs_of_prepareRead hprepare
      exact ⟨d, t, p, c, found, ht, hp, rfl, hc,
        outputNames_nodup_iff hdefine htable (accepted_wellKeyed accepted hmem) houtputs⟩

theorem read_names_nodup_household :
    ∃ rs s m statement, resourcesOf household = .ok rs ∧ DefinitionSet.build rs = .ok s ∧
      s.migration = .ok m ∧ (⟨s, none⟩ : QueryCompiler).compile catsOfPersons = .ok statement ∧
      ∃ d t p c, s.get? "person" = some d ∧ m.table? d.table = some t ∧
        (⟨s, none⟩ : QueryCompiler).prepare catsOfPersons = .ok p ∧ statement = p.statement ∧
        p.command = .read c ∧ (c.outputNames t).Nodup ∧ d.OutputsApart {} := by
  have hsome : ((resourcesOf household).toOption.any fun rs ↦
      (DefinitionSet.build rs).toOption.any fun s ↦ s.migration.toOption.any fun m ↦
        ((⟨s, none⟩ : QueryCompiler).prepare catsOfPersons).toOption.any fun p ↦
          p.command.read?.any fun c ↦ (s.get? "person").any fun d ↦ (m.table? d.table).any fun t ↦
            decide (c.outputNames t).Nodup) = true := by
    decide +kernel
  simp only [Option.any_eq_true, toOption_eq_some_iff, read?_eq_some_iff,
    decide_eq_true_iff] at hsome
  obtain ⟨rs, accepted, s, built, m, migrated, p, hp, c, hc, d, hd, t, ht, hnodup⟩ := hsome
  have compiled : (⟨s, none⟩ : QueryCompiler).compile catsOfPersons = .ok p.statement :=
    compile_eq_ok_iff.mpr ⟨p, hp, rfl⟩
  obtain ⟨d', t', p', c', hd', ht', hp', -, hc', hiff⟩ :=
    read_names_nodup_iff accepted built migrated rfl compiled
  obtain rfl := Option.some.inj (hd.symm.trans hd')
  obtain rfl := Option.some.inj (ht.symm.trans ht')
  obtain rfl := Except.ok.inj (hp.symm.trans hp')
  obtain rfl := Command.read.inj (hc.symm.trans hc')
  exact ⟨rs, s, m, _, accepted, built, migrated, compiled, d, t, p, c, hd, ht, hp, rfl, hc, hnodup,
    hiff.mp hnodup⟩

/-- A person with an attribute called `cat_id`, and a cat whose owner is a person. -/
def keepers : List Description :=
  [(Description.named "person").withAttribute "cat_id" "text",
   (Description.named "cat").withRelationship "owner" (.between "person" .oneToOne true)]

/-- The cat of a person is returned under the name of the attribute. -/
theorem read_names_clash_keepers :
    ∃ rs s m statement, resourcesOf keepers = .ok rs ∧ DefinitionSet.build rs = .ok s ∧
      s.migration = .ok m ∧
      (⟨s, none⟩ : QueryCompiler).compile (.read "person" {}) = .ok statement ∧
      ∃ d t p c, s.get? "person" = some d ∧ m.table? d.table = some t ∧
        (⟨s, none⟩ : QueryCompiler).prepare (.read "person" {}) = .ok p ∧
        statement = p.statement ∧ p.command = .read c ∧ ¬ (c.outputNames t).Nodup := by
  have hsome : ((resourcesOf keepers).toOption.any fun rs ↦
      (DefinitionSet.build rs).toOption.any fun s ↦ s.migration.toOption.any fun m ↦
        ((⟨s, none⟩ : QueryCompiler).prepare (.read "person" {})).toOption.any fun p ↦
          p.command.read?.any fun c ↦ (s.get? "person").any fun d ↦ (m.table? d.table).any fun t ↦
            !decide (c.outputNames t).Nodup) = true := by
    decide +kernel
  simp only [Option.any_eq_true, toOption_eq_some_iff, read?_eq_some_iff, Bool.not_eq_true',
    decide_eq_false_iff_not] at hsome
  obtain ⟨rs, accepted, s, built, m, migrated, p, hp, c, hc, d, hd, t, ht, hclash⟩ := hsome
  exact ⟨rs, s, m, _, accepted, built, migrated, compile_eq_ok_iff.mpr ⟨p, hp, rfl⟩, d, t, p, c, hd,
    ht, hp, rfl, hc, hclash⟩

end ResourceSchema
