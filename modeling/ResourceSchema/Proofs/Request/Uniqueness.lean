import ResourceSchema.Proofs.Request.Agreement

/-!
# When one related id is all there is

The query compiler takes the first of the related ids where the relationship, seen from the
resource that is read, is to-one.  The migration compiler makes a key unique where the relationship,
seen from the resource that stores the key, is one-to-one.  So the first id is the only one, unless
it is the key of a one-to-many relationship, which is stored without that restriction.
-/

namespace ResourceSchema

open Sql

variable {ds : List Description} {rs : List Resource} {s : DefinitionSet} {m : Migration}
variable {d e : Definition} {l h : Link} {t : Table} {parts : List ResourceTable}
variable {request : ReadRequest} {c : ReadCommand} {v : VirtualTable} {table column name : Ident}

/-! ## Unique columns -/

/-- The table refuses equal values in the column: it is unique, or the primary key alone. -/
def Sql.Table.IsUnique (t : Table) (name : Ident) : Prop :=
  (∃ c ∈ t.columns, c.name = name ∧ (c.unique = true ∨ c.primaryKey = true)) ∨
    t.primaryKey = [name]

instance (t : Table) (name : Ident) : Decidable (t.IsUnique name) :=
  inferInstanceAs (Decidable ((∃ c ∈ t.columns, c.name = name ∧ _) ∨ _))

/-- The column `key` of the table is the key of a one-to-many relationship of the resource. -/
def DefinitionSet.StoresMany (s : DefinitionSet) (table key : Ident) : Prop :=
  ∃ e ∈ s.definitions, e.table = table ∧ ∃ h ∈ e.links,
    h.relationship.host = true ∧ h.relationship.cardinality = .oneToMany ∧
      h.storage = .ownTable key

instance (s : DefinitionSet) (table key : Ident) : Decidable (s.StoresMany table key) :=
  inferInstanceAs (Decidable (∃ e ∈ s.definitions, e.table = table ∧ ∃ h ∈ e.links, _))

/-- The virtual table of which an output has the first id alone. -/
def Output.firstOf? : Output → Option Ident
  | .relatedIds table false _ => some table
  | .allColumns | .column _ | .relatedIds _ true _ | .totalCount => none

/-- The virtual tables of which a read takes the first id alone. -/
def ReadCommand.firstOnly (c : ReadCommand) : List VirtualTable :=
  c.virtualTables.filter fun v ↦ v.name ∈ c.outputs.filterMap Output.firstOf?

theorem firstOf?_eq_some_iff {o : Output} :
    o.firstOf? = some table ↔ ∃ name, o = .relatedIds table false name := by
  cases o with
  | relatedIds virtualTable many name => cases many <;> simp [Output.firstOf?]
  | allColumns | column _ | totalCount => simp [Output.firstOf?]

theorem mem_firstOnly_iff :
    v ∈ c.firstOnly ↔
      v ∈ c.virtualTables ∧ ∃ name, .relatedIds v.name false name ∈ c.outputs := by
  rw [ReadCommand.firstOnly, List.mem_filter, decide_eq_true_iff, List.mem_filterMap]
  simp only [firstOf?_eq_some_iff]
  constructor
  · rintro ⟨hv, _, ho, name, rfl⟩
    exact ⟨hv, name, ho⟩
  · rintro ⟨hv, name, ho⟩
    exact ⟨hv, _, ho, name, rfl⟩

theorem eq_of_column_name (hnodup : t.columnNames.Nodup) {k k' : Column} (hk : k ∈ t.columns)
    (hk' : k' ∈ t.columns) (hname : k.name = k'.name) : k = k' :=
  List.inj_on_of_nodup_map hnodup hk hk' (congrArg Ident.raw hname)

/-- A key that a resource stores is unique exactly if the relationship is one-to-one. -/
theorem isUnique_iff (made : d.toTable = .ok t) (hnodup : t.columnNames.Nodup) (hl : l ∈ d.links)
    (hst : l.storage = .ownTable column) :
    t.IsUnique column ↔ l.relationship.cardinality = .oneToOne := by
  have hkey := toColumn?_eq_some_iff.mpr ⟨column, ownColumn?_eq_some_iff.mpr hst, rfl⟩
  have hmem := (mem_columns_of_toTable made).mpr (.inr (.inr ⟨l, hl, hkey⟩))
  constructor
  · rintro (⟨k, hk, hname, hunique⟩ | hprimary)
    · obtain rfl := eq_of_column_name hnodup hk hmem hname
      simpa using hunique
    · obtain ⟨fields, -, rfl⟩ := toTable_eq_ok_iff.mp made
      cases hprimary
  · intro hone
    exact .inl ⟨_, hmem, rfl, .inl (beq_iff_eq.mpr hone)⟩

/-! ## Virtual tables -/

theorem virtualTable_injective : Function.Injective Name.virtualTable :=
  fun _ _ ↦ (String.append_left_inj "_virtual_host").mp

/-- A read has one virtual table for each relationship that it reads from another table. -/
theorem map_virtualTables (hreads : c.Reads d request) {α : Type} {f : VirtualTable → α}
    {g : Link → α} (hsame : ∀ l ∈ d.wantedLinks request,
      (Definition.virtualTable? c.row l).map f = some (g l)) :
    c.virtualTables.map f = (d.wantedLinks request).map g := by
  rw [hreads.virtualTables, List.map_filterMap, List.filterMap_congr hsame, List.filterMap_eq_map']

theorem map_name_virtualTables (hreads : c.Reads d request) :
    c.virtualTables.map VirtualTable.name = (d.wantedLinks request).map Link.virtualTable := by
  refine map_virtualTables hreads fun l hl ↦ ?_
  obtain ⟨v, hv⟩ := exists_virtualTable? hl c.row
  rw [hv, Option.map_some, name_of_virtualTable? hv]

/-- The virtual tables of a read have distinct names. -/
theorem virtualTable_names_nodup {r : Resource} (defined : r.define rs = .ok d)
    (hreads : c.Reads d request) : (c.virtualTables.map VirtualTable.name).Nodup := by
  have hnames : ((d.wantedLinks request).map Link.name).Nodup :=
    (link_names_nodup defined).sublist ((List.filter_sublist.trans List.filter_sublist).map _)
  have hinjective : Function.Injective fun name ↦ Ident.mk (Name.virtualTable name) :=
    fun _ _ h ↦ virtualTable_injective (Ident.mk.inj h)
  rw [map_name_virtualTables hreads]
  have hmap := hnames.map hinjective
  rwa [List.map_map] at hmap

/-- A command reads one virtual table under each name. -/
theorem virtualTable_unique {r : Resource} (defined : r.define rs = .ok d)
    (hreads : c.Reads d request) {w : VirtualTable} (hv : v ∈ c.virtualTables)
    (hw : w ∈ c.virtualTables) (hname : w.name = v.name) : w = v :=
  List.inj_on_of_nodup_map (virtualTable_names_nodup defined hreads) hw hv hname

/-! ## Where the first id is taken from -/

section Layout

variable (layout : m.Layout s parts)
include layout

theorem columnNames_of_layout (ht : t ∈ m.tables) : t.columnNames.Nodup := by
  rw [tables_of_layout layout] at ht
  exact layout.creatable.columns t ht

variable (distinct : (rs.map Resource.name).Nodup) (built : DefinitionSet.build rs = .ok s)
include distinct built

/-- A key is unique, unless it is that of a one-to-many relationship. -/
theorem isUnique_iff_not_storesMany (he : e ∈ s.definitions) (hh : h ∈ e.links)
    (hhost : h.relationship.host = true) (hst : h.storage = .ownTable column)
    (hcardinality : h.relationship.cardinality = .oneToOne ∨
      h.relationship.cardinality = .oneToMany) :
    ∃ t, m.table? e.table = some t ∧ (t.IsUnique column ↔ ¬ s.StoresMany e.table column) := by
  obtain ⟨t, ht, htable⟩ := exists_table? layout distinct built he
  have hnodup := columnNames_of_layout layout ((table?_eq_some_iff layout).mp ht).1
  refine ⟨t, ht, fun hunique ↦ ?_, fun hfew ↦ ?_⟩
  · rintro ⟨e', he', hname, h', hh', -, hmany, hst'⟩
    have hnames := map_name_definitions built ▸ distinct
    obtain rfl : e' = e := List.inj_on_of_nodup_map hnames he' he (Ident.mk.inj hname)
    have hone := (isUnique_iff htable hnodup hh' hst').mp hunique
    exact nomatch hmany.symm.trans hone
  · rcases hcardinality with hone | hmany
    · exact (isUnique_iff htable hnodup hh hst).mpr hone
    · exact absurd ⟨e, he, rfl, h, hh, hhost, hmany, hst⟩ hfew

/-- A to-one relationship that is read through a virtual table is a guest, so the table groups by
the key that its host stores. -/
theorem key_of_toOne (hd : d ∈ s.definitions) (hl : l ∈ d.links) (hone : l.isToMany = false)
    {row : Option Placeholder} (hv : Definition.virtualTable? row l = some v) :
    ∃ t, m.table? v.source = some t ∧ (t.IsUnique v.key ↔ ¬ s.StoresMany v.source v.key) := by
  obtain ⟨source, hsource, rfl⟩ := Option.map_eq_some_iff.mp hv
  have hmany : l.relationship.cardinality ≠ .manyToMany := by
    intro hmany
    rw [Link.isToMany, hmany] at hone
    cases hone
  cases hhost : l.relationship.host with
  | true =>
      obtain ⟨-, hdefine⟩ := define_of_mem built hd
      obtain ⟨target, hleads⟩ := exists_leadsTo hdefine hl
      have hst := hleads.storage
      rw [Relationship.storage_host hhost hmany] at hst
      rw [← Except.ok.inj hst] at hsource
      cases hsource
  | false =>
      obtain ⟨e, he, hname, h, hh, hends⟩ := exists_isGuestOf distinct built hd hl hhost
      obtain ⟨key, hhst, hst⟩ := hends.column hmany
      rw [hst] at hsource
      obtain rfl := Option.some.inj hsource
      refine isUnique_iff_not_storesMany layout distinct built he hh hends.host hhst ?_
      rw [hends.cardinality]
      revert hone
      rw [Link.isToMany]
      cases l.relationship.cardinality <;> decide

end Layout

/-- **The first related id is the only one.**  Where a read takes the first of the ids that a
virtual table collects, the migration makes the key that they are grouped by unique, unless it is
the key of a one-to-many relationship. -/
theorem first_related_unique (accepted : resourcesOf ds = .ok rs)
    (built : DefinitionSet.build rs = .ok s) (migrated : s.migration = .ok m)
    {compiler : QueryCompiler} (hset : compiler.definitions = s) {request : Request}
    {statement : Statement} (compiled : compiler.compile request = .ok statement) :
    ∃ p, compiler.prepare request = .ok p ∧ statement = p.statement ∧
      ∀ c, p.command = .read c → ∀ v ∈ c.firstOnly, ∃ t, m.table? v.source = some t ∧
        (t.IsUnique v.key ↔ ¬ s.StoresMany v.source v.key) := by
  obtain ⟨parts, layout⟩ := migration_eq_ok_iff.mp migrated
  obtain ⟨p, hp, rfl⟩ := compile_eq_ok_iff.mp compiled
  refine ⟨p, hp, rfl, fun c hc v hv ↦ ?_⟩
  obtain ⟨_, d, asked, _, hget, hread⟩ := exists_prepareRead hset hp hc
  obtain ⟨c', hc', hreads, -⟩ := prepareRead_reads hread
  obtain rfl := Command.read.inj (hc.symm.trans hc')
  obtain ⟨hd, -⟩ := mem_of_get? hget
  obtain ⟨hv, name, ho⟩ := mem_firstOnly_iff.mp hv
  obtain ⟨l, hl, houtput, w, hw, hname, hvirtual⟩ := exists_link_of_relatedIds hreads ho
  obtain rfl := virtualTable_unique (define_of_mem built hd).2 hreads hv hw hname
  obtain ⟨-, hone, -⟩ := Output.relatedIds.inj houtput
  exact key_of_toOne layout (accepted_distinct accepted) built hd hl hone hvirtual

/-- Teams with a lead who may lead several teams, and persons with a passport each. -/
def club : List Description :=
  [(Description.named "team").withRelationship "lead" (.between "person" .oneToMany true),
   (Description.named "person").withRelationship "passport" (.between "passport" .oneToOne true),
   Description.named "passport"]

/-- A passport has one holder: the key of persons to passports is unique. -/
theorem first_related_unique_club :
    ∃ rs s m statement, resourcesOf club = .ok rs ∧ DefinitionSet.build rs = .ok s ∧
      s.migration = .ok m ∧
      (⟨s, none⟩ : QueryCompiler).compile (.read "passport" {}) = .ok statement ∧
      ∃ p : Prepared, statement = p.statement ∧ ∃ c, p.command = .read c ∧
        ∃ v ∈ c.firstOnly, ∃ t, m.table? v.source = some t ∧ t.IsUnique v.key := by
  have hsome : ((resourcesOf club).toOption.any fun rs ↦
      (DefinitionSet.build rs).toOption.any fun s ↦ s.migration.toOption.any fun _ ↦
        ((⟨s, none⟩ : QueryCompiler).prepare (.read "passport" {})).toOption.any fun p ↦
          p.command.read?.any fun c ↦ c.firstOnly.any fun v ↦
            !decide (s.StoresMany v.source v.key)) = true := by
    decide +kernel
  simp only [Option.any_eq_true, List.any_eq_true, toOption_eq_some_iff, read?_eq_some_iff,
    Bool.not_eq_true', decide_eq_false_iff_not] at hsome
  obtain ⟨rs, accepted, s, built, m, migrated, p, hp, c, hc, v, hv, hfew⟩ := hsome
  have compiled : (⟨s, none⟩ : QueryCompiler).compile (.read "passport" {}) = .ok p.statement :=
    compile_eq_ok_iff.mpr ⟨p, hp, rfl⟩
  obtain ⟨p', hp', hstatement, hfirst⟩ :=
    first_related_unique accepted built migrated rfl compiled
  obtain rfl := Except.ok.inj (hp.symm.trans hp')
  obtain ⟨t, ht, hunique⟩ := hfirst c hc v hv
  exact ⟨rs, s, m, _, accepted, built, migrated, compiled, p, rfl, c, hc, v, hv, t, ht,
    hunique.mpr hfew⟩

/-- A person may lead several teams, of which a read has the first alone. -/
theorem first_related_not_unique_club :
    ∃ rs s m statement, resourcesOf club = .ok rs ∧ DefinitionSet.build rs = .ok s ∧
      s.migration = .ok m ∧
      (⟨s, none⟩ : QueryCompiler).compile (.read "person" {}) = .ok statement ∧
      ∃ p : Prepared, statement = p.statement ∧ ∃ c, p.command = .read c ∧
        ∃ v ∈ c.firstOnly, ∃ t, m.table? v.source = some t ∧ t.HasColumn v.key ∧
          ¬ t.IsUnique v.key := by
  have hsome : ((resourcesOf club).toOption.any fun rs ↦
      (DefinitionSet.build rs).toOption.any fun s ↦ s.migration.toOption.any fun m ↦
        ((⟨s, none⟩ : QueryCompiler).prepare (.read "person" {})).toOption.any fun p ↦
          p.command.read?.any fun c ↦ c.firstOnly.any fun v ↦ (m.table? v.source).any fun t ↦
            (t.columns.any fun k ↦ k.name == v.key) && !decide (t.IsUnique v.key)) = true := by
    decide +kernel
  simp only [Option.any_eq_true, List.any_eq_true, toOption_eq_some_iff, read?_eq_some_iff,
    Bool.and_eq_true, beq_iff_eq, Bool.not_eq_true', decide_eq_false_iff_not] at hsome
  obtain ⟨rs, accepted, s, built, m, migrated, p, hp, c, hc, v, hv, t, ht, hcolumn, hmany⟩ := hsome
  exact ⟨rs, s, m, _, accepted, built, migrated, compile_eq_ok_iff.mpr ⟨p, hp, rfl⟩, p, rfl, c, hc,
    v, hv, t, ht, hcolumn, hmany⟩

end ResourceSchema
