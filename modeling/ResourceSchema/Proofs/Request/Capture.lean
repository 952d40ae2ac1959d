import ResourceSchema.Proofs.Request.Uniqueness

/-!
# Names in a `WITH` clause

A name in a `WITH` clause hides the table of the same name.  The names in one clause are distinct,
since each is that of a relationship with a suffix.  Nothing reserves the suffix, though: a resource
may be called like a virtual table, and then a read of it can find the virtual table in its place.
-/

namespace ResourceSchema

open Sql

variable {ds : List Description} {rs : List Resource} {r : Resource} {s : DefinitionSet}
variable {m : Migration} {d : Definition} {l : Link} {request : ReadRequest} {c : ReadCommand}

/-- A virtual table of the read has the name of a table that is read. -/
def ReadCommand.Captures (c : ReadCommand) : Prop :=
  ∃ v ∈ c.virtualTables, v.name ∈ (Command.read c).tables

instance (c : ReadCommand) : Decidable c.Captures :=
  inferInstanceAs (Decidable (∃ v ∈ c.virtualTables, v.name ∈ (Command.read c).tables))

/-- The table from which the ids related to the rows of a resource are read, if it is not the table
of the resource itself. -/
def Link.readFrom (l : Link) (resource : String) : String :=
  if l.relationship.cardinality = .manyToMany then
    if l.relationship.host then Name.associativeTable resource l.related
    else Name.associativeTable l.related resource
  else l.related

/-- The tables that a read takes rows from. -/
def Definition.readTables (d : Definition) (request : ReadRequest) : List String :=
  d.name :: (d.wantedLinks request).map (Link.readFrom · d.name)

section Define

variable (defined : r.define rs = .ok d)
include defined

/-- What a relationship is read from has its name by the cardinality and the side alone. -/
theorem source_of_virtualTable? (hl : l ∈ d.links) {row : Option Placeholder} {v : VirtualTable}
    (hv : Definition.virtualTable? row l = some v) : v.source = ⟨l.readFrom d.name⟩ := by
  obtain ⟨target, hleads⟩ := exists_leadsTo defined hl
  obtain rfl := resource_of_define defined
  obtain ⟨source, hsource, rfl⟩ := Option.map_eq_some_iff.mp hv
  have hst := hleads.storage
  rw [Link.readFrom, ← hleads.target_name]
  by_cases hmany : l.relationship.cardinality = .manyToMany
  · rw [if_pos hmany]
    cases hhost : l.relationship.host with
    | true =>
        rw [Relationship.storage_host_manyToMany hhost hmany] at hst
        rw [← Except.ok.inj hst] at hsource
        obtain rfl := Option.some.inj hsource
        rfl
    | false =>
        obtain ⟨_, -, hst⟩ :=
          (Relationship.storage_guest_manyToMany_eq_ok_iff hhost hmany).mp hst
        rw [hst] at hsource
        obtain rfl := Option.some.inj hsource
        rfl
  · rw [if_neg hmany]
    cases hhost : l.relationship.host with
    | true =>
        rw [Relationship.storage_host hhost hmany] at hst
        rw [← Except.ok.inj hst] at hsource
        cases hsource
    | false =>
        obtain ⟨_, -, hst⟩ := (Relationship.storage_guest_eq_ok_iff hhost hmany).mp hst
        rw [hst] at hsource
        obtain rfl := Option.some.inj hsource
        rfl

theorem tables_of_reads (hreads : c.Reads d request) :
    (Command.read c).tables = (d.readTables request).map Ident.mk := by
  have hsources : c.virtualTables.map VirtualTable.source =
      (d.wantedLinks request).map fun l ↦ ⟨l.readFrom d.name⟩ := by
    refine map_virtualTables hreads fun l hl ↦ ?_
    obtain ⟨v, hv⟩ := exists_virtualTable? hl c.row
    rw [hv, Option.map_some,
      source_of_virtualTable? defined (mem_wantedLinks_iff.mp hl).1 hv]
  rw [Command.tables, hreads.table, hsources, Definition.readTables, List.map_cons, List.map_map]
  rfl

/-- A virtual table has the name of a table exactly if a relationship has it, apart from the
suffix. -/
theorem captures_iff (hreads : c.Reads d request) :
    c.Captures ↔
      ∃ l ∈ d.wantedLinks request, Name.virtualTable l.name ∈ d.readTables request := by
  have hraw (l : Link) : l.virtualTable ∈ (Command.read c).tables ↔
      Name.virtualTable l.name ∈ d.readTables request := by
    rw [tables_of_reads defined hreads]
    exact List.mem_map_of_injective fun _ _ ↦ Ident.mk.inj
  have hnames (name : Ident) : name ∈ c.virtualTables.map VirtualTable.name ↔
      name ∈ (d.wantedLinks request).map Link.virtualTable := by
    rw [map_name_virtualTables hreads]
  simp only [List.mem_map] at hnames
  constructor
  · rintro ⟨v, hv, htable⟩
    obtain ⟨l, hl, hname⟩ := (hnames v.name).mp ⟨v, hv, rfl⟩
    exact ⟨l, hl, (hraw l).mp (hname ▸ htable)⟩
  · rintro ⟨l, hl, htable⟩
    obtain ⟨v, hv, hname⟩ := (hnames l.virtualTable).mpr ⟨l, hl, rfl⟩
    exact ⟨v, hv, hname ▸ (hraw l).mpr htable⟩

end Define

/-- **What a `WITH` clause hides.**  The names in the clause of a read are distinct.  One of them is
that of a table that is read exactly if the resource, or a table from which one of its relationships
is read, is called like another relationship with the suffix of virtual tables; the migration then
creates a table of that name. -/
theorem with_names_nodup_and_captures_iff (accepted : resourcesOf ds = .ok rs)
    (built : DefinitionSet.build rs = .ok s) (migrated : s.migration = .ok m)
    {compiler : QueryCompiler} (hset : compiler.definitions = s) {request : Request}
    {statement : Statement} (compiled : compiler.compile request = .ok statement) :
    ∃ p, compiler.prepare request = .ok p ∧ statement = p.statement ∧
      ∀ c, p.command = .read c → (c.virtualTables.map VirtualTable.name).Nodup ∧
        ∃ name d asked, s.get? name = some d ∧ c.Reads d asked ∧
          (c.Captures ↔
            ∃ l ∈ d.wantedLinks asked, Name.virtualTable l.name ∈ d.readTables asked) ∧
          (c.Captures → ∃ l ∈ d.wantedLinks asked, ∃ t ∈ m.tables, t.name = l.virtualTable) := by
  obtain ⟨parts, layout⟩ := migration_eq_ok_iff.mp migrated
  obtain ⟨p, hp, rfl⟩ := compile_eq_ok_iff.mp compiled
  refine ⟨p, hp, rfl, fun c hc ↦ ?_⟩
  obtain ⟨name, d, asked, _, hget, hread⟩ := exists_prepareRead hset hp hc
  obtain ⟨c', hc', hreads, -⟩ := prepareRead_reads hread
  obtain rfl := Command.read.inj (hc.symm.trans hc')
  obtain ⟨hd, -⟩ := mem_of_get? hget
  have defined := (define_of_mem built hd).2
  refine ⟨virtualTable_names_nodup defined hreads, name, d, asked, hget, hreads,
    captures_iff defined hreads, ?_⟩
  rintro ⟨v, hv, htable⟩
  obtain ⟨t, ht⟩ := (read_fits layout (accepted_distinct accepted) built hd hreads).table _ htable
  obtain ⟨htables, hname⟩ := (table?_eq_some_iff layout).mp ht
  obtain ⟨l, hl, hvirtual⟩ := List.mem_map.mp
    (map_name_virtualTables hreads ▸ List.mem_map_of_mem hv)
  exact ⟨l, hl, t, htables, hname.trans hvirtual.symm⟩

/-- A read of persons with their cats hides no table. -/
theorem with_names_nodup_and_captures_iff_household :
    ∃ rs s m statement, resourcesOf household = .ok rs ∧ DefinitionSet.build rs = .ok s ∧
      s.migration = .ok m ∧ (⟨s, none⟩ : QueryCompiler).compile catsOfPersons = .ok statement ∧
      ∃ p : Prepared, statement = p.statement ∧ ∃ c, p.command = .read c ∧ c.virtualTables ≠ [] ∧
        (c.virtualTables.map VirtualTable.name).Nodup ∧ ¬ c.Captures ∧
        ∃ d asked, c.Reads d asked ∧
          ¬ ∃ l ∈ d.wantedLinks asked, Name.virtualTable l.name ∈ d.readTables asked := by
  have hsome : ((resourcesOf household).toOption.any fun rs ↦
      (DefinitionSet.build rs).toOption.any fun s ↦ s.migration.toOption.any fun _ ↦
        ((⟨s, none⟩ : QueryCompiler).prepare catsOfPersons).toOption.any fun p ↦
          p.command.read?.any fun c ↦
            decide (c.virtualTables ≠ []) && !decide c.Captures) = true := by
    decide +kernel
  simp only [Option.any_eq_true, toOption_eq_some_iff, read?_eq_some_iff, Bool.and_eq_true,
    Bool.not_eq_true', decide_eq_true_iff, decide_eq_false_iff_not] at hsome
  obtain ⟨rs, accepted, s, built, m, migrated, p, hp, c, hc, hvirtual, hfree⟩ := hsome
  have compiled : (⟨s, none⟩ : QueryCompiler).compile catsOfPersons = .ok p.statement :=
    compile_eq_ok_iff.mpr ⟨p, hp, rfl⟩
  obtain ⟨p', hp', -, hread⟩ :=
    with_names_nodup_and_captures_iff accepted built migrated rfl compiled
  obtain rfl := Except.ok.inj (hp.symm.trans hp')
  obtain ⟨hnodup, name, d, asked, -, hreads, hiff, -⟩ := hread c hc
  exact ⟨rs, s, m, _, accepted, built, migrated, compiled, p, rfl, c, hc, hvirtual, hnodup, hfree,
    d, asked, hreads, hiff.not.mp hfree⟩

/-- Cats are owned by a resource that is called like the virtual table of its own cats. -/
def namesakes : List Description :=
  [(Description.named "cat").withRelationship "owner"
    (.between "cats_virtual_host" .manyToOne true),
   Description.named "cats_virtual_host"]

/-- A read of the owners finds the virtual table of their cats instead. -/
theorem with_name_captures_namesakes :
    ∃ rs s m statement, resourcesOf namesakes = .ok rs ∧ DefinitionSet.build rs = .ok s ∧
      s.migration = .ok m ∧
      (⟨s, none⟩ : QueryCompiler).compile (.read "cats_virtual_host" {}) = .ok statement ∧
      ∃ p : Prepared, statement = p.statement ∧ ∃ c, p.command = .read c ∧
        c.table ∈ c.virtualTables.map VirtualTable.name ∧ c.Captures := by
  have hsome : ((resourcesOf namesakes).toOption.any fun rs ↦
      (DefinitionSet.build rs).toOption.any fun s ↦ s.migration.toOption.any fun _ ↦
        ((⟨s, none⟩ : QueryCompiler).prepare (.read "cats_virtual_host" {})).toOption.any fun p ↦
          p.command.read?.any fun c ↦
            decide (c.table ∈ c.virtualTables.map VirtualTable.name) &&
              decide c.Captures) = true := by
    decide +kernel
  simp only [Option.any_eq_true, toOption_eq_some_iff, read?_eq_some_iff, Bool.and_eq_true,
    decide_eq_true_iff] at hsome
  obtain ⟨rs, accepted, s, built, m, migrated, p, hp, c, hc, htable, hcaptures⟩ := hsome
  exact ⟨rs, s, m, _, accepted, built, migrated, compile_eq_ok_iff.mpr ⟨p, hp, rfl⟩, p, rfl, c, hc,
    htable, hcaptures⟩

end ResourceSchema
