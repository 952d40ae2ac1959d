import ResourceSchema.Proofs.Iteration
import ResourceSchema.Proofs.Sql.Parameters
import ResourceSchema.Request.Compiler

/-!
# What requests are prepared as

A request that is accepted is about a definition of the set, and the command that it is prepared as
is made of that definition: of its table, of the columns of its fields and keys, and of the tables
that its relationships are read from.
-/

namespace ResourceSchema

open Sql

variable {s : DefinitionSet} {d : Definition} {l : Link} {operation : Operation}
variable {request : ReadRequest} {filter : Option String} {p : Prepared} {column : Ident}
variable {key : String} {values : SortedMap Json}

/-! ## Acceptance -/

/-- The definition that an operation is about. -/
def Operation.definition : Operation → Definition
  | read d _ _ | create d _ | update d _ _ | delete d _ => d

theorem allowing_eq_ok_iff {resource : String} {action : Action} :
    s.allowing resource action = .ok d ↔
      s.get? resource = some d ∧ d.resource.actions.allow action = true := by
  unfold DefinitionSet.allowing
  split
  · next hnone => simp [hnone]
  · next e he =>
    rw [he, Option.some.injEq]
    split
    · next hallow =>
      rw [Except.ok.injEq]
      constructor
      · rintro rfl
        exact ⟨rfl, hallow⟩
      · exact And.left
    · next hrefuse =>
      constructor
      · intro h
        cases h
      · rintro ⟨rfl, hallow⟩
        exact absurd hallow hrefuse

theorem requireId_eq_ok_iff {given : Option Int64} {action : Action} {id : Int64} :
    d.requireId given action = .ok id ↔ given = some id := by
  cases given with
  | none => exact ⟨nofun, nofun⟩
  | some i => rw [Definition.requireId, Except.ok.injEq, Option.some.injEq]

/-- The request is accepted as the operation: its resource is there and allows the action. -/
inductive Request.AcceptedAs (s : DefinitionSet) : Request → Operation → Prop
  | read {name : String} {d : Definition} {request : ReadRequest} (found : s.get? name = some d)
      (allowed : d.resource.actions.allow request.action = true) :
      AcceptedAs s (.read name request) (.read d request request.action)
  | create {name : String} {d : Definition} {w : WriteRequest} (found : s.get? name = some d)
      (allowed : d.resource.actions.allow .create = true) :
      AcceptedAs s (.create name w) (.create d w.values)
  /-- An update without values reads the row. -/
  | reread {name : String} {d : Definition} {w : WriteRequest} {id : Int64}
      (found : s.get? name = some d) (allowed : d.resource.actions.allow .update = true)
      (asked : w.id = some id) (empty : w.values.isEmpty = true) :
      AcceptedAs s (.update name w) (.read d { id := some id } .update)
  | update {name : String} {d : Definition} {w : WriteRequest} {id : Int64}
      (found : s.get? name = some d) (allowed : d.resource.actions.allow .update = true)
      (asked : w.id = some id) (filled : w.values.isEmpty = false) :
      AcceptedAs s (.update name w) (.update d id w.values)
  | delete {name : String} {d : Definition} {id : Int64} (found : s.get? name = some d)
      (allowed : d.resource.actions.allow .delete = true) :
      AcceptedAs s (.delete name (some id)) (.delete d id)

theorem acceptedAs_of_accept {request : Request} (h : request.accept s = .ok operation) :
    request.AcceptedAs s operation := by
  cases request with
  | read resource request =>
      obtain ⟨d, hd, h⟩ := bind_eq_ok_iff.mp h
      obtain ⟨hfound, hallowed⟩ := allowing_eq_ok_iff.mp hd
      obtain rfl := pure_eq_ok_iff.mp h
      exact .read hfound hallowed
  | create resource w =>
      obtain ⟨d, hd, h⟩ := bind_eq_ok_iff.mp h
      obtain ⟨hfound, hallowed⟩ := allowing_eq_ok_iff.mp hd
      obtain rfl := pure_eq_ok_iff.mp h
      exact .create hfound hallowed
  | update resource w =>
      obtain ⟨d, hd, h⟩ := bind_eq_ok_iff.mp h
      obtain ⟨hfound, hallowed⟩ := allowing_eq_ok_iff.mp hd
      obtain ⟨id, hid, h⟩ := bind_eq_ok_iff.mp h
      have hasked := requireId_eq_ok_iff.mp hid
      split at h
      · next hempty =>
        obtain rfl := pure_eq_ok_iff.mp h
        exact .reread hfound hallowed hasked hempty
      · next hfilled =>
        obtain rfl := pure_eq_ok_iff.mp h
        exact .update hfound hallowed hasked (Bool.eq_false_iff.mpr hfilled)
  | delete resource given =>
      obtain ⟨d, hd, h⟩ := bind_eq_ok_iff.mp h
      obtain ⟨hfound, hallowed⟩ := allowing_eq_ok_iff.mp hd
      obtain ⟨id, hid, h⟩ := bind_eq_ok_iff.mp h
      obtain rfl := requireId_eq_ok_iff.mp hid
      obtain rfl := pure_eq_ok_iff.mp h
      exact .delete hfound hallowed

/-- An operation is about the definition of the resource that the request names. -/
theorem exists_get?_of_accept {request : Request} (h : request.accept s = .ok operation) :
    ∃ name, s.get? name = some operation.definition := by
  cases acceptedAs_of_accept h with
  | read found | create found | reread found | update found | delete found => exact ⟨_, found⟩

/-! ## Reads -/

/-- The output column with the related ids of a relationship that is read through a virtual
table. -/
def Link.output (l : Link) : Output := .relatedIds l.virtualTable l.isToMany l.columnAlias

theorem wants_of_all (hall : request.fields = none) (name : String) :
    request.wants name = true := by
  rw [ReadRequest.wants, hall]
  rfl

theorem wants_of_fields {fields : NameSet} (hfields : request.fields = some fields)
    (name : String) : request.wants name = fields.contains name := by
  rw [ReadRequest.wants, hfields]
  rfl

theorem mem_wantedLinks_iff :
    l ∈ d.wantedLinks request ↔
      l ∈ d.links ∧ l.isVirtual = true ∧ request.wants l.name = true := by
  simp only [Definition.wantedLinks, Definition.virtualLinks, List.mem_filter, and_assoc]

/-- What a read returns from the table itself: everything, or columns for the id, for fields and
for keys that are stored there. -/
theorem mem_baseOutputs {o : Output} (ho : o ∈ d.baseOutputs request) :
    o = .allColumns ∨ o = .column idColumn ∨
      (∃ f ∈ d.attributes ++ d.metaFields, o = .column f.column) ∨
      ∃ l ∈ d.links, ∃ column, l.storage.ownColumn? = some column ∧ o = .column column := by
  unfold Definition.baseOutputs at ho
  split at ho
  · exact .inl (List.mem_singleton.mp ho)
  · refine .inr ?_
    rcases List.mem_append.mp ho with ho | ho
    · rcases List.mem_append.mp ho with ho | ho
      · rcases List.mem_cons.mp ho with rfl | ho
        · exact .inl rfl
        · obtain ⟨f, hf, rfl⟩ := List.mem_map.mp ho
          exact .inr (.inl ⟨f, List.mem_append_right _ hf, rfl⟩)
      · obtain ⟨f, hf, rfl⟩ := List.mem_map.mp ho
        exact .inr (.inl ⟨f, List.mem_append_left _ (List.mem_of_mem_filter hf), rfl⟩)
    · obtain ⟨l, hl, hcolumn⟩ := List.mem_filterMap.mp ho
      obtain ⟨column, hown, rfl⟩ := Option.map_eq_some_iff.mp hcolumn
      exact .inr (.inr ⟨l, List.mem_of_mem_filter hl, column, hown, rfl⟩)

/-- The command reads the definition `d` as the request asks for. -/
structure ReadCommand.Reads (c : ReadCommand) (d : Definition) (request : ReadRequest) : Prop where
  table : c.table = d.table
  virtualTables :
    c.virtualTables = (d.wantedLinks request).filterMap (Definition.virtualTable? c.row)
  outputs : ∃ counts, c.outputs =
    d.baseOutputs request ++ (d.wantedLinks request).map Link.output ++ counts ∧
      ∀ o ∈ counts, o = .totalCount

theorem row_of_virtualTable? {row : Option Placeholder} {v : VirtualTable}
    (h : Definition.virtualTable? row l = some v) : v.row = row := by
  obtain ⟨source, -, rfl⟩ := Option.map_eq_some_iff.mp h
  rfl

theorem name_of_virtualTable? {row : Option Placeholder} {v : VirtualTable}
    (h : Definition.virtualTable? row l = some v) : v.name = l.virtualTable := by
  obtain ⟨source, -, rfl⟩ := Option.map_eq_some_iff.mp h
  rfl

/-- A relationship that is read from another table has a virtual table. -/
theorem exists_virtualTable? (hl : l ∈ d.wantedLinks request) (row : Option Placeholder) :
    ∃ v, Definition.virtualTable? row l = some v := by
  obtain ⟨-, hvirtual, -⟩ := mem_wantedLinks_iff.mp hl
  obtain ⟨source, hsource⟩ := Option.isSome_iff_exists.mp hvirtual
  exact ⟨_, Option.map_eq_some_iff.mpr ⟨source, hsource, rfl⟩⟩

theorem ReadCommand.Reads.mem_virtualTables {c : ReadCommand} (h : c.Reads d request)
    (hl : l ∈ d.wantedLinks request) {v : VirtualTable}
    (hv : Definition.virtualTable? c.row l = some v) : v ∈ c.virtualTables := by
  rw [h.virtualTables]
  exact List.mem_filterMap.mpr ⟨l, hl, hv⟩

/-- Every virtual table is read for the row that the command reads, or for all rows. -/
theorem ReadCommand.Reads.row {c : ReadCommand} (h : c.Reads d request) :
    ∀ v ∈ c.virtualTables, v.row = c.row := by
  intro v hv
  rw [h.virtualTables] at hv
  obtain ⟨l, -, hv⟩ := List.mem_filterMap.mp hv
  exact row_of_virtualTable? hv

theorem prepareRead_reads (h : d.prepareRead request filter = .ok p) :
    ∃ c, p.command = .read c ∧ c.Reads d request ∧ c.filter = filter := by
  obtain ⟨-, -, h⟩ := bind_eq_ok_iff.mp h
  dsimp only at h
  split at h
  · obtain rfl := pure_eq_ok_iff.mp h
    exact ⟨_, rfl, ⟨rfl, rfl, [], (List.append_nil _).symm, fun _ ho ↦ nomatch ho⟩, rfl⟩
  · split at h
    · obtain rfl := pure_eq_ok_iff.mp h
      exact ⟨_, rfl, ⟨rfl, rfl, [.totalCount], rfl, fun _ ↦ List.mem_singleton.mp⟩, rfl⟩
    · obtain rfl := pure_eq_ok_iff.mp h
      exact ⟨_, rfl, ⟨rfl, rfl, [], (List.append_nil _).symm, fun _ ho ↦ nomatch ho⟩, rfl⟩

/-! ## Writes -/

theorem writableColumn_eq_ok_iff :
    d.writableColumn key = .ok column ↔
      (∃ f, d.field? key = some f ∧ f.column = column) ∨
      (d.field? key = none ∧ (d.link? key).bind (fun l ↦ l.storage.ownColumn?) = some column) := by
  unfold Definition.writableColumn
  split
  · next f hf => simp [hf]
  · next hnone =>
    split
    · next own hown => simp [hnone, hown]
    · next hown => simp [hnone, hown]

/-- One value of a write. -/
def Definition.assignOne (d : Definition) (state : List Assignment × Parameters)
    (e : String × Json) : Except CompileError (List Assignment × Parameters) := do
  let column ← d.writableColumn e.1
  let (value, parameters) := state.2.bind e.1 (.ofJson e.2)
  return (state.1 ++ [⟨column, value⟩], parameters)

theorem assign_eq (d : Definition) (values : SortedMap Json) :
    d.assign values = values.entries.foldlM d.assignOne ([], .empty) := rfl

/-- The parameter of a key with its value. -/
def parameterOf (e : String × Json) : Parameter := ⟨e.1, .ofJson e.2⟩

/-- Each assignment is to the column of a key, and its placeholder stands for the value of that
key. -/
def Definition.BindsValues (d : Definition) (entries : List (String × Json)) (ps : Parameters)
    (assignments : List Assignment) : Prop :=
  List.Forall₂ (fun e a ↦
    d.writableColumn e.1 = .ok a.column ∧ ps.at? a.value = some (parameterOf e)) entries assignments

/-- Keys that are new are bound one after the other, each at the next position. -/
theorem foldlM_assignOne {entries : List (String × Json)}
    {start result : List Assignment × Parameters} (distinct : (entries.map Prod.fst).Nodup)
    (hnew : ∀ e ∈ entries, e.1 ∉ start.2.names)
    (h : entries.foldlM d.assignOne start = .ok result) :
    result.2.list = start.2.list ++ entries.map parameterOf ∧
      ∃ added, result.1 = start.1 ++ added ∧
        added.map Assignment.value =
          (List.range' (start.2.list.length + 1) entries.length).map Placeholder.mk ∧
        d.BindsValues entries result.2 added := by
  induction entries generalizing start with
  | nil =>
      obtain rfl := pure_eq_ok_iff.mp h
      exact ⟨(List.append_nil _).symm, [], (List.append_nil _).symm, rfl, .nil⟩
  | cons e rest ih =>
      rw [List.foldlM_cons] at h
      obtain ⟨mid, hmid, h⟩ := bind_eq_ok_iff.mp h
      obtain ⟨column, hcolumn, hmid⟩ := bind_eq_ok_iff.mp hmid
      rw [Parameters.bind_of_notMem (hnew e List.mem_cons_self)] at hmid
      obtain rfl := pure_eq_ok_iff.mp hmid
      obtain ⟨hfirst, hrest⟩ := List.nodup_cons.mp distinct
      -- the keys that are left stay new, since none of them is the one just bound
      have hnewRest : ∀ e' ∈ rest,
          e'.1 ∉ (Parameters.mk (start.2.list ++ [parameterOf e])).names := by
        intro e' he' hmem
        rcases Parameters.mem_names_concat.mp hmem with hmem | hsame
        · exact hnew e' (List.mem_cons_of_mem _ he') hmem
        · have hmem : e'.1 ∈ rest.map Prod.fst := List.mem_map_of_mem he'
          rw [hsame] at hmem
          exact hfirst hmem
      obtain ⟨hlist, added, hadded, hpositions, hbinds⟩ := ih hrest hnewRest h
      have hlist' : result.2.list = start.2.list ++ parameterOf e :: rest.map parameterOf :=
        hlist.trans (List.append_cons _ _ _).symm
      have hlength : (start.2.list ++ [parameterOf e]).length = start.2.list.length + 1 :=
        List.length_append
      refine ⟨hlist', ⟨column, ⟨start.2.list.length + 1⟩⟩ :: added, ?_, ?_,
        .cons ⟨hcolumn, Parameters.at?_of_append hlist'⟩ hbinds⟩
      · exact hadded.trans (List.append_cons _ _ _).symm
      · rw [List.map_cons, hpositions, List.length_cons, List.range'_succ, List.map_cons]
        exact congrArg (fun n ↦ _ :: (List.range' (n + 1) rest.length).map Placeholder.mk) hlength

/-- A write assigns one value for each key, to the column that the key writes. -/
theorem assign_spec {assignments : List Assignment} {parameters : Parameters}
    (h : d.assign values = .ok (assignments, parameters)) :
    parameters.list = values.entries.map parameterOf ∧
      assignments.map Assignment.value = Parameters.positions values.entries.length ∧
      d.BindsValues values.entries parameters assignments := by
  rw [assign_eq] at h
  obtain ⟨hlist, added, hadded, hpositions, hbinds⟩ :=
    foldlM_assignOne values.keys_nodup (fun _ _ ↦ List.not_mem_nil) h
  obtain rfl : assignments = added := hadded
  exact ⟨hlist, hpositions, hbinds⟩

theorem exists_assign_of_create (h : (Operation.create d values).prepare filter = .ok p) :
    ∃ assignments parameters, d.assign values = .ok (assignments, parameters) ∧
      p = ⟨.insert d.table assignments, parameters⟩ := by
  obtain ⟨⟨assignments, parameters⟩, hassign, h⟩ := bind_eq_ok_iff.mp h
  exact ⟨assignments, parameters, hassign, (pure_eq_ok_iff.mp h).symm⟩

/-- The id of the row is bound behind the values. -/
theorem exists_assign_of_update {id : Int64}
    (h : (Operation.update d id values).prepare filter = .ok p) :
    ∃ assignments parameters row bound, d.assign values = .ok (assignments, parameters) ∧
      parameters.bind "id" (.int id) = (row, bound) ∧
      p = ⟨.update d.table assignments row, bound⟩ := by
  obtain ⟨⟨assignments, parameters⟩, hassign, h⟩ := bind_eq_ok_iff.mp h
  exact ⟨assignments, parameters, _, _, hassign, rfl, (pure_eq_ok_iff.mp h).symm⟩

/-! ## Statements -/

theorem compile_eq_ok_iff {compiler : QueryCompiler} {request : Request} {statement : Statement} :
    compiler.compile request = .ok statement ↔
      ∃ p, compiler.prepare request = .ok p ∧ p.statement = statement := by
  rw [QueryCompiler.compile, bind_eq_ok_iff]
  simp only [pure_eq_ok_iff]

/-! ## Commands that read -/

/-- The command, if it is a read. -/
def Command.read? : Command → Option ReadCommand
  | .read c => some c
  | .insert _ _ | .update _ _ _ | .delete _ _ => none

theorem read?_eq_some_iff {command : Command} {c : ReadCommand} :
    command.read? = some c ↔ command = .read c := by
  cases command <;> simp [Command.read?]

/-- What is prepared as a read is a read of the definition. -/
theorem prepareRead_of_prepare (h : operation.prepare filter = .ok p) {c : ReadCommand}
    (hc : p.command = .read c) :
    ∃ asked, operation.definition.prepareRead asked filter = .ok p := by
  cases operation with
  | read d asked action => exact ⟨asked, h⟩
  | create d values =>
      obtain ⟨assignments, parameters, -, rfl⟩ := exists_assign_of_create h
      cases hc
  | update d id values =>
      obtain ⟨assignments, parameters, row, bound, -, -, rfl⟩ := exists_assign_of_update h
      cases hc
  | delete d id =>
      obtain rfl := Except.ok.inj h
      cases hc

/-- A request that is prepared as a read reads a resource of the set. -/
theorem exists_prepareRead {compiler : QueryCompiler} (hset : compiler.definitions = s)
    {request : Request} (h : compiler.prepare request = .ok p) {c : ReadCommand}
    (hc : p.command = .read c) :
    ∃ name d asked filter, s.get? name = some d ∧ d.prepareRead asked filter = .ok p := by
  obtain ⟨operation, haccept, h⟩ := bind_eq_ok_iff.mp h
  rw [hset] at haccept
  obtain ⟨name, hget⟩ := exists_get?_of_accept haccept
  obtain ⟨asked, hread⟩ := prepareRead_of_prepare h hc
  exact ⟨name, _, asked, _, hget, hread⟩

/-! ## Authorization -/

theorem QueryCompiler.filter?_eq_none {compiler : QueryCompiler}
    (unauthorized : compiler.authorization = none) (operation : Operation) :
    compiler.filter? operation = none := by
  rw [filter?, unauthorized]
  rfl

/-- Only an authorization puts a condition of its own into a command. -/
theorem filter_of_prepare (h : operation.prepare none = .ok p) {c : ReadCommand}
    (hc : p.command = .read c) : c.filter = none := by
  obtain ⟨asked, hread⟩ := prepareRead_of_prepare h hc
  obtain ⟨c', hcommand, -, hfilter⟩ := prepareRead_reads hread
  obtain rfl := Command.read.inj (hc.symm.trans hcommand)
  exact hfilter

end ResourceSchema
