import Mathlib.Algebra.Group.Nat.Defs
import ResourceSchema.Proofs.Request.Uniformity
import ResourceSchema.Proofs.Schema.Columns
import ResourceSchema.Proofs.Sql.Command

/-!
# Placeholders stand for the data of the request

Ids, the bounds of pages and the values of keys share one list of parameters, in which a name that
comes twice would keep its first value.  No name comes twice: the keys of a write are distinct, and
none of them is the name of the id, since a description with such a key is refused.  So every
placeholder stands for what the request gives in its place, and no parameter is left over.
-/

namespace ResourceSchema

open Sql

variable {ds : List Description} {rs : List Resource} {r : Resource} {s : DefinitionSet}
variable {d : Definition} {request : ReadRequest} {filter : Option String} {p : Prepared}
variable {values : SortedMap Json} {key : String} {column : Ident} {id : Int64}

/-! ## What placeholders should stand for -/

/-- The parameter for the row with an id. -/
def rowParameter (id : Int64) : Parameter := ⟨"id", .int id⟩

/-- The page that is listed: the one that is asked for, or the first of the resource.  There is
none if one row is read, or if lists of the resource have no pages. -/
def Definition.page? (d : Definition) (request : ReadRequest) : Option Page :=
  if request.id.isNone && d.resource.pagination.enabled then
    some (request.page.getD (.first d.resource.pagination))
  else none

/-- The bounds stand for the size of the page and for the number of rows before it, unless that
number does not fit the word. -/
structure PageBounds.StandFor (ps : Parameters) (b : PageBounds) (page : Page) : Prop where
  limit : ∃ size, ps.at? b.limit = some ⟨"limit", .int size⟩ ∧ size.toInt = page.size.toNat
  offset : ∃ rows, ps.at? b.offset = some ⟨"offset", .int rows⟩ ∧
    (page.rowsBefore < 2 ^ 63 → rows.toInt = page.rowsBefore)

/-- The keys of rows are compared with the id that is asked for, and a list has the bounds of its
page. -/
structure ReadCommand.Binds (c : ReadCommand) (ps : Parameters) (d : Definition)
    (request : ReadRequest) : Prop where
  row : Option.Rel (fun row id ↦ ps.at? row = some (rowParameter id)) c.row request.id
  virtualTables : ∀ v ∈ c.virtualTables, v.row = c.row
  page : Option.Rel (PageBounds.StandFor ps) c.page (d.page? request)

/-- The command does what the request asks for, and its placeholders stand for the data of the
request. -/
inductive Request.BoundIn (s : DefinitionSet) (ps : Parameters) : Request → Command → Prop
  | read {name : String} {d : Definition} {request : ReadRequest} {c : ReadCommand}
      (found : s.get? name = some d) (reads : c.Reads d request) (binds : c.Binds ps d request) :
      BoundIn s ps (.read name request) (.read c)
  | create {name : String} {d : Definition} {w : WriteRequest} {assignments : List Assignment}
      (found : s.get? name = some d) (values : d.BindsValues w.values.entries ps assignments) :
      BoundIn s ps (.create name w) (.insert d.table assignments)
  /-- An update without values reads the row. -/
  | reread {name : String} {d : Definition} {id : Int64} {w : WriteRequest} {c : ReadCommand}
      (found : s.get? name = some d) (asked : w.id = some id) (empty : w.values.isEmpty = true)
      (reads : c.Reads d { id := some id }) (binds : c.Binds ps d { id := some id }) :
      BoundIn s ps (.update name w) (.read c)
  | update {name : String} {d : Definition} {id : Int64} {w : WriteRequest}
      {assignments : List Assignment} {row : Placeholder}
      (found : s.get? name = some d) (asked : w.id = some id)
      (values : d.BindsValues w.values.entries ps assignments)
      (stands : ps.at? row = some (rowParameter id)) (apart : ∀ a ∈ assignments, a.value ≠ row) :
      BoundIn s ps (.update name w) (.update d.table assignments row)
  | delete {name : String} {d : Definition} {id : Int64} {row : Placeholder}
      (found : s.get? name = some d) (stands : ps.at? row = some (rowParameter id)) :
      BoundIn s ps (.delete name (some id)) (.delete d.table row)

/-- The placeholders of the command are those of all parameters. -/
def Prepared.Covers (p : Prepared) : Prop :=
  ∀ q, q ∈ p.command.placeholders ↔ q ∈ Parameters.positions p.parameters.list.length

/-! ## Reads -/

theorem standFor_page (page : Page) :
    PageBounds.StandFor ⟨[⟨"limit", .int (.ofNat page.size.toNat)⟩, ⟨"offset", .int page.offset⟩]⟩
      ⟨⟨1⟩, ⟨2⟩⟩ page := by
  have hsize : page.size.toNat < 2 ^ 63 := Nat.lt_trans page.size.toNat_lt (by decide)
  exact ⟨⟨_, rfl, Int64.toInt_ofNat_of_lt hsize⟩, ⟨_, rfl, Int64.toInt_ofNat_of_lt⟩⟩

theorem mem_placeholders_row {c : ReadCommand} {row q : Placeholder} (hrow : c.row = some row)
    (hvirtual : ∀ v ∈ c.virtualTables, v.row = c.row) (hpage : c.page = none) :
    q ∈ c.placeholders ↔ q = row := by
  rw [ReadCommand.placeholders, hpage, hrow, Option.toList_none, List.flatMap_nil, List.append_nil,
    List.mem_append, List.mem_flatMap, Option.toList_some, List.mem_singleton]
  constructor
  · rintro (⟨v, hv, hq⟩ | rfl)
    · rw [hvirtual v hv, hrow] at hq
      exact List.mem_singleton.mp hq
    · rfl
  · exact Or.inr

theorem placeholders_list {c : ReadCommand} (hrow : c.row = none)
    (hvirtual : ∀ v ∈ c.virtualTables, v.row = c.row) :
    c.placeholders = c.page.toList.flatMap fun b ↦ [b.limit, b.offset] := by
  have htables : c.virtualTables.flatMap (fun v ↦ v.row.toList) = [] := by
    rw [List.flatMap_eq_nil_iff]
    intro v hv
    rw [hvirtual v hv, hrow, Option.toList_none]
  rw [ReadCommand.placeholders, htables, hrow, Option.toList_none, List.append_nil, List.nil_append]

theorem prepareRead_binds (h : d.prepareRead request filter = .ok p) :
    p.Covers ∧ ∃ c, p.command = .read c ∧ c.Reads d request ∧ c.Binds p.parameters d request := by
  obtain ⟨c, hcommand, hreads, -⟩ := prepareRead_reads h
  have hvirtual := hreads.row
  obtain ⟨-, -, h⟩ := bind_eq_ok_iff.mp h
  dsimp only at h
  split at h
  · next id hid =>
    obtain rfl := pure_eq_ok_iff.mp h
    obtain rfl := Command.read.inj hcommand
    refine ⟨fun q ↦ ?_, _, rfl, hreads, ⟨?_, hvirtual, ?_⟩⟩
    · exact (mem_placeholders_row rfl hvirtual rfl).trans List.mem_singleton.symm
    · rw [hid]
      exact .some rfl
    · rw [Definition.page?, hid]
      exact .none
  · next hid =>
    split at h
    · next hpages =>
      obtain rfl := pure_eq_ok_iff.mp h
      obtain rfl := Command.read.inj hcommand
      refine ⟨fun q ↦ ?_, _, rfl, hreads, ⟨?_, hvirtual, ?_⟩⟩
      · exact iff_of_eq (congrArg (q ∈ ·) (placeholders_list rfl hvirtual))
      · rw [hid]
        exact .none
      · rw [Definition.page?, hid, hpages]
        exact .some (standFor_page _)
    · next hpages =>
      obtain rfl := pure_eq_ok_iff.mp h
      obtain rfl := Command.read.inj hcommand
      refine ⟨fun q ↦ ?_, _, rfl, hreads, ⟨?_, hvirtual, ?_⟩⟩
      · exact iff_of_eq (congrArg (q ∈ ·) (placeholders_list rfl hvirtual))
      · rw [hid]
        exact .none
      · rw [Definition.page?, Bool.eq_false_iff.mpr hpages, Bool.and_false]
        exact .none

/-! ## Writes -/

/-- A key that can be written is not reserved. -/
theorem isKey_of_writableColumn (defined : r.define rs = .ok d) (hr : r.WellKeyed)
    (h : d.writableColumn key = .ok column) : IsKey key := by
  obtain rfl := resource_of_define defined
  rcases writableColumn_eq_ok_iff.mp h with ⟨f, hf, -⟩ | ⟨-, hown⟩
  · obtain ⟨hmem, hkey⟩ := mem_of_find?_key hf
    rcases List.mem_append.mp hmem with hmem | hmem
    · obtain ⟨e, he, rfl⟩ := List.mem_map.mp hmem
      exact hkey ▸ (hr.attributes e.1 e.2 (SortedMap.get?_eq_some_iff.mpr he)).1
    · obtain ⟨e, he, rfl⟩ := List.mem_map.mp hmem
      exact hkey ▸ (hr.metaFields e.1 e.2 (SortedMap.get?_eq_some_iff.mpr he)).1
  · obtain ⟨l, hl, hown⟩ := Option.bind_eq_some_iff.mp hown
    obtain ⟨hmem, hname⟩ := (link?_eq_some_iff defined).mp hl
    obtain ⟨-, hhost⟩ := ownColumn?_eq_some defined hmem hown
    obtain ⟨_, hleads⟩ := exists_leadsTo defined hmem
    exact hname ▸ (hr.hosts l.name l.relationship hleads.declared hhost).1

theorem Definition.BindsValues.extend {entries : List (String × Json)} {ps : Parameters}
    {assignments : List Assignment} (h : d.BindsValues entries ps assignments)
    (more : List Parameter) : d.BindsValues entries ⟨ps.list ++ more⟩ assignments :=
  h.imp fun _ _ ⟨hcolumn, hvalue⟩ ↦ ⟨hcolumn, Parameters.at?_of_prefix hvalue⟩

theorem prepareCreate_binds (h : (Operation.create d values).prepare filter = .ok p) :
    p.Covers ∧ ∃ assignments, p.command = .insert d.table assignments ∧
      d.BindsValues values.entries p.parameters assignments := by
  obtain ⟨assignments, parameters, hassign, rfl⟩ := exists_assign_of_create h
  obtain ⟨hlist, hpositions, hbinds⟩ := assign_spec hassign
  refine ⟨fun q ↦ ?_, assignments, rfl, hbinds⟩
  show q ∈ assignments.map Assignment.value ↔ q ∈ Parameters.positions parameters.list.length
  rw [hpositions, hlist, List.length_map]

/-- The id of the row is bound behind the values, under a name that no value has. -/
theorem prepareUpdate_binds (defined : r.define rs = .ok d) (hr : r.WellKeyed)
    (h : (Operation.update d id values).prepare filter = .ok p) :
    p.Covers ∧ ∃ assignments row, p.command = .update d.table assignments row ∧
      d.BindsValues values.entries p.parameters assignments ∧
      p.parameters.at? row = some (rowParameter id) ∧ ∀ a ∈ assignments, a.value ≠ row := by
  obtain ⟨assignments, parameters, row, bound, hassign, hbound, rfl⟩ := exists_assign_of_update h
  obtain ⟨hlist, hpositions, hbinds⟩ := assign_spec hassign
  have hlength : parameters.list.length = values.entries.length := by rw [hlist, List.length_map]
  have hnew : "id" ∉ parameters.names := by
    intro hmem
    rw [Parameters.names, hlist, List.map_map] at hmem
    obtain ⟨e, he, hid⟩ := List.mem_map.mp hmem
    obtain ⟨a, -, hcolumn, -⟩ := exists_of_mem_left hbinds he
    exact (isKey_of_writableColumn defined hr hcolumn).ne_id hid
  rw [Parameters.bind_of_notMem hnew] at hbound
  obtain ⟨rfl, rfl⟩ := Prod.mk.inj hbound
  refine ⟨fun q ↦ ?_, assignments, _, rfl, hbinds.extend _, Parameters.at?_of_append rfl, ?_⟩
  · show q ∈ assignments.map Assignment.value ++ [⟨parameters.list.length + 1⟩] ↔
      q ∈ Parameters.positions (parameters.list ++ [rowParameter id]).length
    rw [List.length_append, List.length_singleton, Parameters.positions_succ, hpositions, hlength]
  · intro a ha hrow
    have hmem := List.mem_map_of_mem (f := Assignment.value) ha
    rw [hpositions, hrow, ← hlength] at hmem
    obtain ⟨-, hle⟩ := Parameters.mem_positions_iff.mp hmem
    exact absurd hle (Nat.not_succ_le_self _)

theorem prepareDelete_binds (h : (Operation.delete d id).prepare filter = .ok p) :
    p.Covers ∧ ∃ row, p.command = .delete d.table row ∧
      p.parameters.at? row = some (rowParameter id) := by
  obtain rfl := Except.ok.inj h
  exact ⟨fun q ↦ Iff.rfl, _, rfl, rfl⟩

/-! ## Requests -/

section Build

variable (accepted : resourcesOf ds = .ok rs) (built : DefinitionSet.build rs = .ok s)
include accepted built

theorem request_binds {request : Request} {operation : Operation}
    (haccept : request.accept s = .ok operation) (h : operation.prepare filter = .ok p) :
    p.Covers ∧ request.BoundIn s p.parameters p.command := by
  cases acceptedAs_of_accept haccept with
  | read found =>
      obtain ⟨hcovers, c, hcommand, hreads, hbinds⟩ := prepareRead_binds h
      rw [hcommand]
      exact ⟨hcovers, .read found hreads hbinds⟩
  | create found =>
      obtain ⟨hcovers, assignments, hcommand, hvalues⟩ := prepareCreate_binds h
      rw [hcommand]
      exact ⟨hcovers, .create found hvalues⟩
  | reread found _ asked empty =>
      obtain ⟨hcovers, c, hcommand, hreads, hbinds⟩ := prepareRead_binds h
      rw [hcommand]
      exact ⟨hcovers, .reread found asked empty hreads hbinds⟩
  | update found _ asked =>
      obtain ⟨hr, hdefine⟩ := define_of_mem built (mem_of_get? found).1
      obtain ⟨hcovers, assignments, row, hcommand, hvalues, hrow, hapart⟩ :=
        prepareUpdate_binds hdefine (accepted_wellKeyed accepted hr) h
      rw [hcommand]
      exact ⟨hcovers, .update found asked hvalues hrow hapart⟩
  | delete found =>
      obtain ⟨hcovers, row, hcommand, hrow⟩ := prepareDelete_binds h
      rw [hcommand]
      exact ⟨hcovers, .delete found hrow⟩

end Build

/-- **Placeholders stand for the data of the request.**  A compiled statement has the placeholders
of its parameters and no others, and each stands for what the request gives in its place. -/
theorem compile_binds (accepted : resourcesOf ds = .ok rs) (built : DefinitionSet.build rs = .ok s)
    {compiler : QueryCompiler} (hset : compiler.definitions = s)
    (unauthorized : compiler.authorization = none) {request : Request} {statement : Statement}
    (compiled : compiler.compile request = .ok statement) :
    (∀ q, q ∈ placeholders statement.text ↔
      1 ≤ q.position ∧ q.position ≤ statement.parameters.list.length) ∧
    ∃ command, statement.text = command.render ∧
      request.BoundIn s statement.parameters command := by
  obtain ⟨p, hp, h⟩ := bind_eq_ok_iff.mp compiled
  obtain rfl := pure_eq_ok_iff.mp h
  obtain ⟨operation, haccept, hprepare⟩ := bind_eq_ok_iff.mp hp
  rw [hset] at haccept
  rw [compiler.filter?_eq_none unauthorized] at hprepare
  obtain ⟨hcovers, hbound⟩ := request_binds accepted built haccept hprepare
  have htext : placeholders p.command.render = p.command.placeholders :=
    (Command.render_holds fun c hc ↦ filter_of_prepare hprepare hc).placeholders
  refine ⟨fun q ↦ ?_, p.command, rfl, hbound⟩
  rw [← Parameters.mem_positions_iff]
  show q ∈ placeholders p.command.render ↔ _
  rw [htext]
  exact hcovers q

theorem compile_binds_adopt :
    ∃ rs s, resourcesOf household = .ok rs ∧ DefinitionSet.build rs = .ok s ∧
      ∃ statement, (⟨s, none⟩ : QueryCompiler).compile (adopt 7 (.number (.integer 3))) =
          .ok statement ∧
        (∀ q, q ∈ placeholders statement.text ↔
          1 ≤ q.position ∧ q.position ≤ statement.parameters.list.length) ∧
        ∃ command, statement.text = command.render ∧
          (adopt 7 (.number (.integer 3))).BoundIn s statement.parameters command := by
  have hsome : ((resourcesOf household).toOption.bind fun rs ↦
      (DefinitionSet.build rs).toOption.bind fun s ↦
        ((⟨s, none⟩ : QueryCompiler).compile
          (adopt 7 (.number (.integer 3)))).toOption).isSome = true := by
    decide +kernel
  obtain ⟨statement, h⟩ := Option.isSome_iff_exists.mp hsome
  simp only [Option.bind_eq_some_iff, toOption_eq_some_iff] at h
  obtain ⟨rs, hrs, s, hs, hstatement⟩ := h
  exact ⟨rs, s, hrs, hs, statement, hstatement, compile_binds hrs hs rfl rfl hstatement⟩

end ResourceSchema
