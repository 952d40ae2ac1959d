import ResourceSchema.Proofs.Request.Preparation
import ResourceSchema.Proofs.Schema.Arrangement

/-!
# Why requests are refused

A request is refused for the first of four reasons that applies to it: there is no such resource,
the action is switched off, the row is not named, or a field is not there.  A read knows every
relationship as a field, a write only those whose key the resource stores itself.  Every other
request is compiled to a statement.
-/

namespace ResourceSchema

variable {rs : List Resource} {r : Resource} {s : DefinitionSet} {d : Definition}
variable {compiler : QueryCompiler} {request : Request} {operation : Operation}
variable {asked : ReadRequest} {values : SortedMap Json} {filter : Option String}
variable {key name : String} {e : CompileError}

/-! ## Reasons -/

namespace Request

/-- What is done to the rows of the resource.  An update without values is an update all the
same. -/
def action : Request → Action
  | read _ request => request.action
  | create _ _ => .create
  | update _ _ => .update
  | delete _ _ => .delete

/-- The request is about one row, and does not say which. -/
def lacksId : Request → Bool
  | read _ _ | create _ _ => false
  | update _ request => request.id.isNone
  | delete _ id => id.isNone

/-- The fields that the request names. -/
def keys : Request → List String
  | read _ request => (request.fields.getD .empty).keys
  | create _ request | update _ request => request.values.keys
  | delete _ _ => []

end Request

namespace Definition

/-- The resource declares a field: an attribute, a meta field or a relationship. -/
def Declares (d : Definition) (key : String) : Prop :=
  d.resource.attributes.contains key = true ∨ d.resource.metaFields.contains key = true ∨
    d.resource.relationships.contains key = true

/-- The table of the resource has the field: an attribute, a meta field or the key of a
relationship. -/
def Stores (d : Definition) (key : String) : Prop :=
  d.resource.attributes.contains key = true ∨ d.resource.metaFields.contains key = true ∨
    ∃ l ∈ d.links, l.name = key ∧ ∃ column, l.storage = .ownTable column

end Definition

/-- The resource has the field, as far as the request is concerned. -/
def Request.Finds (d : Definition) (key : String) : Request → Prop
  | read _ _ => d.Declares key
  | create _ _ | update _ _ | delete _ _ => d.Stores key

/-- Of the fields that the request names, this one is the first that the resource does not have. -/
structure Request.FirstUnknown (request : Request) (d : Definition) (key : String) : Prop where
  named : key ∈ request.keys
  unknown : ¬ request.Finds d key
  first : ∀ other ∈ request.keys, ¬ request.Finds d other → ¬ Text.Before other key

/-- Why a request is refused.  Each reason presupposes that those before it do not apply. -/
inductive Request.Refused (s : DefinitionSet) (request : Request) : CompileError → Prop
  | unknownResource (absent : ∀ d ∈ s.definitions, d.name ≠ request.resource) :
      request.Refused s (.unknownResource request.resource)
  | actionDisabled {d : Definition} (found : s.get? request.resource = some d)
      (disabled : d.resource.actions.allow request.action = false) :
      request.Refused s (.actionDisabled request.action request.resource)
  | missingId {d : Definition} (found : s.get? request.resource = some d)
      (allowed : d.resource.actions.allow request.action = true)
      (lacking : request.lacksId = true) :
      request.Refused s (.missingId request.action request.resource)
  | unknownField {d : Definition} {key : String} (found : s.get? request.resource = some d)
      (allowed : d.resource.actions.allow request.action = true)
      (given : request.lacksId = false) (first : request.FirstUnknown d key) :
      request.Refused s (.unknownField request.resource key)

/-! ## Acceptance -/

theorem get?_eq_none_iff : s.get? name = none ↔ ∀ d ∈ s.definitions, d.name ≠ name := by
  simp only [DefinitionSet.get?, List.find?_eq_none, List.mem_reverse, beq_iff_eq, ne_eq]

theorem allowing_eq_error_iff {action : Action} :
    s.allowing name action = .error e ↔
      (s.get? name = none ∧ e = .unknownResource name) ∨
      ∃ d, s.get? name = some d ∧ d.resource.actions.allow action = false ∧
        e = .actionDisabled action name := by
  unfold DefinitionSet.allowing
  split
  · next hnone => simp [hnone, eq_comm (a := e)]
  · next d hd =>
    cases hallow : d.resource.actions.allow action with
    | true => simp [hd, hallow]
    | false => simp [hd, hallow, eq_comm (a := e)]

theorem requireId_eq_error_iff {given : Option Int64} {action : Action} :
    d.requireId given action = .error e ↔ given.isNone = true ∧ e = .missingId action d.name := by
  cases given with
  | none => simp [Definition.requireId, eq_comm (a := e)]
  | some id => simp [Definition.requireId]

/-- A request is not accepted if the resource does not allow the action, or if an id is missing. -/
theorem accept_eq_error_iff :
    request.accept s = .error e ↔
      s.allowing request.resource request.action = .error e ∨
      ∃ d, s.allowing request.resource request.action = .ok d ∧ request.lacksId = true ∧
        e = .missingId request.action d.name := by
  cases request with
  | read resource asked =>
      rw [Request.accept, bind_eq_error_iff]
      simp [Request.resource, Request.action, Request.lacksId, pure, Except.pure]
  | create resource w =>
      rw [Request.accept, bind_eq_error_iff]
      simp [Request.resource, Request.action, Request.lacksId, pure, Except.pure]
  | update resource w =>
      rw [Request.accept, bind_eq_error_iff]
      refine or_congr_right (exists_congr fun d ↦ and_congr_right fun _ ↦ ?_)
      refine (bind_eq_error_iff_left fun id ↦ ?_).trans requireId_eq_error_iff
      cases w.values.isEmpty with
      | true | false => exact ⟨_, rfl⟩
  | delete resource id =>
      rw [Request.accept, bind_eq_error_iff]
      refine or_congr_right (exists_congr fun d ↦ and_congr_right fun _ ↦ ?_)
      exact (bind_eq_error_iff_left fun _ ↦ ⟨_, rfl⟩).trans requireId_eq_error_iff

/-! ## Fields -/

/-- A look-up among the columns of fields is one in the map of the fields. -/
theorem find?_fieldColumns (m : SortedMap Attribute) (column : String → Ident) (key : String) :
    (m.entries.map fun e ↦ FieldColumn.mk e.1 (column e.1) e.2).find? (·.key == key) =
      (m.get? key).map fun a ↦ ⟨key, column key, a⟩ := by
  have hkeys : (m.entries.map fun e ↦ FieldColumn.mk e.1 (column e.1) e.2).map FieldColumn.key =
      m.keys := by
    rw [List.map_map]
    rfl
  apply Option.ext
  intro f
  rw [find?_key_eq_some_iff (hkeys ▸ m.keys_nodup), Option.map_eq_some_iff, List.mem_map]
  constructor
  · rintro ⟨⟨e, he, rfl⟩, rfl⟩
    exact ⟨e.2, SortedMap.get?_eq_some_iff.mpr he, rfl⟩
  · rintro ⟨a, ha, rfl⟩
    exact ⟨⟨(key, a), SortedMap.get?_eq_some_iff.mp ha, rfl⟩, rfl⟩

/-- An attribute comes before a meta field of the same key. -/
theorem field?_eq (d : Definition) (key : String) :
    d.field? key = ((d.resource.attributes.get? key).map fun a ↦ ⟨key, ⟨key⟩, a⟩).or
      ((d.resource.metaFields.get? key).map fun a ↦ ⟨key, ⟨Name.metaColumn key⟩, a⟩) := by
  rw [Definition.field?, List.find?_append, Definition.attributes, Definition.metaFields,
    find?_fieldColumns _ Ident.mk, find?_fieldColumns _ fun key ↦ ⟨Name.metaColumn key⟩]

theorem field?_eq_none_iff :
    d.field? key = none ↔ d.resource.attributes.contains key = false ∧
      d.resource.metaFields.contains key = false := by
  rw [field?_eq, Option.or_eq_none_iff, Option.map_eq_none_iff, Option.map_eq_none_iff,
    SortedMap.contains, SortedMap.contains, Option.isSome_eq_false_iff, Option.isSome_eq_false_iff,
    Option.isNone_iff_eq_none, Option.isNone_iff_eq_none]

theorem exists_field?_column_iff {column : Ident} :
    (∃ f, d.field? key = some f ∧ f.column = column) ↔
      (d.resource.attributes.contains key = true ∧ column = ⟨key⟩) ∨
      (d.resource.attributes.contains key = false ∧ d.resource.metaFields.contains key = true ∧
        column = ⟨Name.metaColumn key⟩) := by
  rw [field?_eq, SortedMap.contains, SortedMap.contains]
  cases d.resource.attributes.get? key with
  | some a => simp [eq_comm (a := column)]
  | none =>
      cases d.resource.metaFields.get? key with
      | some a => simp [eq_comm (a := column)]
      | none => simp

/-- The key can be written. -/
def Definition.canWrite (d : Definition) (key : String) : Bool := (d.writableColumn key).isOk

theorem canWrite_iff_exists :
    d.canWrite key = true ↔ ∃ column, d.writableColumn key = .ok column := by
  rw [Definition.canWrite]
  cases d.writableColumn key with
  | error e => simp [Except.isOk, Except.toBool]
  | ok column => simp [Except.isOk, Except.toBool]

theorem writableColumn_eq_error_iff :
    d.writableColumn key = .error e ↔ d.canWrite key = false ∧ e = .unknownField d.name key := by
  unfold Definition.canWrite Definition.writableColumn
  split
  · simp [Except.isOk, Except.toBool]
  · split
    · simp [Except.isOk, Except.toBool]
    · simp [Except.isOk, Except.toBool, eq_comm (a := e)]

section Define

variable (defined : r.define rs = .ok d)
include defined

theorem hasField_iff : d.hasField key = true ↔ d.Declares key := by
  have hlink : (d.link? key).isSome = true ↔ d.resource.relationships.contains key = true := by
    rw [resource_of_define defined, SortedMap.contains_iff, ← map_name_links defined]
    simp [Definition.link?, List.find?_isSome]
  have hfield : (d.field? key).isSome = true ↔
      d.resource.attributes.contains key = true ∨ d.resource.metaFields.contains key = true := by
    rw [← not_iff_not, Bool.not_eq_true, Option.isSome_eq_false_iff, Option.isNone_iff_eq_none,
      field?_eq_none_iff, not_or, Bool.not_eq_true, Bool.not_eq_true]
  rw [Definition.hasField, Bool.or_eq_true, hlink, hfield, or_assoc]
  rfl

/-- The column that a key writes. -/
theorem writableColumn_eq_ok_iff_stored {column : Ident} :
    d.writableColumn key = .ok column ↔
      (d.resource.attributes.contains key = true ∧ column = ⟨key⟩) ∨
      (d.resource.attributes.contains key = false ∧ d.resource.metaFields.contains key = true ∧
        column = ⟨Name.metaColumn key⟩) ∨
      (d.resource.attributes.contains key = false ∧ d.resource.metaFields.contains key = false ∧
        ∃ l ∈ d.links, l.name = key ∧ l.storage = .ownTable column) := by
  have hlink : (d.link? key).bind (fun l ↦ l.storage.ownColumn?) = some column ↔
      ∃ l ∈ d.links, l.name = key ∧ l.storage = .ownTable column := by
    simp only [Option.bind_eq_some_iff, link?_eq_some_iff defined, ownColumn?_eq_some_iff,
      and_assoc]
  rw [writableColumn_eq_ok_iff, exists_field?_column_iff, field?_eq_none_iff, hlink, or_assoc,
    and_assoc]

theorem canWrite_iff : d.canWrite key = true ↔ d.Stores key := by
  rw [canWrite_iff_exists, Definition.Stores]
  simp only [writableColumn_eq_ok_iff_stored defined, exists_or]
  cases d.resource.attributes.contains key with
  | true => simp
  | false =>
      cases d.resource.metaFields.contains key with
      | true => simp
      | false => simp [exists_comm (α := Ident)]

end Define

/-! ## Preparation -/

theorem checkFields_eq_error_iff {fields : Option NameSet} :
    d.checkFields fields = .error e ↔
      ∃ key, (fields.getD .empty).keys.find? (!d.hasField ·) = some key ∧
        e = .unknownField d.name key := by
  unfold Definition.checkFields
  split
  · next key hkey => simp [hkey, eq_comm (a := e)]
  · next hnone => simp [hnone]

/-- Nothing but its fields is looked at before a read is prepared. -/
theorem prepareRead_eq_error_iff :
    d.prepareRead asked filter = .error e ↔ d.checkFields asked.fields = .error e := by
  rw [Definition.prepareRead, bind_eq_error_iff]
  refine or_iff_left ?_
  rintro ⟨-, -, h⟩
  dsimp only at h
  split at h
  · cases h
  · split at h
    · cases h
    · cases h

/-- The first key that cannot be written stops the values from being bound. -/
theorem foldlM_assignOne_eq_error_iff {entries : List (String × Json)}
    {start : List Assignment × Sql.Parameters} :
    entries.foldlM d.assignOne start = .error e ↔
      ∃ key, (entries.map Prod.fst).find? (!d.canWrite ·) = some key ∧
        e = .unknownField d.name key := by
  induction entries generalizing start with
  | nil => simp [pure, Except.pure]
  | cons entry rest ih =>
      rw [List.foldlM_cons, bind_eq_error_iff, List.map_cons]
      cases hwrite : d.canWrite entry.1 with
      | true =>
          obtain ⟨column, hcolumn⟩ := canWrite_iff_exists.mp hwrite
          rw [List.find?_cons_of_neg (by simp [hwrite]), Definition.assignOne, hcolumn]
          simp [ih]
      | false =>
          have hcolumn := writableColumn_eq_error_iff.mpr ⟨hwrite, rfl⟩
          rw [List.find?_cons_of_pos (by simp [hwrite]), Definition.assignOne, hcolumn]
          simp [eq_comm (a := e)]

theorem assign_eq_error_iff :
    d.assign values = .error e ↔
      ∃ key, values.keys.find? (!d.canWrite ·) = some key ∧ e = .unknownField d.name key := by
  rw [assign_eq, foldlM_assignOne_eq_error_iff, SortedMap.keys]

/-! ## Requests -/

theorem Request.keys_ascending (request : Request) : request.keys.Pairwise Text.Before := by
  cases request with
  | read resource asked => exact (asked.fields.getD .empty).keys_ascending
  | create resource w | update resource w => exact w.values.keys_ascending
  | delete resource id => exact .nil

/-- A check that accepts the fields which the resource has stops at the first one it does not. -/
theorem find?_keys_eq_some_iff (request : Request) {test : String → Bool}
    (htest : ∀ key, test key = true ↔ request.Finds d key) :
    request.keys.find? (!test ·) = some key ↔ request.FirstUnknown d key := by
  have hunknown (key) : (!test key) = true ↔ ¬ request.Finds d key := by
    rw [← htest, Bool.not_eq_true', Bool.not_eq_true]
  rw [SortedMap.find?_eq_some_iff_least request.keys_ascending]
  simp only [hunknown]
  exact ⟨fun ⟨named, unknown, first⟩ ↦ ⟨named, unknown, first⟩,
    fun h ↦ ⟨h.named, h.unknown, h.first⟩⟩

/-- A request that names no fields has none that are unknown. -/
theorem not_firstUnknown (h : request.keys = []) : ¬ request.FirstUnknown d key := by
  intro hfirst
  have hnamed := hfirst.named
  rw [h] at hnamed
  cases hnamed

/-- What is accepted is about a resource that allows it, and says which row if it has to. -/
theorem found_of_acceptedAs (h : request.AcceptedAs s operation) :
    s.get? request.resource = some operation.definition ∧
      operation.definition.resource.actions.allow request.action = true ∧
      request.lacksId = false := by
  cases h with
  | read found allowed | create found allowed | delete found allowed =>
      exact ⟨found, allowed, rfl⟩
  | reread found allowed asked _ | update found allowed asked _ =>
      exact ⟨found, allowed, by rw [Request.lacksId, asked]; rfl⟩

/-- A request that the resource allows is accepted if it says which row it is about. -/
theorem exists_accept (hd : s.get? request.resource = some d)
    (hallowed : d.resource.actions.allow request.action = true)
    (hgiven : request.lacksId = false) :
    ∃ operation, request.AcceptedAs s operation ∧ request.accept s = .ok operation ∧
      operation.definition = d := by
  have hallowing := allowing_eq_ok_iff.mpr ⟨hd, hallowed⟩
  cases haccept : request.accept s with
  | error e =>
      rcases accept_eq_error_iff.mp haccept with hrefused | ⟨_, -, hlacks, -⟩
      · exact nomatch hallowing.symm.trans hrefused
      · exact nomatch hgiven.symm.trans hlacks
  | ok operation =>
      have haccepted := acceptedAs_of_accept haccept
      have hfound := (found_of_acceptedAs haccepted).1
      exact ⟨operation, haccepted, rfl, Option.some.inj (hfound.symm.trans hd)⟩

/-- Only an unknown field keeps what is accepted from being prepared. -/
theorem prepare_eq_error_iff (accepted : request.AcceptedAs s operation)
    (defined : r.define rs = .ok operation.definition) :
    operation.prepare filter = .error e ↔
      ∃ key, request.FirstUnknown operation.definition key ∧
        e = .unknownField operation.definition.name key := by
  cases accepted with
  | @read name d asked =>
      rw [Operation.prepare, prepareRead_eq_error_iff, checkFields_eq_error_iff]
      exact exists_congr fun key ↦ and_congr_left fun _ ↦
        find?_keys_eq_some_iff (.read name asked) fun _ ↦ hasField_iff defined
  | @create name d w =>
      refine (bind_eq_error_iff_left fun _ ↦ ⟨_, rfl⟩).trans ?_
      rw [assign_eq_error_iff]
      exact exists_congr fun key ↦ and_congr_left fun _ ↦
        find?_keys_eq_some_iff (.create name w) fun _ ↦ canWrite_iff defined
  | @update name d w =>
      refine (bind_eq_error_iff_left fun _ ↦ ⟨_, rfl⟩).trans ?_
      rw [assign_eq_error_iff]
      exact exists_congr fun key ↦ and_congr_left fun _ ↦
        find?_keys_eq_some_iff (.update name w) fun _ ↦ canWrite_iff defined
  | @reread name d w id found allowed asked empty =>
      -- the row is read with all its fields, so no field is looked for
      have hkeys : (Request.update name w).keys = [] := by
        rw [Request.keys, SortedMap.keys, List.isEmpty_iff.mp empty, List.map_nil]
      rw [Operation.prepare, prepareRead_eq_error_iff, checkFields_eq_error_iff]
      constructor
      · rintro ⟨_, h, _⟩
        cases h
      · rintro ⟨_, h, _⟩
        exact absurd h (not_firstUnknown hkeys)
  | delete =>
      constructor
      · intro h
        cases h
      · rintro ⟨_, h, _⟩
        exact absurd h (not_firstUnknown rfl)

/-- Nothing is refused when it has been prepared. -/
theorem compile_eq_error_iff_accept (hset : compiler.definitions = s) :
    compiler.compile request = .error e ↔ request.accept s = .error e ∨
      ∃ operation, request.accept s = .ok operation ∧
        operation.prepare (compiler.filter? operation) = .error e := by
  refine (bind_eq_error_iff_left fun _ ↦ ⟨_, rfl⟩).trans ?_
  rw [QueryCompiler.prepare, bind_eq_error_iff, hset]

section Build

variable (built : DefinitionSet.build rs = .ok s) (hset : compiler.definitions = s)
include built hset

/-- What is refused is refused for a reason that applies. -/
theorem refused_of_compile (h : compiler.compile request = .error e) : request.Refused s e := by
  rcases (compile_eq_error_iff_accept hset).mp h with hrefused | ⟨operation, haccept, hprepare⟩
  · rcases accept_eq_error_iff.mp hrefused with hrefused | ⟨d, hallowing, hlacks, rfl⟩
    · rcases allowing_eq_error_iff.mp hrefused with ⟨hnone, rfl⟩ | ⟨d, hd, hdisabled, rfl⟩
      · exact .unknownResource (get?_eq_none_iff.mp hnone)
      · exact .actionDisabled hd hdisabled
    · obtain ⟨hd, hallowed⟩ := allowing_eq_ok_iff.mp hallowing
      rw [(mem_of_get? hd).2]
      exact .missingId hd hallowed hlacks
  · have haccepted := acceptedAs_of_accept haccept
    obtain ⟨hd, hallowed, hgiven⟩ := found_of_acceptedAs haccepted
    obtain ⟨-, hdefine⟩ := define_of_mem built (mem_of_get? hd).1
    obtain ⟨key, hfirst, rfl⟩ := (prepare_eq_error_iff haccepted hdefine).mp hprepare
    rw [(mem_of_get? hd).2]
    exact .unknownField hd hallowed hgiven hfirst

/-- The reasons exclude each other, so whichever applies is the one that is given. -/
theorem compile_of_refused (h : request.Refused s e) : compiler.compile request = .error e := by
  rw [compile_eq_error_iff_accept hset]
  cases h with
  | unknownResource absent =>
      refine .inl (accept_eq_error_iff.mpr (.inl ?_))
      exact allowing_eq_error_iff.mpr (.inl ⟨get?_eq_none_iff.mpr absent, rfl⟩)
  | actionDisabled found disabled =>
      refine .inl (accept_eq_error_iff.mpr (.inl ?_))
      exact allowing_eq_error_iff.mpr (.inr ⟨_, found, disabled, rfl⟩)
  | missingId found allowed lacking =>
      have hallowing := allowing_eq_ok_iff.mpr ⟨found, allowed⟩
      refine .inl (accept_eq_error_iff.mpr (.inr ⟨_, hallowing, lacking, ?_⟩))
      rw [(mem_of_get? found).2]
  | unknownField found allowed given first =>
      obtain ⟨operation, haccepted, haccept, rfl⟩ := exists_accept found allowed given
      obtain ⟨-, hdefine⟩ := define_of_mem built (mem_of_get? found).1
      refine .inr ⟨operation, haccept, (prepare_eq_error_iff haccepted hdefine).mpr
        ⟨_, first, ?_⟩⟩
      rw [(mem_of_get? found).2]

/-- A request that is allowed and names fields of the resource only is prepared. -/
theorem exists_prepare_of_finds (hd : s.get? request.resource = some d)
    (hallowed : d.resource.actions.allow request.action = true)
    (hgiven : request.lacksId = false) (hfinds : ∀ key ∈ request.keys, request.Finds d key) :
    ∃ p, compiler.prepare request = .ok p := by
  obtain ⟨operation, haccepted, haccept, rfl⟩ := exists_accept hd hallowed hgiven
  obtain ⟨-, hdefine⟩ := define_of_mem built (mem_of_get? hd).1
  cases hprepare : operation.prepare (compiler.filter? operation) with
  | error e =>
      obtain ⟨key, hfirst, -⟩ := (prepare_eq_error_iff haccepted hdefine).mp hprepare
      exact absurd (hfinds key hfirst.named) hfirst.unknown
  | ok p => exact ⟨p, bind_eq_ok_iff.mpr ⟨operation, hset ▸ haccept, hprepare⟩⟩

end Build

/-- **A request is refused for exactly the reasons that apply to it, and compiled otherwise.**
What an authorization says has no part in this. -/
theorem compile_refuses_iff (built : DefinitionSet.build rs = .ok s)
    (hset : compiler.definitions = s) (request : Request) :
    (∀ e, compiler.compile request = .error e ↔ request.Refused s e) ∧
      ((∃ statement, compiler.compile request = .ok statement) ↔ ∀ e, ¬ request.Refused s e) := by
  have herror (e) : compiler.compile request = .error e ↔ request.Refused s e :=
    ⟨refused_of_compile built hset, compile_of_refused built hset⟩
  refine ⟨herror, ?_⟩
  simp only [← herror]
  cases compiler.compile request with
  | error e => exact ⟨nofun, fun h ↦ absurd rfl (h e)⟩
  | ok statement => exact ⟨fun _ _ ↦ nofun, fun _ ↦ ⟨statement, rfl⟩⟩

/-- Reads nothing but the cats of persons. -/
def onlyCats : Request := .read "person" { fields := some (.ofNames ["cats"]) }

/-- Creates a person that already has cats, and dogs. -/
def withCats : Request := .create "person" { values := .ofList [("dogs", .null), ("cats", .null)] }

/-- The cats of a person can be read, but only cats say whose they are. -/
theorem compile_refuses_iff_household :
    ∃ rs s, resourcesOf household = .ok rs ∧ DefinitionSet.build rs = .ok s ∧
      (∃ statement, (⟨s, none⟩ : QueryCompiler).compile onlyCats = .ok statement) ∧
      (∀ e, ¬ onlyCats.Refused s e) ∧ withCats.Refused s (.unknownField "person" "cats") := by
  have hsome : ((resourcesOf household).toOption.any fun rs ↦
      (DefinitionSet.build rs).toOption.any fun s ↦
        ((⟨s, none⟩ : QueryCompiler).compile onlyCats).toOption.any fun _ ↦
          decide ((⟨s, none⟩ : QueryCompiler).compile withCats =
            .error (.unknownField "person" "cats"))) = true := by
    decide +kernel
  simp only [Option.any_eq_true, toOption_eq_some_iff, decide_eq_true_iff] at hsome
  obtain ⟨rs, accepted, s, built, statement, hcompiled, hrefused⟩ := hsome
  exact ⟨rs, s, accepted, built, ⟨statement, hcompiled⟩,
    (compile_refuses_iff built rfl onlyCats).2.mp ⟨statement, hcompiled⟩,
    ((compile_refuses_iff built rfl withCats).1 _).mp hrefused⟩

end ResourceSchema
