import ResourceSchema.Proofs.Request.Preparation
import ResourceSchema.Proofs.Schema.Creation
import ResourceSchema.Proofs.Sql.Parameters

/-!
# Request data stays out of the text

Two requests of one shape ask for the same fields or write the same keys, with or without an id.
They are prepared as one command, whose placeholders stand for parameters of the same names, or they
fail with one error.  So ids, pages and values show in the values of parameters and nowhere else.
-/

namespace ResourceSchema

open Sql

variable {d : Definition} {compiler : QueryCompiler} {filter : Option String}
variable {r q : ReadRequest} {values others : SortedMap Json}

/-! ## What shows of a command -/

/-- A command, and the names of its parameters in the order of their placeholders. -/
def Prepared.outline (p : Prepared) : Command × List String := (p.command, p.parameters.names)

/-- The text of a statement, and the names of its parameters in the order of their placeholders. -/
def Sql.Statement.outline (s : Statement) : String × List String := (s.text, s.parameters.names)

/-- The assignments of a write so far, and the names of its parameters. -/
def assignedOutline (state : List Assignment × Parameters) : List Assignment × List String :=
  (state.1, state.2.names)

/-- Both ids are there, or none is. -/
theorem eq_none_or_some {id other : Option Int64} (row : id.isSome = other.isSome) :
    (id = none ∧ other = none) ∨ ∃ i j, id = some i ∧ other = some j := by
  cases id with
  | none =>
      cases other with
      | none => exact .inl ⟨rfl, rfl⟩
      | some j => cases row
  | some i =>
      cases other with
      | none => cases row
      | some j => exact .inr ⟨i, j, rfl, rfl⟩

/-! ## Reads -/

theorem wants_congr (hfields : r.fields = q.fields) (name : String) :
    r.wants name = q.wants name := by
  rw [ReadRequest.wants, ReadRequest.wants, hfields]

theorem wantedLinks_congr (hfields : r.fields = q.fields) : d.wantedLinks r = d.wantedLinks q := by
  simp only [Definition.wantedLinks, wants_congr hfields]

theorem baseOutputs_congr (hfields : r.fields = q.fields) : d.baseOutputs r = d.baseOutputs q := by
  simp only [Definition.baseOutputs, wants_congr hfields, hfields]

theorem prepareRead_congr (hfields : r.fields = q.fields) (hrow : r.id.isSome = q.id.isSome) :
    (d.prepareRead r filter).map Prepared.outline =
      (d.prepareRead q filter).map Prepared.outline := by
  unfold Definition.prepareRead
  rw [hfields, wantedLinks_congr hfields, baseOutputs_congr hfields]
  refine map_bind_same fun _ ↦ ?_
  rcases eq_none_or_some hrow with ⟨hr, hq⟩ | ⟨i, j, hr, hq⟩
  · rw [hr, hq]
    dsimp only
    split
    · rfl
    · rfl
  · rw [hr, hq]
    rfl

/-! ## Writes -/

theorem assignOne_congr {s t : List Assignment × Parameters} {e e' : String × Json}
    (hst : assignedOutline s = assignedOutline t) (hkey : e.1 = e'.1) :
    (d.assignOne s e).map assignedOutline = (d.assignOne t e').map assignedOutline := by
  obtain ⟨hassignments, hnames⟩ := Prod.mk.inj hst
  obtain ⟨hplaceholder, hbound⟩ :=
    Parameters.bind_congr hnames e.1 (.ofJson e.2) (.ofJson e'.2)
  unfold Definition.assignOne
  rw [← hkey]
  refine map_bind_same fun column ↦ ?_
  simp only [Except.map, pure, Except.pure, assignedOutline, hassignments, hplaceholder, hbound]

theorem assign_congr (hkeys : values.keys = others.keys) :
    (d.assign values).map assignedOutline = (d.assign others).map assignedOutline := by
  rw [assign_eq, assign_eq]
  exact map_foldlM_congr (fun _ _ _ _ ↦ assignOne_congr) hkeys rfl

theorem isEmpty_congr (hkeys : values.keys = others.keys) : values.isEmpty = others.isEmpty := by
  have hlength := congrArg List.isEmpty hkeys
  rwa [SortedMap.keys, SortedMap.keys, List.isEmpty_map, List.isEmpty_map] at hlength

theorem prepareCreate_congr (hkeys : values.keys = others.keys) :
    ((Operation.create d values).prepare filter).map Prepared.outline =
      ((Operation.create d others).prepare filter).map Prepared.outline := by
  refine map_bind_congr (assign_congr hkeys) fun a b hab ↦ ?_
  obtain ⟨hassignments, hnames⟩ := Prod.mk.inj hab
  simp only [Except.map, pure, Except.pure, Prepared.outline, hassignments, hnames]

theorem prepareUpdate_congr (filter : Option String) (hkeys : values.keys = others.keys)
    (id other : Int64) :
    ((Operation.update d id values).prepare filter).map Prepared.outline =
      ((Operation.update d other others).prepare filter).map Prepared.outline := by
  refine map_bind_congr (assign_congr hkeys) fun a b hab ↦ ?_
  obtain ⟨hassignments, hnames⟩ := Prod.mk.inj hab
  obtain ⟨hrow, hbound⟩ := Parameters.bind_congr hnames "id" (.int id) (.int other)
  simp only [Except.map, pure, Except.pure, Prepared.outline, hassignments, hrow, hbound]

/-! ## Requests of one shape -/

/-- The requests ask for the same, but for ids, pages and values. -/
inductive Request.SameShape : Request → Request → Prop
  | read {resource : String} {r q : ReadRequest} (fields : r.fields = q.fields)
      (row : r.id.isSome = q.id.isSome) : SameShape (.read resource r) (.read resource q)
  | create {resource : String} {w v : WriteRequest} (keys : w.values.keys = v.values.keys) :
      SameShape (.create resource w) (.create resource v)
  | update {resource : String} {w v : WriteRequest} (keys : w.values.keys = v.values.keys)
      (row : w.id.isSome = v.id.isSome) : SameShape (.update resource w) (.update resource v)
  | delete {resource : String} {id other : Option Int64} (row : id.isSome = other.isSome) :
      SameShape (.delete resource id) (.delete resource other)

theorem prepare_congr (unauthorized : compiler.authorization = none) {a b : Request}
    (h : a.SameShape b) :
    (compiler.prepare a).map Prepared.outline = (compiler.prepare b).map Prepared.outline := by
  simp only [QueryCompiler.prepare, QueryCompiler.filter?_eq_none unauthorized]
  cases h with
  | @read resource r q fields row =>
      have haction : r.action = q.action := by
        rw [ReadRequest.action, ReadRequest.action, row]
      simp only [Request.accept, bind_assoc, pure_bind, haction]
      refine map_bind_same fun d ↦ ?_
      exact prepareRead_congr fields row
  | create keys =>
      simp only [Request.accept, bind_assoc, pure_bind]
      refine map_bind_same fun d ↦ ?_
      exact prepareCreate_congr keys
  | update keys row =>
      simp only [Request.accept, bind_assoc]
      refine map_bind_same fun d ↦ ?_
      rcases eq_none_or_some row with ⟨hw, hv⟩ | ⟨i, j, hw, hv⟩
      · rw [hw, hv]
        rfl
      · rw [hw, hv, isEmpty_congr keys]
        simp only [Definition.requireId]
        split
        · exact prepareRead_congr (r := { id := some i }) (q := { id := some j }) rfl rfl
        · exact prepareUpdate_congr none keys i j
  | delete row =>
      simp only [Request.accept, bind_assoc]
      refine map_bind_same fun d ↦ ?_
      rcases eq_none_or_some row with ⟨rfl, rfl⟩ | ⟨i, j, rfl, rfl⟩
      · rfl
      · rfl

/-- **Request data stays out of the text.**  Requests of one shape compile to one text with
parameters of the same names, or fail with one error. -/
theorem compile_sameShape (unauthorized : compiler.authorization = none) {a b : Request}
    (h : a.SameShape b) :
    (compiler.compile a).map Statement.outline = (compiler.compile b).map Statement.outline := by
  refine map_bind_congr (prepare_congr unauthorized h) fun p p' hp ↦ ?_
  obtain ⟨hcommand, hnames⟩ := Prod.mk.inj hp
  simp only [Except.map, pure, Except.pure, Statement.outline, Prepared.statement, hcommand, hnames]

/-- Gives a cat an owner. -/
def adopt (cat : Int64) (owner : Json) : Request :=
  .update "cat" { id := some cat, values := .ofList [("owner", owner)] }

theorem compile_sameShape_adopt :
    ∃ rs s, resourcesOf household = .ok rs ∧ DefinitionSet.build rs = .ok s ∧
      ∃ statement other : Statement,
        (⟨s, none⟩ : QueryCompiler).compile (adopt 7 (.string "'; DROP TABLE cat; --")) =
          .ok statement ∧
        (⟨s, none⟩ : QueryCompiler).compile (adopt 0 .null) = .ok other ∧
        statement.outline = other.outline := by
  have hsome : ((resourcesOf household).toOption.bind fun rs ↦
      (DefinitionSet.build rs).toOption.bind fun s ↦
        ((⟨s, none⟩ : QueryCompiler).compile
          (adopt 7 (.string "'; DROP TABLE cat; --"))).toOption.bind fun _ ↦
          ((⟨s, none⟩ : QueryCompiler).compile (adopt 0 .null)).toOption).isSome = true := by
    decide +kernel
  obtain ⟨other, h⟩ := Option.isSome_iff_exists.mp hsome
  simp only [Option.bind_eq_some_iff, toOption_eq_some_iff] at h
  obtain ⟨rs, hrs, s, hs, statement, hstatement, hother⟩ := h
  have hshape : (adopt 7 (.string "'; DROP TABLE cat; --")).SameShape (adopt 0 .null) :=
    .update (by decide +kernel) rfl
  have unauthorized : (⟨s, none⟩ : QueryCompiler).authorization = none := rfl
  have halike := compile_sameShape unauthorized hshape
  rw [hstatement, hother] at halike
  exact ⟨rs, s, hrs, hs, statement, other, hstatement, hother, Except.ok.inj halike⟩

end ResourceSchema
