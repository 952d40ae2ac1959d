import ResourceSchema.Proofs.Request.Answer
import ResourceSchema.Proofs.Request.Outputs

/-!
# Reading one row and reading a list

A read of one row makes its virtual tables for the id of that row alone, and a read of a list makes
them for all ids.  The row is the same either way: what both show of a relationship is what the
tables have for the id of the row.
-/

namespace ResourceSchema

open Sql

variable {rs : List Resource} {r : Resource} {s : DefinitionSet} {d : Definition} {l : Link}
variable {request request' : ReadRequest} {filter filter' : Option String} {c e : ReadCommand}
variable {db : Database} {ps qs : Parameters} {row : Row} {id : Value}

/-- The ids that a relationship relates the row with an id to, if they are in another table: the ids
of the rows whose key is the id, or the foreign ids in the rows of a link table whose local id it
is. -/
def Link.relatedIds (l : Link) (db : Database) (id : Value) : List Value :=
  match l.storage with
  | .ownTable _ => []
  | .hostTable table column =>
    ((db.rows table).filter fun row ↦ (row column).equals id).map (· idColumn)
  | .associative table _ localColumn foreignColumn =>
    ((db.rows table).filter fun row ↦ (row localColumn).equals id).map (· foreignColumn)

/-- The names of all tables: those of the resources, and those that related ids are read from. -/
def DefinitionSet.tableNames (s : DefinitionSet) : List String :=
  s.definitions.flatMap (Definition.readTables · {})

/-- No name in a `WITH` clause is that of a table. -/
def DefinitionSet.WithNamesApart (s : DefinitionSet) : Prop :=
  ∀ d ∈ s.definitions, ∀ l ∈ d.virtualLinks, Name.virtualTable l.name ∉ s.tableNames

instance (s : DefinitionSet) : Decidable s.WithNamesApart :=
  inferInstanceAs (Decidable (∀ d ∈ s.definitions, ∀ l ∈ d.virtualLinks, _))

/-- The row of the result has the id. -/
def ResultRow.hasId (x : ResultRow) (id : Int64) : Bool := x.source idColumn == .int id

/-- `y` is the row `x` with the same in every column, and perhaps with the number of rows behind. -/
structure ResultRow.Agrees (x y : ResultRow) : Prop where
  source : x.source = y.source
  shown : x.shown <+: y.shown

/-- The request is compiled to the statement of a read command. -/
structure QueryCompiler.ReadsBy (compiler : QueryCompiler) (request : Request)
    (statement : Statement) (c : ReadCommand) (ps : Parameters) : Prop where
  prepared : compiler.prepare request = .ok ⟨.read c, ps⟩
  statement : statement = (Prepared.mk (.read c) ps).statement

/-! ## Related ids -/

theorem readTables_subset : d.readTables request ⊆ d.readTables {} := by
  refine List.cons_subset_cons _ (List.map_subset _ fun l hl ↦ ?_)
  obtain ⟨hl, hvirtual, -⟩ := mem_wantedLinks_iff.mp hl
  exact mem_wantedLinks_iff.mpr ⟨hl, hvirtual, rfl⟩

theorem not_captures (apart : s.WithNamesApart) (hd : d ∈ s.definitions)
    (defined : r.define rs = .ok d) (hreads : c.Reads d request) : ¬ c.Captures := by
  rw [captures_iff defined hreads]
  rintro ⟨l, hl, htable⟩
  exact apart d hd l (List.mem_of_mem_filter hl)
    (List.mem_flatMap.mpr ⟨d, hd, readTables_subset htable⟩)

/-- Every virtual table collects the ids of its relationship. -/
theorem collects_eq {placeholder : Option Placeholder} {v : VirtualTable}
    (hv : Definition.virtualTable? placeholder l = some v) :
    v.collects (db.rows v.source) id = l.relatedIds db id := by
  obtain ⟨source, hsource, rfl⟩ := Option.map_eq_some_iff.mp hv
  rw [Link.relatedIds]
  cases hst : l.storage with
  | ownTable column =>
      rw [hst] at hsource
      cases hsource
  | hostTable table column | associative table side localColumn foreignColumn =>
      rw [hst] at hsource
      obtain rfl := Option.some.inj hsource
      rfl

theorem relatedIds_eq (defined : r.define rs = .ok d) (hreads : c.Reads d request)
    (hl : l ∈ d.wantedLinks request) :
    c.relatedIds db id l.virtualTable = l.relatedIds db id := by
  obtain ⟨v, hv⟩ := exists_virtualTable? hl c.row
  have hfind := (find?_key_eq_some_iff (virtualTable_names_nodup defined hreads)).mpr
    ⟨hreads.mem_virtualTables hl hv, name_of_virtualTable? hv⟩
  rw [ReadCommand.relatedIds, hfind, Option.map_some, Option.getD_some, collects_eq hv]

/-- What a read shows of a relationship is what the tables have for the id of the row. -/
theorem mem_shown_iff (defined : r.define rs = .ok d) (hreads : c.Reads d request)
    (hl : l ∈ d.wantedLinks request) {n : Nat} {shown : Shown} :
    (l.output, shown) ∈ (c.resultRow db n row).shown ↔
      shown = .ofIds l.isToMany (l.relatedIds db (row idColumn)) := by
  obtain ⟨counts, houtputs, -⟩ := hreads.outputs
  have houtput : l.output ∈ c.outputs := by
    rw [houtputs]
    exact List.mem_append_left _ (List.mem_append_right _ (List.mem_map_of_mem hl))
  have hshows : l.output.shows (c.relatedIds db (row idColumn)) n row =
      .ofIds l.isToMany (l.relatedIds db (row idColumn)) := by
    rw [← relatedIds_eq defined hreads hl]
    rfl
  rw [← hshows]
  constructor
  · intro h
    obtain ⟨o, -, heq⟩ := List.mem_map.mp h
    obtain ⟨rfl, rfl⟩ := Prod.mk.inj heq
    rfl
  · rintro rfl
    exact List.mem_map.mpr ⟨_, houtput, rfl⟩

/-! ## Rows -/

theorem precedes_trans (a b c : Row) (hab : a.precedes b = true) (hbc : b.precedes c = true) :
    a.precedes c = true := by
  unfold Row.precedes at *
  cases hc : (c idColumn).int? with
  | none => cases (a idColumn).int? <;> rfl
  | some z =>
      cases hb : (b idColumn).int? with
      | none => simp [hb, hc] at hbc
      | some y =>
          cases ha : (a idColumn).int? with
          | none => simp [ha, hb] at hab
          | some x =>
              simp only [ha, hb, hc, decide_eq_true_eq] at hab hbc ⊢
              exact Int64.le_trans hab hbc

theorem precedes_total (a b : Row) : (a.precedes b || b.precedes a) = true := by
  unfold Row.precedes
  cases (a idColumn).int? with
  | none => simp
  | some x =>
      cases (b idColumn).int? with
      | none => rfl
      | some y => simpa using Int64.le_total x y

/-- Items that are not told apart by a stable sort stay in their order. -/
theorem filter_mergeSort {α : Type} {le : α → α → Bool} {p : α → Bool} (l : List α)
    (htrans : ∀ a b c, le a b = true → le b c = true → le a c = true)
    (htotal : ∀ a b, (le a b || le b a) = true)
    (hsame : ∀ a b, p a = true → p b = true → le a b = true) :
    (l.mergeSort le).filter p = l.filter p := by
  have hordered : (l.filter p).Pairwise fun a b ↦ le a b = true :=
    List.pairwise_of_forall_mem_list fun a ha b hb ↦
      hsame a b (List.mem_filter.mp ha).2 (List.mem_filter.mp hb).2
  have hsublist := (List.sublist_mergeSort htrans htotal hordered List.filter_sublist).filter p
  rw [List.filter_filter, show (fun a ↦ p a && p a) = p from funext fun a ↦ Bool.and_self _]
    at hsublist
  exact (hsublist.eq_of_length ((List.mergeSort_perm l le).filter p).length_eq.symm).symm

/-- A read is of the row with the id that the request asks for. -/
theorem map_row_of_prepareRead (h : d.prepareRead request filter = .ok ⟨.read c, ps⟩) :
    c.row.map ps.meaning = request.id.map Value.int := by
  obtain ⟨-, -, h⟩ := bind_eq_ok_iff.mp h
  dsimp only at h
  split at h
  · next id hid =>
    obtain ⟨⟩ := pure_eq_ok_iff.mp h
    rw [hid]
    rfl
  · next hid =>
    rw [hid]
    split at h
    · obtain ⟨⟩ := pure_eq_ok_iff.mp h
      rfl
    · obtain ⟨⟩ := pure_eq_ok_iff.mp h
      rfl

theorem selects_eq : c.selects db ps row =
    ((c.row.map ps.meaning).all ((row idColumn).equals ·) && c.filter.all (db.meets · row)) := by
  rw [ReadCommand.selects, Option.all_map]

/-- A read of one row selects the rows that a read of a list has with its id, in the same order. -/
theorem arrange_selected {id : Int64} (htable : c.table = e.table) (hfilter : c.filter = e.filter)
    (hone : c.row.map ps.meaning = some (.int id)) (hmany : e.row = none) :
    c.arrange (c.selected db ps) =
      (e.arrange (e.selected db qs)).filter fun row ↦ row idColumn == .int id := by
  obtain ⟨placeholder, hplaceholder, -⟩ := Option.map_eq_some_iff.mp hone
  have hsame (a b : Row) (ha : (a idColumn == .int id) = true)
      (hb : (b idColumn == .int id) = true) : a.precedes b = true := by
    rw [Row.precedes, beq_iff_eq.mp ha, beq_iff_eq.mp hb]
    exact decide_eq_true (Int64.le_refl id)
  have hleft : c.arrange (c.selected db ps) = c.selected db ps := by
    rw [ReadCommand.arrange, hplaceholder]
    rfl
  have hright : e.arrange (e.selected db qs) = (e.selected db qs).mergeSort Row.precedes := by
    rw [ReadCommand.arrange, hmany]
    rfl
  rw [hleft, hright, filter_mergeSort _ precedes_trans precedes_total hsame,
    ReadCommand.selected, ReadCommand.selected, List.filter_filter, htable]
  have hnull : Value.int id ≠ .null := fun heq ↦ nomatch heq
  refine List.filter_congr fun row _ ↦ ?_
  rw [selects_eq, selects_eq, hone, hmany, hfilter, Option.all_some, equals_eq_beq hnull]
  rfl

/-! ## Both reads -/

/-- What two reads of the same fields show of a row is the same, apart from the number of rows. -/
theorem agrees_of_reads (defined : r.define rs = .ok d) (hc : c.Reads d request)
    (he : e.Reads d request') (hfields : request.fields = request'.fields) {counts : List Output}
    (houtputs : c.outputs = d.baseOutputs request ++ (d.wantedLinks request).map Link.output)
    (hcounts : e.outputs = c.outputs ++ counts) (n n' : Nat) (row : Row) :
    (c.resultRow db n row).Agrees (e.resultRow db n' row) := by
  have hwanted : d.wantedLinks request = d.wantedLinks request' := by
    simp only [Definition.wantedLinks, ReadRequest.wants, hfields]
  have hshows (o) (ho : o ∈ c.outputs) : o.shows (c.relatedIds db (row idColumn)) n row =
      o.shows (e.relatedIds db (row idColumn)) n' row := by
    rw [houtputs] at ho
    rcases List.mem_append.mp ho with ho | ho
    · rcases mem_baseOutputs ho with rfl | rfl | ⟨f, -, rfl⟩ | ⟨l, -, column, -, rfl⟩ <;> rfl
    · obtain ⟨l, hl, rfl⟩ := List.mem_map.mp ho
      show Shown.ofIds l.isToMany _ = Shown.ofIds l.isToMany _
      rw [relatedIds_eq defined hc hl, relatedIds_eq defined he (hwanted ▸ hl)]
  refine ⟨rfl, counts.map fun o ↦ (o, o.shows (e.relatedIds db (row idColumn)) n' row), ?_⟩
  rw [ReadCommand.resultRow, ReadCommand.resultRow, hcounts, List.map_append,
    List.map_congr_left fun o ho ↦ congrArg (Prod.mk o) (hshows o ho)]

/-- A request to read is compiled to the statement of a read of a resource. -/
theorem exists_readsBy {compiler : QueryCompiler} (hset : compiler.definitions = s) {name : String}
    {statement : Statement} (compiled : compiler.compile (.read name request) = .ok statement) :
    ∃ d c ps, s.get? name = some d ∧ compiler.ReadsBy (.read name request) statement c ps ∧
      d.prepareRead request (compiler.filter? (.read d request request.action)) =
        .ok ⟨.read c, ps⟩ := by
  obtain ⟨p, hp, rfl⟩ := compile_eq_ok_iff.mp compiled
  obtain ⟨operation, haccept, hprepare⟩ := bind_eq_ok_iff.mp hp
  rw [hset] at haccept
  cases acceptedAs_of_accept haccept with
  | @read _ d _ found allowed =>
      obtain ⟨c, hc, -⟩ := prepareRead_reads hprepare
      obtain ⟨command, ps⟩ := p
      obtain rfl : command = .read c := hc
      exact ⟨d, c, ps, found, ⟨hp, rfl⟩, hprepare⟩

/-- A read of a resource of such a set is answered by every database. -/
theorem listed_of_prepareRead (apart : s.WithNamesApart) (hd : d ∈ s.definitions)
    (defined : r.define rs = .ok d) (h : d.prepareRead request filter = .ok ⟨.read c, ps⟩)
    (db : Database) : c.Reads d request ∧ c.listed db ps = .ok ((c.arrange (c.selected db ps)).map
      (c.resultRow db (c.selected db ps).length)) := by
  obtain ⟨c', hc, hreads, -⟩ := prepareRead_reads h
  obtain rfl := Command.read.inj hc
  exact ⟨hreads, ReadCommand.listed_eq hreads (virtualTable_names_nodup defined hreads)
    (not_captures apart hd defined hreads)⟩

section Listed

variable (apart : s.WithNamesApart) (hd : d ∈ s.definitions) (defined : r.define rs = .ok d)
include apart hd defined

/-- Every row of a result shows what the tables have for its id. -/
theorem mem_shown_iff_of_listed (h : d.prepareRead request filter = .ok ⟨.read c, ps⟩)
    {listed : List ResultRow} (hlisted : c.listed db ps = .ok listed) {x : ResultRow}
    (hx : x ∈ listed) (hl : l ∈ d.wantedLinks request) {shown : Shown} :
    (l.output, shown) ∈ x.shown ↔
      shown = .ofIds l.isToMany (l.relatedIds db (x.source idColumn)) := by
  obtain ⟨hreads, hlisted'⟩ := listed_of_prepareRead apart hd defined h db
  obtain rfl := Except.ok.inj (hlisted.symm.trans hlisted')
  obtain ⟨row, -, rfl⟩ := List.mem_map.mp hx
  exact mem_shown_iff defined hreads hl

/-- A read of one row finds no other. -/
theorem hasId_of_listed {id : Int64} {fields : Option NameSet} {page : Option Page}
    (h : d.prepareRead ⟨some id, fields, page⟩ filter = .ok ⟨.read c, ps⟩)
    {found : List ResultRow} (hfound : c.listed db ps = .ok found) {x : ResultRow}
    (hx : x ∈ found) : x.source idColumn = .int id := by
  obtain ⟨-, hfound'⟩ := listed_of_prepareRead apart hd defined h db
  obtain rfl := Except.ok.inj (hfound.symm.trans hfound')
  obtain ⟨row, hrow, rfl⟩ := List.mem_map.mp hx
  obtain ⟨placeholder, hplaceholder, hid⟩ := Option.map_eq_some_iff.mp (map_row_of_prepareRead h)
  exact (ReadCommand.id_of_mem_selected
    (ReadCommand.mem_arrange.mp hrow) hplaceholder).symm.trans hid

/-- If the rows of both meet the same condition, then those that are read alone are the rows of the
list with the id. -/
theorem forall₂_agrees_of_listed {id : Int64} {fields : Option NameSet} {page page' : Option Page}
    (hone : d.prepareRead ⟨some id, fields, page⟩ filter = .ok ⟨.read c, ps⟩)
    (hlist : d.prepareRead ⟨none, fields, page'⟩ filter' = .ok ⟨.read e, qs⟩)
    (hfilter : c.filter = e.filter) {found listed : List ResultRow}
    (hfound : c.listed db ps = .ok found) (hlisted : e.listed db qs = .ok listed) :
    List.Forall₂ ResultRow.Agrees found (listed.filter (·.hasId id)) := by
  obtain ⟨hc, hfound'⟩ := listed_of_prepareRead apart hd defined hone db
  obtain rfl := Except.ok.inj (hfound.symm.trans hfound')
  obtain ⟨he, hlisted'⟩ := listed_of_prepareRead apart hd defined hlist db
  obtain rfl := Except.ok.inj (hlisted.symm.trans hlisted')
  obtain ⟨c', hc', houtputs⟩ := outputs_of_prepareRead hone
  obtain rfl := Command.read.inj hc'
  obtain ⟨e', he', hcounts⟩ := outputs_of_prepareRead hlist
  obtain rfl := Command.read.inj he'
  rw [Definition.counts, Option.isNone_some, Bool.false_and, if_neg Bool.false_ne_true,
    List.append_nil] at houtputs
  have hmore : e.outputs =
      c.outputs ++ if d.counts ⟨none, fields, page'⟩ then [.totalCount] else [] := by
    rw [houtputs]
    exact hcounts
  rw [List.filter_map, arrange_selected (hc.table.trans he.table.symm) hfilter
    (map_row_of_prepareRead hone) (Option.map_eq_none_iff.mp (map_row_of_prepareRead hlist)),
    List.forall₂_map_left_iff, List.forall₂_map_right_iff]
  exact List.forall₂_same.mpr fun row _ ↦ agrees_of_reads defined hc he rfl houtputs hmore _ _ row

end Listed

/-- Nothing narrows a read unless there is an authorization. -/
theorem QueryCompiler.ReadsBy.filter_eq_none {compiler : QueryCompiler} {request : Request}
    {statement : Statement} (h : compiler.ReadsBy request statement c ps)
    (unauthorized : compiler.authorization = none) : c.filter = none := by
  obtain ⟨operation, -, hprepare⟩ := bind_eq_ok_iff.mp h.prepared
  rw [QueryCompiler.filter?_eq_none unauthorized] at hprepare
  exact filter_of_prepare hprepare rfl

/-- **The row that is read alone is the row in the list.**  If no name in a `WITH` clause is that of
a table, then every database answers a read of one row and a read of a list with the same fields.
Where the authorization, if there is one, narrows both alike, the rows that are read alone are those
of the list that have the id, and show the same in every column.  Of each relationship that is read
from another table they show the related ids in that table, or the first one for a to-one
relationship, and `NULL` if there are none. -/
theorem read_one_agrees_with_list (built : DefinitionSet.build rs = .ok s)
    (apart : s.WithNamesApart) {compiler : QueryCompiler} (hset : compiler.definitions = s)
    {name : String} {id : Int64} {fields : Option NameSet} {page page' : Option Page}
    {one list : Statement}
    (compiledOne : compiler.compile (.read name ⟨some id, fields, page⟩) = .ok one)
    (compiledList : compiler.compile (.read name ⟨none, fields, page'⟩) = .ok list) :
    ∃ d c ps e qs, s.get? name = some d ∧
      compiler.ReadsBy (.read name ⟨some id, fields, page⟩) one c ps ∧
      compiler.ReadsBy (.read name ⟨none, fields, page'⟩) list e qs ∧
      ∀ db, ∃ found listed, c.listed db ps = .ok found ∧ e.listed db qs = .ok listed ∧
        (c.filter = e.filter →
          List.Forall₂ ResultRow.Agrees found (listed.filter (·.hasId id))) ∧
        ∀ x ∈ found ++ listed.filter (·.hasId id), ∀ l ∈ d.wantedLinks { fields }, ∀ shown,
          (l.output, shown) ∈ x.shown ↔
            shown = .ofIds l.isToMany (l.relatedIds db (.int id)) := by
  obtain ⟨d, c, ps, hget, hone, hprepareOne⟩ := exists_readsBy hset compiledOne
  obtain ⟨d', e, qs, hget', hlist, hprepareList⟩ := exists_readsBy hset compiledList
  obtain rfl := Option.some.inj (hget.symm.trans hget')
  refine ⟨d, c, ps, e, qs, hget, hone, hlist, fun db ↦ ?_⟩
  obtain ⟨hd, -⟩ := mem_of_get? hget
  obtain ⟨-, defined⟩ := define_of_mem built hd
  obtain ⟨-, hfound⟩ := listed_of_prepareRead apart hd defined hprepareOne db
  obtain ⟨-, hlisted⟩ := listed_of_prepareRead apart hd defined hprepareList db
  refine ⟨_, _, hfound, hlisted, fun hfilter ↦ ?_, fun x hx l hl shown ↦ ?_⟩
  · exact forall₂_agrees_of_listed apart hd defined hprepareOne hprepareList hfilter hfound hlisted
  · rcases List.mem_append.mp hx with hx | hx
    · rw [← hasId_of_listed apart hd defined hprepareOne hfound hx]
      exact mem_shown_iff_of_listed apart hd defined hprepareOne hfound hx hl
    · obtain ⟨hx, hid⟩ := List.mem_filter.mp hx
      rw [← beq_iff_eq.mp hid]
      exact mem_shown_iff_of_listed apart hd defined hprepareList hlisted hx hl

/-- A row with values in some columns, and `NULL` in all others. -/
def Sql.Row.ofList (values : List (String × Value)) : Row := fun column ↦
  (values.lookup column.raw).getD .null

/-- Two persons who are friends.  The first has two cats, the second has one, and a stray has no
owner. -/
def cattery : Database where
  rows table :=
    if table.raw = "person" then [.ofList [("id", .int 2)], .ofList [("id", .int 1)]]
    else if table.raw = "cat" then
      [.ofList [("id", .int 10), ("owner_id", .int 1)],
        .ofList [("id", .int 11), ("owner_id", .int 2)],
        .ofList [("id", .int 12), ("owner_id", .int 1)], .ofList [("id", .int 13)]]
    else if table.raw = "person_person" then
      [.ofList [("person_id", .int 1), ("friends_id", .int 2)]]
    else []
  meets _ _ := true

/-- Read alone or in the list, the first person has both cats. -/
theorem read_one_agrees_with_list_household :
    ∃ rs s one list, resourcesOf household = .ok rs ∧ DefinitionSet.build rs = .ok s ∧
      s.WithNamesApart ∧
      (⟨s, none⟩ : QueryCompiler).compile (.read "person" ⟨some 1, none, none⟩) = .ok one ∧
      (⟨s, none⟩ : QueryCompiler).compile (.read "person" ⟨none, none, none⟩) = .ok list ∧
      ∃ d c ps e qs, s.get? "person" = some d ∧
        (⟨s, none⟩ : QueryCompiler).ReadsBy (.read "person" ⟨some 1, none, none⟩) one c ps ∧
        (⟨s, none⟩ : QueryCompiler).ReadsBy (.read "person" ⟨none, none, none⟩) list e qs ∧
        ∃ found listed, c.listed cattery ps = .ok found ∧ e.listed cattery qs = .ok listed ∧
          found.length = 1 ∧ List.Forall₂ ResultRow.Agrees found (listed.filter (·.hasId 1)) ∧
          ∃ l ∈ d.wantedLinks {}, ∀ x ∈ found,
            (l.output, .array [.int 10, .int 12]) ∈ x.shown := by
  have hsome : ((resourcesOf household).toOption.any fun rs ↦
      (DefinitionSet.build rs).toOption.any fun s ↦ decide s.WithNamesApart &&
        (((⟨s, none⟩ : QueryCompiler).compile (.read "person" {})).toOption.isSome &&
        ((⟨s, none⟩ : QueryCompiler).prepare (.read "person" ⟨some 1, none, none⟩)).toOption.any
          fun p ↦ p.command.read?.any fun c ↦
            (c.listed cattery p.parameters).toOption.any (·.length == 1) &&
            (s.get? "person").any fun d ↦ (d.wantedLinks {}).any fun l ↦
              l.isToMany && l.relatedIds cattery (.int 1) == [.int 10, .int 12])) = true := by
    decide +kernel
  simp only [Option.any_eq_true, List.any_eq_true, Option.isSome_iff_exists, toOption_eq_some_iff,
    read?_eq_some_iff, Bool.and_eq_true, decide_eq_true_iff, beq_iff_eq] at hsome
  obtain ⟨rs, accepted, s, built, apart, ⟨list, compiledList⟩, p, hp, c, hc,
    ⟨found, hfound, hlength⟩, d, hget, l, hl, hmany, hids⟩ := hsome
  have compiledOne : (⟨s, none⟩ : QueryCompiler).compile (.read "person" ⟨some 1, none, none⟩) =
      .ok p.statement := compile_eq_ok_iff.mpr ⟨p, hp, rfl⟩
  obtain ⟨d', c', ps, e, qs, hget', hone, hlist, hanswers⟩ :=
    read_one_agrees_with_list built apart rfl compiledOne compiledList
  obtain rfl := Option.some.inj (hget.symm.trans hget')
  obtain rfl := Except.ok.inj (hp.symm.trans hone.prepared)
  obtain rfl := Command.read.inj hc
  obtain ⟨found', listed, hfound', hlisted, hagrees, hshown⟩ := hanswers cattery
  obtain rfl := Except.ok.inj (hfound.symm.trans hfound')
  refine ⟨rs, s, _, list, accepted, built, apart, compiledOne, compiledList, d, _, _, e, qs, hget,
    hone, hlist, found, listed, hfound, hlisted, hlength, hagrees ?_, l, hl, fun x hx ↦ ?_⟩
  · rw [hone.filter_eq_none rfl, hlist.filter_eq_none rfl]
  · refine (hshown x (List.mem_append_left _ hx) l hl _).mpr ?_
    rw [hmany, hids]
    rfl

end ResourceSchema
