import Mathlib.Data.List.Induction
import ResourceSchema.Proofs.Iteration
import ResourceSchema.Proofs.Sql.Parameters

/-!
# Values that are bound one after the other

Text is written while values are still being bound, so a placeholder has to stand for the same
parameter in the end as when it was handed out.  Binding either leaves the parameters as they are
or adds one behind all others.  Hence the names stand in the order in which they were bound first,
each with the value that came with it then, and every placeholder is the position of its name.
-/

namespace ResourceSchema.Sql.Parameters

variable {ps : Parameters} {name : String} {value : Value} {calls : List (String × Value)}
variable {call : String × Value} {place : Placeholder} {parameter : Parameter}

/-- Binds values one after the other; the placeholders are in the order of the calls. -/
def bindAll (ps : Parameters) : List (String × Value) → List Placeholder × Parameters
  | [] => ([], ps)
  | call :: rest =>
    let (place, next) := ps.bind call.1 call.2
    let (places, last) := next.bindAll rest
    (place :: places, last)

theorem bindAll_append (ps : Parameters) (calls more : List (String × Value)) :
    ps.bindAll (calls ++ more) =
      ((ps.bindAll calls).1 ++ ((ps.bindAll calls).2.bindAll more).1,
        ((ps.bindAll calls).2.bindAll more).2) := by
  induction calls generalizing ps with
  | nil => rfl
  | cons call rest ih => simp only [List.cons_append, bindAll, ih]

theorem bindAll_concat (ps : Parameters) (calls : List (String × Value))
    (call : String × Value) :
    ps.bindAll (calls ++ [call]) =
      ((ps.bindAll calls).1 ++ [((ps.bindAll calls).2.bind call.1 call.2).1],
        ((ps.bindAll calls).2.bind call.1 call.2).2) :=
  bindAll_append ps calls [call]

/-! ## One value -/

theorem names_concat (ps : Parameters) (parameter : Parameter) :
    (mk (ps.list ++ [parameter])).names = ps.names ++ [parameter.name] :=
  List.map_append

theorem bind_of_mem (h : name ∈ ps.names) (value : Value) :
    ps.bind name value = (⟨ps.names.idxOf name + 1⟩, ps) := by
  have hsome : ps.position? name = some (ps.names.idxOf name) := by
    rw [position?_eq, List.findIdx?_eq_some_iff_findIdx_eq]
    exact ⟨List.idxOf_lt_length_of_mem h, rfl⟩
  rw [bind, hsome]

/-- Binding a value leaves the parameters as they are or adds one. -/
theorem exists_list_bind (ps : Parameters) (name : String) (value : Value) :
    ∃ more, (ps.bind name value).2.list = ps.list ++ more := by
  by_cases h : name ∈ ps.names
  · exact ⟨[], by rw [bind_of_mem h, List.append_nil]⟩
  · exact ⟨[⟨name, value⟩], by rw [bind_of_notMem h]⟩

/-- A placeholder that stands for something still stands for it when another value is bound. -/
theorem at?_bind (h : ps.at? place = some parameter) (name : String) (value : Value) :
    (ps.bind name value).2.at? place = some parameter := by
  obtain ⟨more, hmore⟩ := exists_list_bind ps name value
  have hkept : (mk (ps.list ++ more)).at? place = some parameter := at?_of_prefix h
  rwa [← hmore] at hkept

theorem bind_place (ps : Parameters) (name : String) (value : Value) :
    name ∈ (ps.bind name value).2.names ∧
      (ps.bind name value).1 = ⟨(ps.bind name value).2.names.idxOf name + 1⟩ := by
  by_cases h : name ∈ ps.names
  · rw [bind_of_mem h]
    exact ⟨h, rfl⟩
  · rw [bind_of_notMem h, names_concat, List.idxOf_append_of_notMem h, List.idxOf_cons_self,
      names, List.length_map]
    exact ⟨List.mem_append_right _ List.mem_cons_self, rfl⟩

/-- A name keeps its position when another value is bound. -/
theorem idxOf_names_bind (h : name ∈ ps.names) (other : String) (value : Value) :
    name ∈ (ps.bind other value).2.names ∧
      (ps.bind other value).2.names.idxOf name = ps.names.idxOf name := by
  obtain ⟨more, hmore⟩ := exists_list_bind ps other value
  rw [names, hmore, List.map_append]
  exact ⟨List.mem_append_left _ h, List.idxOf_append_of_mem h⟩

/-! ## The parameters in the end -/

/-- The names in the order in which they were bound first, with the values of that time. -/
structure FirstBindings (calls : List (String × Value)) (ps : Parameters) : Prop where
  nodup : ps.names.Nodup
  bound : ∀ name, name ∈ ps.names ↔ name ∈ calls.map Prod.fst
  inOrder : ps.names.Pairwise fun a b ↦
    (calls.map Prod.fst).idxOf a < (calls.map Prod.fst).idxOf b
  first : ∀ parameter ∈ ps.list, calls.lookup parameter.name = some parameter.value

theorem firstBindings_empty : FirstBindings [] empty where
  nodup := .nil
  bound := fun _ ↦ Iff.rfl
  inOrder := .nil
  first := nofun

namespace FirstBindings

/-- Names that were bound keep their order when another call follows. -/
theorem inOrder_concat (h : FirstBindings calls ps) (call : String × Value) :
    ps.names.Pairwise fun a b ↦ ((calls ++ [call]).map Prod.fst).idxOf a <
      ((calls ++ [call]).map Prod.fst).idxOf b := by
  refine h.inOrder.imp_of_mem fun {a b} ha hb hab ↦ ?_
  rw [List.map_append, List.idxOf_append_of_mem ((h.bound a).mp ha),
    List.idxOf_append_of_mem ((h.bound b).mp hb)]
  exact hab

theorem first_concat (h : FirstBindings calls ps) (call : String × Value) :
    ∀ parameter ∈ ps.list, (calls ++ [call]).lookup parameter.name = some parameter.value := by
  intro parameter hparameter
  rw [List.lookup_append, h.first parameter hparameter, Option.some_or]

/-- The value of a name that is there does not matter. -/
theorem bind_of_mem (h : FirstBindings calls ps) (hmem : call.1 ∈ ps.names) :
    FirstBindings (calls ++ [call]) ps where
  nodup := h.nodup
  bound := by
    intro name
    rw [h.bound, List.map_append, List.mem_append, List.map_singleton, List.mem_singleton]
    refine ⟨.inl, ?_⟩
    rintro (hname | rfl)
    · exact hname
    · exact (h.bound _).mp hmem
  inOrder := h.inOrder_concat call
  first := h.first_concat call

/-- A new name comes behind all others. -/
theorem bind_of_notMem (h : FirstBindings calls ps) (hnew : call.1 ∉ ps.names) :
    FirstBindings (calls ++ [call]) ⟨ps.list ++ [⟨call.1, call.2⟩]⟩ where
  nodup := by
    rw [names_concat, ← List.concat_eq_append]
    exact h.nodup.concat hnew
  bound := by
    intro name
    rw [names_concat, List.map_append, List.mem_append, List.mem_append, h.bound,
      List.map_singleton]
  inOrder := by
    have hcalls : call.1 ∉ calls.map Prod.fst := fun hcall ↦ hnew ((h.bound _).mpr hcall)
    rw [names_concat, List.pairwise_append]
    refine ⟨h.inOrder_concat call, List.pairwise_singleton _ _, fun a ha b hb ↦ ?_⟩
    obtain rfl := List.mem_singleton.mp hb
    have ha' := (h.bound a).mp ha
    rw [List.map_append, List.idxOf_append_of_mem ha', List.idxOf_append_of_notMem hcalls]
    exact Nat.lt_add_right _ (List.idxOf_lt_length_of_mem ha')
  first := by
    rw [List.forall_mem_append, List.forall_mem_singleton]
    have hnone : calls.lookup call.1 = none :=
      lookup_eq_none_iff_not_mem.mpr ((h.bound _).not.mp hnew)
    refine ⟨h.first_concat call, ?_⟩
    rw [List.lookup_append, hnone, Option.none_or]
    exact List.lookup_cons_self

theorem bind (h : FirstBindings calls ps) (call : String × Value) :
    FirstBindings (calls ++ [call]) (ps.bind call.1 call.2).2 := by
  by_cases hmem : call.1 ∈ ps.names
  · rw [Parameters.bind_of_mem hmem]
    exact h.bind_of_mem hmem
  · rw [Parameters.bind_of_notMem hmem]
    exact h.bind_of_notMem hmem

end FirstBindings

theorem firstBindings_bindAll (calls : List (String × Value)) :
    FirstBindings calls (empty.bindAll calls).2 := by
  induction calls using List.reverseRecOn with
  | nil => exact firstBindings_empty
  | append_singleton calls call ih =>
      rw [bindAll_concat]
      exact ih.bind call

/-- What is found under a name is the parameter of that name. -/
theorem value?_eq_some_iff (hnodup : ps.names.Nodup) :
    ps.value? name = some value ↔ ⟨name, value⟩ ∈ ps.list := by
  simp only [value?, Option.map_eq_some_iff, find?_key_eq_some_iff hnodup]
  constructor
  · rintro ⟨parameter, ⟨hmem, rfl⟩, rfl⟩
    exact hmem
  · exact fun hmem ↦ ⟨_, ⟨hmem, rfl⟩, rfl⟩

theorem value?_eq_none_iff : ps.value? name = none ↔ name ∉ ps.names := by
  simp [value?, names]

theorem FirstBindings.value?_eq_lookup (h : FirstBindings calls ps) (name : String) :
    ps.value? name = calls.lookup name := by
  cases hvalue : ps.value? name with
  | some value => exact (h.first _ ((value?_eq_some_iff h.nodup).mp hvalue)).symm
  | none =>
      have habsent := (h.bound name).not.mp (value?_eq_none_iff.mp hvalue)
      exact (lookup_eq_none_iff_not_mem.mpr habsent).symm

/-! ## The placeholders -/

/-- The placeholder is the position of the name, counted from one, and the parameter at that
position is the one that is found under the name. -/
structure Locates (ps : Parameters) (place : Placeholder) (name : String) : Prop where
  position : place.position = ps.names.idxOf name + 1
  text : place.render = "$" ++ Decimal.ofNat (ps.names.idxOf name + 1)
  found : ∃ value, ps.at? place = some ⟨name, value⟩ ∧ ps.value? name = some value

theorem locates_of_mem (hnodup : ps.names.Nodup) (hname : name ∈ ps.names) :
    ps.Locates ⟨ps.names.idxOf name + 1⟩ name where
  position := rfl
  text := rfl
  found := by
    have hget : (ps.list.map Parameter.name)[ps.names.idxOf name]? = some name :=
      List.getElem?_idxOf hname
    rw [List.getElem?_map, Option.map_eq_some_iff] at hget
    obtain ⟨⟨_, value⟩, hat, rfl⟩ := hget
    exact ⟨value, hat, (value?_eq_some_iff hnodup).mpr (List.mem_of_getElem? hat)⟩

/-- Every placeholder that is handed out is the position of its name in the end. -/
theorem places_bindAll (calls : List (String × Value)) :
    List.Forall₂ (fun call place ↦ call.1 ∈ (empty.bindAll calls).2.names ∧
      place = ⟨(empty.bindAll calls).2.names.idxOf call.1 + 1⟩) calls (empty.bindAll calls).1 := by
  induction calls using List.reverseRecOn with
  | nil => exact .nil
  | append_singleton calls call ih =>
      rw [bindAll_concat]
      refine List.rel_append (ih.imp fun earlier place hplace ↦ ?_) (.cons ?_ .nil)
      · obtain ⟨hmem, rfl⟩ := hplace
        obtain ⟨hmem', hidx⟩ := idxOf_names_bind hmem call.1 call.2
        exact ⟨hmem', by rw [hidx]⟩
      · exact bind_place _ call.1 call.2

theorem at?_bindAll (h : ps.at? place = some parameter) (calls : List (String × Value)) :
    (ps.bindAll calls).2.at? place = some parameter := by
  induction calls generalizing ps with
  | nil => exact h
  | cons call rest ih => exact ih (at?_bind h call.1 call.2)

theorem locates_bindAll (calls : List (String × Value)) :
    List.Forall₂ (fun call place ↦ (empty.bindAll calls).2.Locates place call.1) calls
      (empty.bindAll calls).1 := by
  refine (places_bindAll calls).imp fun call place hplace ↦ ?_
  obtain ⟨hmem, rfl⟩ := hplace
  exact locates_of_mem (firstBindings_bindAll calls).nodup hmem

/-- **Placeholders keep their meaning.**  In the end the names stand in the order in which they were
bound first, each with its first value.  Every placeholder is the position of its name, it stands for
what it stood for when it was handed out, and this is what is found under the name. -/
theorem bindAll_stable (calls : List (String × Value)) :
    FirstBindings calls (empty.bindAll calls).2 ∧
    List.Forall₂ (fun call place ↦ (empty.bindAll calls).2.Locates place call.1) calls
      (empty.bindAll calls).1 ∧
    (∀ before after, calls = before ++ after →
      (empty.bindAll before).1 <+: (empty.bindAll calls).1 ∧
        ∀ place ∈ (empty.bindAll before).1, ∃ parameter,
          (empty.bindAll before).2.at? place = some parameter ∧
            (empty.bindAll calls).2.at? place = some parameter) ∧
    ∀ name, (empty.bindAll calls).2.value? name = calls.lookup name := by
  have hfirst := firstBindings_bindAll calls
  refine ⟨hfirst, locates_bindAll calls, ?_, hfirst.value?_eq_lookup⟩
  rintro before after rfl
  rw [bindAll_append]
  refine ⟨List.prefix_append _ _, fun place hplace ↦ ?_⟩
  obtain ⟨call, -, hlocates⟩ := exists_of_mem_right (locates_bindAll before) hplace
  obtain ⟨value, hat, -⟩ := hlocates.found
  exact ⟨_, hat, at?_bindAll hat after⟩

/-- A name that is bound again gets its first placeholder, and its second value is dropped. -/
example : empty.bindAll [("id", .int 7), ("name", .text "Tom"), ("id", .int 8)] =
    ([⟨1⟩, ⟨2⟩, ⟨1⟩], ⟨[⟨"id", .int 7⟩, ⟨"name", .text "Tom"⟩]⟩) := by
  decide

end ResourceSchema.Sql.Parameters
