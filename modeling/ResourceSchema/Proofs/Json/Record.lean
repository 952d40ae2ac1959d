import ResourceSchema.Json.Record
import ResourceSchema.Proofs.Iteration
import ResourceSchema.Proofs.SortedMap

/-!
# Records in other words

An object can say the same in other words: a member is there that no field reads, `null` is given
or left out where a value may be absent, or a value is itself put in other words.  Seen from one
field, the look-up finds what it found before, or what reads the same.
-/

namespace ResourceSchema.Json

/-- How a record is given as an object. -/
structure RecordShape where
  fields : List String
  /-- The fields that may as well be `null` as absent. -/
  optional : List String
  /-- How the value of a field is put in other words. -/
  values : String → Json → Json → Prop := fun _ _ _ ↦ False

/-- There are no other words for the value of a field. -/
def RecordShape.Plain (shape : RecordShape) (field : String) : Prop :=
  ∀ j j', ¬ shape.values field j j'

/-- An object is put in other words at one place. -/
inductive Rewords (shape : RecordShape) : Json → Json → Prop
  | addNull {field : String} (before after : List (String × Json))
      (optional : field ∈ shape.optional) (absent : field ∉ (before ++ after).map Prod.fst) :
      Rewords shape (.object (before ++ after)) (.object (before ++ (field, .null) :: after))
  | dropNull {field : String} (before after : List (String × Json))
      (optional : field ∈ shape.optional) (once : field ∉ (before ++ after).map Prod.fst) :
      Rewords shape (.object (before ++ (field, .null) :: after)) (.object (before ++ after))
  | addUnknown {key : String} (before after : List (String × Json)) (value : Json)
      (unknown : key ∉ shape.fields) :
      Rewords shape (.object (before ++ after)) (.object (before ++ (key, value) :: after))
  | value {field : String} {j j' : Json} (before after : List (String × Json))
      (reworded : shape.values field j j') :
      Rewords shape (.object (before ++ (field, j) :: after))
        (.object (before ++ (field, j') :: after))

/-- One entry of a map is put in other words. -/
inductive RewordsEntry (entries : Json → Json → Prop) : Json → Json → Prop
  | mk {key : String} {j j' : Json} (before after : List (String × Json))
      (reworded : entries j j') :
      RewordsEntry entries (.object (before ++ (key, j) :: after))
        (.object (before ++ (key, j') :: after))

/-- What is found under a field is the same in other words. -/
inductive Alike (shape : RecordShape) (field : String) (found found' : Option Json) : Prop
  | same (same : found' = found)
  | null (optional : field ∈ shape.optional) (same : found'.getD .null = found.getD .null)
  | value {j j' : Json} (reworded : shape.values field j j') (before : found = some j)
      (after : found' = some j')

/-- The fields of two objects are the same in other words, and are given once in both or in
neither. -/
structure SaysSame (shape : RecordShape) (members members' : List (String × Json)) : Prop where
  once : ∀ field ∈ shape.fields,
    (members'.countP (·.1 == field) ≤ 1 ↔ members.countP (·.1 == field) ≤ 1)
  found : ∀ field ∈ shape.fields, Alike shape field (members.lookup field) (members'.lookup field)

variable {α β : Type} {decode : Json → Option α} {fallback : α} {shape : RecordShape}
variable {field key : String} {members members' before after : List (String × Json)}

/-! ## What look-ups find -/

theorem lookup_insert_of_ne (h : field ≠ key) (before after : List (String × Json))
    (value : Json) :
    (before ++ (key, value) :: after).lookup field = (before ++ after).lookup field := by
  rw [List.lookup_append, List.lookup_append, SortedMap.lookup_cons_of_ne h]

theorem countP_insert_of_ne (h : field ≠ key) (before after : List (String × Json))
    (value : Json) :
    (before ++ (key, value) :: after).countP (·.1 == field) =
      (before ++ after).countP (·.1 == field) := by
  rw [List.countP_append, List.countP_append, List.countP_cons_of_neg (by simpa using h.symm)]

theorem countP_of_absent (h : field ∉ members.map Prod.fst) :
    members.countP (·.1 == field) = 0 := by
  refine List.countP_eq_zero.mpr fun member hmember heq ↦ ?_
  obtain rfl := beq_iff_eq.mp heq
  exact h (List.mem_map_of_mem hmember)

/-- A field that is absent can as well be given as `null`, once. -/
theorem once_and_found_null (h : field ∉ (before ++ after).map Prod.fst) :
    (before ++ (field, .null) :: after).countP (·.1 == field) ≤ 1 ∧
      (before ++ after).countP (·.1 == field) ≤ 1 ∧
      ((before ++ (field, .null) :: after).lookup field).getD .null =
        ((before ++ after).lookup field).getD .null := by
  rw [countP_of_absent h, lookup_eq_none_iff_not_mem.mpr h]
  rw [List.map_append, List.mem_append, not_or] at h
  rw [List.countP_append, List.countP_cons, countP_of_absent h.1, countP_of_absent h.2,
    List.lookup_append, lookup_eq_none_iff_not_mem.mpr h.1]
  simp

theorem Rewords.isNull_eq_false {j j' : Json} (h : Rewords shape j j') :
    j.isNull = false ∧ j'.isNull = false := by
  cases h <;> exact ⟨rfl, rfl⟩

/-- Objects that differ under one key only say the same if they do so under that key. -/
theorem SaysSame.of_key (once : key ∈ shape.fields →
      (members'.countP (·.1 == key) ≤ 1 ↔ members.countP (·.1 == key) ≤ 1))
    (found : key ∈ shape.fields → Alike shape key (members.lookup key) (members'.lookup key))
    (countP_eq : ∀ field, field ≠ key →
      members'.countP (·.1 == field) = members.countP (·.1 == field))
    (lookup_eq : ∀ field, field ≠ key → members'.lookup field = members.lookup field) :
    SaysSame shape members members' where
  once field hfield := by
    by_cases e : field = key
    · subst e
      exact once hfield
    · rw [countP_eq field e]
  found field hfield := by
    by_cases e : field = key
    · subst e
      exact found hfield
    · exact .same (lookup_eq field e)

theorem Rewords.exists_saysSame {j j' : Json} (h : Rewords shape j j') :
    ∃ members members', j = .object members ∧ j' = .object members' ∧
      SaysSame shape members members' := by
  cases h with
  | addNull before after optional absent =>
      obtain ⟨hcount, hcount', hfound⟩ := once_and_found_null absent
      refine ⟨_, _, rfl, rfl, .of_key (fun _ ↦ iff_of_true hcount hcount')
        (fun _ ↦ .null optional hfound) (fun field e ↦ ?_) fun field e ↦ ?_⟩
      · exact countP_insert_of_ne e ..
      · exact lookup_insert_of_ne e ..
  | dropNull before after optional once =>
      obtain ⟨hcount, hcount', hfound⟩ := once_and_found_null once
      refine ⟨_, _, rfl, rfl, .of_key (fun _ ↦ iff_of_true hcount' hcount)
        (fun _ ↦ .null optional hfound.symm) (fun field e ↦ ?_) fun field e ↦ ?_⟩
      · exact (countP_insert_of_ne e ..).symm
      · exact (lookup_insert_of_ne e ..).symm
  | addUnknown before after value unknown =>
      refine ⟨_, _, rfl, rfl, .of_key (fun hkey ↦ absurd hkey unknown)
        (fun hkey ↦ absurd hkey unknown) (fun field e ↦ ?_) fun field e ↦ ?_⟩
      · exact countP_insert_of_ne e ..
      · exact lookup_insert_of_ne e ..
  | @value key j j' before after reworded =>
      have hcount (field : String) : (before ++ (key, j') :: after).countP (·.1 == field) =
          (before ++ (key, j) :: after).countP (·.1 == field) := by
        rw [List.countP_append, List.countP_append, List.countP_cons, List.countP_cons]
      have hfound : Alike shape key ((before ++ (key, j) :: after).lookup key)
          ((before ++ (key, j') :: after).lookup key) := by
        rw [List.lookup_append, List.lookup_append, List.lookup_cons_self, List.lookup_cons_self]
        cases before.lookup key with
        | none => exact .value reworded rfl rfl
        | some first => exact .same rfl
      refine ⟨_, _, rfl, rfl, .of_key (fun _ ↦ by rw [hcount]) (fun _ ↦ hfound)
        (fun field _ ↦ hcount field) fun field e ↦ ?_⟩
      rw [lookup_insert_of_ne e, lookup_insert_of_ne e]

/-! ## What is read -/

/-- A field that is there is read, unless it is `null`. -/
theorem optional_of_lookup {j : Json} (h : members.lookup field = some j)
    (hj : j.isNull = false) : optional decode members field = (decode j).map some := by
  rw [optional, h]
  cases j with
  | null => cases hj
  | _ => rfl

theorem defaulted_of_lookup {j : Json} (h : members.lookup field = some j) :
    defaulted fallback decode members field = decode j := by
  rw [defaulted, h]

/-- An optional field that is absent is read like one that is `null`. -/
theorem optional_eq (decode : Json → Option α) (members : List (String × Json))
    (field : String) :
    optional decode members field =
      match (members.lookup field).getD .null with
      | .null => some none
      | j => (decode j).map some := by
  unfold optional
  cases members.lookup field with
  | none => rfl
  | some j => cases j <;> rfl

/-! What is done to a value that was read can be done where it is read. -/

theorem map_optional (f : α → β) (decode : Json → Option α) (members : List (String × Json))
    (field : String) :
    (optional decode members field).map (Option.map f) =
      optional (fun j ↦ (decode j).map f) members field := by
  have hsome (j : Json) : ((decode j).map some).map (Option.map f) = ((decode j).map f).map some := by
    rw [Option.map_map, Option.map_map]
    rfl
  unfold optional
  split
  · rfl
  · rfl
  · exact hsome _

theorem map_defaulted (f : α → β) (fallback : α) (decode : Json → Option α)
    (members : List (String × Json)) (field : String) :
    (defaulted fallback decode members field).map f =
      defaulted (f fallback) (fun j ↦ (decode j).map f) members field := by
  unfold defaulted
  split
  · rfl
  · rfl

theorem map_map? (f : α → β) (decode : Json → Option α) (j : Json) :
    (map? decode j).map (SortedMap.map fun _ ↦ f) = map? (fun j ↦ (decode j).map f) j := by
  cases j with
  | object members =>
      have hentry (e : String × Json) : (do return (e.1, ← (decode e.2).map f) : Option _) =
          (do return (e.1, ← decode e.2) : Option _).map fun e ↦ (e.1, f e.2) := by
        cases decode e.2 <;> rfl
      simp only [map?, hentry, ← map_mapM]
      cases (members.mapM fun e ↦ do return (e.1, ← decode e.2) : Option _) with
      | none => rfl
      | some entries => exact congrArg some (SortedMap.map_ofList _ entries)
  | _ => rfl

theorem map_defaulted_map? (f : α → β) (decode : Json → Option α) (members : List (String × Json))
    (field : String) :
    (defaulted .empty (map? decode) members field).map (SortedMap.map fun _ ↦ f) =
      defaulted .empty (map? fun j ↦ (decode j).map f) members field := by
  rw [map_defaulted]
  simp only [map_map?]
  rfl

/-! Where the values are read in the same way in other words, so is what holds them. -/

theorem RewordsEntry.map?_eq {entries : Json → Json → Prop} {j j' : Json}
    (h : RewordsEntry entries j j') (hentries : ∀ j j', entries j j' → decode j' = decode j) :
    map? decode j' = map? decode j := by
  cases h with
  | mk before after reworded =>
      simp only [map?, List.mapM_append, List.mapM_cons, hentries _ _ reworded]

namespace SaysSame

variable (h : SaysSame shape members members')
include h

theorem objectRecord?_bind {read : List (String × Json) → Option α}
    (hread : read members' = read members) :
    (objectRecord? shape.fields (.object members')).bind read =
      (objectRecord? shape.fields (.object members)).bind read := by
  have honce : (shape.fields.all fun f ↦ Nat.ble (members'.countP (·.1 == f)) 1) =
      shape.fields.all fun f ↦ Nat.ble (members.countP (·.1 == f)) 1 := by
    rw [Bool.eq_iff_iff, List.all_eq_true, List.all_eq_true]
    simp only [Nat.ble_eq]
    exact forall₂_congr h.once
  rw [objectRecord?, objectRecord?, honce]
  split
  · exact hread
  · rfl

variable (field) (hfield : field ∈ shape.fields)
include hfield

theorem lookup_eq (required : field ∉ shape.optional) (plain : shape.Plain field) :
    members'.lookup field = members.lookup field := by
  cases h.found field hfield with
  | same same => exact same
  | null optional => exact absurd optional required
  | value reworded => exact absurd reworded (plain _ _)

theorem required_eq (required : field ∉ shape.optional) (plain : shape.Plain field) :
    Json.required decode members' field = Json.required decode members field := by
  rw [Json.required, Json.required, h.lookup_eq field hfield required plain]

theorem optional_eq
    (hvalues : ∀ j j', shape.values field j j' →
      j.isNull = false ∧ j'.isNull = false ∧ decode j' = decode j) :
    Json.optional decode members' field = Json.optional decode members field := by
  cases h.found field hfield with
  | same same => rw [Json.optional_eq, Json.optional_eq, same]
  | null _ same => rw [Json.optional_eq, Json.optional_eq, same]
  | value reworded before after =>
      obtain ⟨hj, hj', heq⟩ := hvalues _ _ reworded
      rw [optional_of_lookup before hj, optional_of_lookup after hj', heq]

theorem optional_eq_of_plain (plain : shape.Plain field) :
    Json.optional decode members' field = Json.optional decode members field :=
  h.optional_eq field hfield fun j j' reworded ↦ absurd reworded (plain j j')

theorem defaulted_eq (required : field ∉ shape.optional)
    (hvalues : ∀ j j', shape.values field j j' → decode j' = decode j) :
    defaulted fallback decode members' field = defaulted fallback decode members field := by
  cases h.found field hfield with
  | same same => rw [defaulted, defaulted, same]
  | null optional => exact absurd optional required
  | value reworded before after =>
      rw [defaulted_of_lookup before, defaulted_of_lookup after, hvalues _ _ reworded]

end SaysSame

end ResourceSchema.Json
