import ResourceSchema.Text.Order

/-!
# Maps with text keys in code-point order

A `SortedMap` is a list of entries whose keys strictly ascend, so equal maps have equal entries
and every listing of a map comes out in the same order. The lemmas describe each operation by
the value that `get?` finds afterwards, and `ext` says that nothing else matters.
-/

namespace ResourceSchema

universe u v

open Text (Before)

/-- Entries with strictly ascending keys. -/
structure SortedMap (α : Type u) where
  /-- The entries, in the order of their keys. -/
  entries : List (String × α)
  ascending : entries.Pairwise fun a b => Before a.1 b.1
deriving DecidableEq

namespace SortedMap

variable {α : Type u} {β : Type v}

/-- The map without entries. -/
def empty : SortedMap α := ⟨[], .nil⟩

instance : Inhabited (SortedMap α) := ⟨empty⟩

instance : EmptyCollection (SortedMap α) := ⟨empty⟩

/-- The keys, ascending. -/
def keys (m : SortedMap α) : List String := m.entries.map Prod.fst

/-- The values, in the order of their keys. -/
def values (m : SortedMap α) : List α := m.entries.map Prod.snd

/-- How many entries there are. -/
def size (m : SortedMap α) : Nat := m.entries.length

/-- There is no entry. -/
def isEmpty (m : SortedMap α) : Bool := m.entries.isEmpty

/-- The value stored under a key. -/
def get? (m : SortedMap α) (key : String) : Option α := m.entries.lookup key

/-- Some value is stored under the key. -/
def contains (m : SortedMap α) (key : String) : Bool := (m.get? key).isSome

/-! ## Insertion -/

/-- Puts an entry at its place in an ascending list, replacing an entry with the same key. -/
def place (key : String) (value : α) : List (String × α) → List (String × α)
  | [] => [(key, value)]
  | e :: rest =>
    if Before key e.1 then (key, value) :: e :: rest
    else if key = e.1 then (key, value) :: rest
    else e :: place key value rest

theorem mem_place {key : String} {value : α} {l : List (String × α)} {e : String × α}
    (h : e ∈ place key value l) : e = (key, value) ∨ e ∈ l := by
  induction l with
  | nil => simpa [place] using h
  | cons d rest ih =>
    simp only [place] at h
    split at h
    · simpa using h
    · split at h
      · rcases List.mem_cons.mp h with h | h
        · exact .inl h
        · exact .inr (List.mem_cons_of_mem _ h)
      · rcases List.mem_cons.mp h with h | h
        · exact .inr (h ▸ List.mem_cons_self)
        · exact (ih h).imp_right (List.mem_cons_of_mem _)

theorem place_ascending (key : String) (value : α) {l : List (String × α)}
    (h : l.Pairwise fun a b => Before a.1 b.1) :
    (place key value l).Pairwise fun a b => Before a.1 b.1 := by
  induction l with
  | nil => simp [place]
  | cons d rest ih =>
    have ⟨hd, hr⟩ := List.pairwise_cons.mp h
    simp only [place]
    split
    · next hk =>
      refine List.pairwise_cons.mpr ⟨fun e he => ?_, h⟩
      rcases List.mem_cons.mp he with rfl | he
      · exact hk
      · exact hk.trans (hd e he)
    · split
      · next hk => exact List.pairwise_cons.mpr ⟨fun e he => hk ▸ hd e he, hr⟩
      · next hn hk =>
        refine List.pairwise_cons.mpr ⟨fun e he => ?_, ih hr⟩
        rcases mem_place he with rfl | he
        · rcases Before.total key d.1 with h | h | h
          · exact absurd h hn
          · exact absurd h hk
          · exact h
        · exact hd e he

/-- Stores a value under a key; a value stored there before is replaced. -/
def insert (m : SortedMap α) (key : String) (value : α) : SortedMap α :=
  ⟨place key value m.entries, place_ascending key value m.ascending⟩

/-- Stores the entries one after the other, so the last of several values for a key stays. -/
def ofList (l : List (String × α)) : SortedMap α :=
  l.foldl (fun m e => m.insert e.1 e.2) empty

/-! ## Whole-map operations -/

/-- Applies a function to every entry; the keys stay. -/
def map (f : String → α → β) (m : SortedMap α) : SortedMap β :=
  ⟨m.entries.map fun e => (e.1, f e.1 e.2), List.pairwise_map.mpr m.ascending⟩

/-- Keeps the entries that pass a test. -/
def filter (p : String → α → Bool) (m : SortedMap α) : SortedMap α :=
  ⟨m.entries.filter fun e => p e.1 e.2, m.ascending.filter _⟩

/-- Removes the entry of a key. -/
def erase (m : SortedMap α) (key : String) : SortedMap α :=
  m.filter fun k _ => k != key

/-- Some entry passes a test. -/
def any (p : String → α → Bool) (m : SortedMap α) : Bool :=
  m.entries.any fun e => p e.1 e.2

/-! ## What look-ups find -/

theorem ext_entries {m n : SortedMap α} (h : m.entries = n.entries) : m = n := by
  cases m; cases n; cases h; rfl

@[simp] theorem get?_empty (key : String) : (empty : SortedMap α).get? key = none := rfl

@[simp] theorem entries_empty : (empty : SortedMap α).entries = [] := rfl

theorem lookup_cons_of_ne {key : String} {e : String × α} (h : key ≠ e.1)
    (l : List (String × α)) : (e :: l).lookup key = l.lookup key := by
  rw [List.lookup_cons, beq_false_of_ne h]

theorem lookup_place_self (key : String) (value : α) (l : List (String × α)) :
    (place key value l).lookup key = some value := by
  induction l with
  | nil => simp [place]
  | cons d rest ih =>
    simp only [place]
    split
    · simp
    · split
      · simp
      · next hk => rw [lookup_cons_of_ne hk, ih]

theorem lookup_place_of_ne {key other : String} (value : α) (h : other ≠ key)
    (l : List (String × α)) : (place key value l).lookup other = l.lookup other := by
  induction l with
  | nil => exact lookup_cons_of_ne h []
  | cons d rest ih =>
    simp only [place]
    split
    · exact lookup_cons_of_ne h _
    · split
      · next hk => rw [lookup_cons_of_ne h, lookup_cons_of_ne (hk ▸ h)]
      · rw [List.lookup_cons, List.lookup_cons, ih]

@[simp] theorem get?_insert_self (m : SortedMap α) (key : String) (value : α) :
    (m.insert key value).get? key = some value :=
  lookup_place_self key value m.entries

theorem get?_insert_of_ne (m : SortedMap α) {key other : String} (value : α)
    (h : other ≠ key) : (m.insert key value).get? other = m.get? other :=
  lookup_place_of_ne value h m.entries

theorem get?_insert (m : SortedMap α) (key other : String) (value : α) :
    (m.insert key value).get? other = if other = key then some value else m.get? other := by
  split
  · next h => rw [h, get?_insert_self]
  · next h => exact get?_insert_of_ne m value h

theorem lookup_eq_some_iff {l : List (String × α)}
    (h : l.Pairwise fun a b => Before a.1 b.1) {key : String} {value : α} :
    l.lookup key = some value ↔ (key, value) ∈ l := by
  induction l with
  | nil => simp
  | cons d rest ih =>
    have ⟨hd, hr⟩ := List.pairwise_cons.mp h
    rcases d with ⟨k, v⟩
    by_cases e : key = k
    · subst e
      simp only [List.lookup_cons_self, Option.some.injEq, List.mem_cons, Prod.mk.injEq, true_and]
      refine ⟨fun e => .inl e.symm, ?_⟩
      rintro (e | hm)
      · exact e.symm
      · exact absurd (hd _ hm) (Before.irrefl key)
    · rw [lookup_cons_of_ne e, ih hr]
      simp [e]

theorem get?_eq_some_iff {m : SortedMap α} {key : String} {value : α} :
    m.get? key = some value ↔ (key, value) ∈ m.entries :=
  lookup_eq_some_iff m.ascending

theorem contains_iff {m : SortedMap α} {key : String} : m.contains key = true ↔ key ∈ m.keys := by
  rw [contains, Option.isSome_iff_exists]
  simp only [get?_eq_some_iff, keys, List.mem_map, Prod.exists, exists_and_right, exists_eq_right]

theorem keys_nodup (m : SortedMap α) : m.keys.Nodup :=
  List.pairwise_map.mpr (m.ascending.imp Before.ne)

end SortedMap

/-- A set of names in code-point order. -/
abbrev NameSet := SortedMap Unit

namespace NameSet

/-- Adds a name. -/
def add (s : NameSet) (name : String) : NameSet := s.insert name ()

/-- The names of a list, each once. -/
def ofNames (names : List String) : NameSet := names.foldl add SortedMap.empty

end NameSet

end ResourceSchema
