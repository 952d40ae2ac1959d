import ResourceSchema.Proofs.Iteration
import ResourceSchema.SortedMap

/-!
# What look-ups find after an operation on a whole map

Mapping, filtering and erasing act on every entry at once.  Seen from one key they act on the
value of that key, and two maps in which every key has the same value are equal.
-/

namespace ResourceSchema

universe u v

namespace SortedMap

variable {α : Type u} {β : Type v}

/-- Maps in which every key has the same value are equal. -/
theorem ext {m n : SortedMap α} (h : ∀ key, m.get? key = n.get? key) : m = n := by
  have hmem (e : String × α) : e ∈ m.entries ↔ e ∈ n.entries := by
    rw [← get?_eq_some_iff, ← get?_eq_some_iff, h]
  have hnodup (m : SortedMap α) : m.entries.Nodup := List.Nodup.of_map Prod.fst m.keys_nodup
  have hperm : m.entries.Perm n.entries :=
    (List.perm_ext_iff_of_nodup (hnodup m) (hnodup n)).mpr hmem
  refine ext_entries (hperm.eq_of_pairwise (fun a b _ _ hab hba ↦ ?_) m.ascending n.ascending)
  exact absurd (hab.trans hba) (Text.Before.irrefl _)

theorem keys_ascending (m : SortedMap α) : m.keys.Pairwise Text.Before :=
  List.pairwise_map.mpr m.ascending

theorem mem_keys_iff {m : SortedMap α} {key : String} :
    key ∈ m.keys ↔ ∃ value, m.get? key = some value := by
  rw [← contains_iff, contains, Option.isSome_iff_exists]

theorem mem_values_iff {m : SortedMap α} {value : α} :
    value ∈ m.values ↔ ∃ key, m.get? key = some value := by
  simp only [values, List.mem_map, get?_eq_some_iff, Prod.exists]
  constructor
  · rintro ⟨key, other, h, rfl⟩
    exact ⟨key, h⟩
  · rintro ⟨key, h⟩
    exact ⟨key, value, h, rfl⟩

/-- Maps with the same keys and no two values for a key are equal. -/
theorem ext_of_keys {m n : SortedMap α} (keys : ∀ key, key ∈ m.keys ↔ key ∈ n.keys)
    (values : ∀ key a b, m.get? key = some a → n.get? key = some b → a = b) : m = n := by
  apply ext
  intro key
  have hkey := keys key
  rw [mem_keys_iff, mem_keys_iff] at hkey
  cases hm : m.get? key with
  | none =>
      cases hn : n.get? key with
      | none => rfl
      | some b =>
          obtain ⟨a, ha⟩ := hkey.mpr ⟨b, hn⟩
          exact nomatch hm.symm.trans ha
  | some a =>
      obtain ⟨b, hn⟩ := hkey.mp ⟨a, hm⟩
      rw [hn, values key a b hm hn]

theorem contains_eq_true_iff {m : SortedMap α} {key : String} :
    m.contains key = true ↔ ∃ value, m.get? key = some value :=
  Option.isSome_iff_exists

theorem get?_map (f : String → α → β) (m : SortedMap α) (key : String) :
    (m.map f).get? key = (m.get? key).map (f key) := by
  apply Option.ext
  intro value
  simp only [get?_eq_some_iff, Option.map_eq_some_iff, map, List.mem_map, Prod.mk.injEq,
    Prod.exists]
  constructor
  · rintro ⟨k, a, h, rfl, rfl⟩
    exact ⟨a, h, rfl⟩
  · rintro ⟨a, h, rfl⟩
    exact ⟨key, a, h, rfl, rfl⟩

theorem contains_map (f : String → α → β) (m : SortedMap α) (key : String) :
    (m.map f).contains key = m.contains key := by
  rw [contains, contains, get?_map, Option.isSome_map]

theorem keys_map (f : String → α → β) (m : SortedMap α) : (m.map f).keys = m.keys := by
  rw [keys, map, List.map_map]
  rfl

theorem not_mem_keys_iff {m : SortedMap α} {key : String} :
    key ∉ m.keys ↔ m.contains key = false := by
  rw [← contains_iff, Bool.not_eq_true]

theorem get?_filter (p : String → α → Bool) (m : SortedMap α) (key : String) :
    (m.filter p).get? key = (m.get? key).filter (p key) := by
  apply Option.ext
  intro value
  simp only [get?_eq_some_iff, Option.filter_eq_some_iff, filter, List.mem_filter]

theorem get?_filter_eq_some_iff {p : String → α → Bool} {m : SortedMap α} {key : String}
    {value : α} :
    (m.filter p).get? key = some value ↔ m.get? key = some value ∧ p key value = true := by
  rw [get?_filter, Option.filter_eq_some_iff]

theorem get?_erase (m : SortedMap α) (key other : String) :
    (m.erase key).get? other = if other = key then none else m.get? other := by
  rw [erase, get?_filter]
  split
  · next h => cases m.get? other <;> simp [h]
  · next h => cases m.get? other <;> simp [h]

theorem contains_insert {m : SortedMap α} {key other : String} {value : α} :
    (m.insert key value).contains other = true ↔ other = key ∨ m.contains other = true := by
  rw [contains, contains, get?_insert]
  split
  · next h => simp [h]
  · next h => simp [h]

theorem any_eq_true_iff {p : String → α → Bool} {m : SortedMap α} :
    m.any p = true ↔ ∃ key value, m.get? key = some value ∧ p key value = true := by
  simp only [any, List.any_eq_true, Prod.exists, get?_eq_some_iff]

theorem isEmpty_iff {m : SortedMap α} : m.isEmpty = true ↔ ∀ key, m.get? key = none := by
  rw [isEmpty, List.isEmpty_iff]
  constructor
  · intro h key
    rw [get?, h, List.lookup_nil]
  · intro h
    apply List.eq_nil_iff_forall_not_mem.mpr
    rintro ⟨key, value⟩ hm
    rw [← get?_eq_some_iff, h key] at hm
    cases hm

/-- Mapping a map back gives the map again, if it does so for every entry. -/
theorem map_map_eq_self {f : String → α → β} {g : String → β → α} {m : SortedMap α}
    (h : ∀ key value, m.get? key = some value → g key (f key value) = value) :
    (m.map f).map g = m := by
  apply ext
  intro key
  rw [get?_map, get?_map]
  cases hvalue : m.get? key with
  | none => rfl
  | some value => exact congrArg some (h key value hvalue)

theorem map_map {γ : Type*} (f : String → α → β) (g : String → β → γ) (m : SortedMap α) :
    (m.map f).map g = m.map fun key value ↦ g key (f key value) := by
  apply ext
  intro key
  rw [get?_map, get?_map, get?_map, Option.map_map]
  rfl

theorem map_insert (f : String → α → β) (m : SortedMap α) (key : String) (value : α) :
    (m.insert key value).map f = (m.map f).insert key (f key value) := by
  apply ext
  intro other
  rw [get?_map, get?_insert, get?_insert, get?_map]
  split
  · next hkey => rw [hkey, Option.map_some]
  · rfl

theorem insert_eq_self {m : SortedMap α} {key : String} {value : α}
    (h : m.get? key = some value) : m.insert key value = m := by
  apply ext
  intro other
  rw [get?_insert]
  split
  · next hkey => rw [hkey, h]
  · rfl

/-! ## The order of the keys -/

section Order

variable {m : SortedMap α} {key : String} {value : α}

/-- The entries in front of one entry are those with smaller keys. -/
theorem mem_front_iff {before after : List (String × α)} {other : String} {value' : α}
    (split : m.entries = before ++ (key, value) :: after) :
    (other, value') ∈ before ↔ m.get? other = some value' ∧ Text.Before other key := by
  have hascending := m.ascending
  rw [split, List.pairwise_append, List.pairwise_cons] at hascending
  obtain ⟨-, ⟨hafter, -⟩, hbefore⟩ := hascending
  rw [get?_eq_some_iff, split, List.mem_append, List.mem_cons]
  constructor
  · exact fun he ↦ ⟨.inl he, hbefore _ he _ List.mem_cons_self⟩
  · rintro ⟨he | he | he, hkey⟩
    · exact he
    · exact absurd (Prod.mk.inj he).1 hkey.ne
    · exact absurd (hkey.trans (hafter _ he)) (Text.Before.irrefl _)

/-- An ascending list starts with the name that no other comes before. -/
theorem exists_eq_cons_of_least {names : List String} (ascending : names.Pairwise Text.Before)
    {first : String} (hfirst : first ∈ names)
    (hleast : ∀ other ∈ names, ¬ Text.Before other first) : ∃ rest, names = first :: rest := by
  cases names with
  | nil => cases hfirst
  | cons name rest =>
      rcases List.mem_cons.mp hfirst with rfl | hrest
      · exact ⟨rest, rfl⟩
      · exact absurd ((List.pairwise_cons.mp ascending).1 first hrest)
          (hleast name List.mem_cons_self)

/-- In an ascending list, the first name that passes a test is the least one that does. -/
theorem find?_eq_some_iff_least {names : List String} (ascending : names.Pairwise Text.Before)
    {test : String → Bool} {first : String} :
    names.find? test = some first ↔
      first ∈ names ∧ test first = true ∧
        ∀ other ∈ names, test other = true → ¬ Text.Before other first := by
  rw [← List.head?_filter, List.head?_eq_some_iff]
  constructor
  · rintro ⟨rest, hfilter⟩
    obtain ⟨hmem, htest⟩ := List.mem_filter.mp (hfilter ▸ List.mem_cons_self)
    refine ⟨hmem, htest, fun other hother htrue hbefore ↦ ?_⟩
    have hascending := ascending.filter test
    have hfound := List.mem_filter.mpr ⟨hother, htrue⟩
    rw [hfilter] at hascending hfound
    rcases List.mem_cons.mp hfound with rfl | hrest
    · exact Text.Before.irrefl _ hbefore
    · exact Text.Before.irrefl _
        (hbefore.trans ((List.pairwise_cons.mp hascending).1 other hrest))
  · rintro ⟨hmem, htest, hleast⟩
    refine exists_eq_cons_of_least (ascending.filter test) (List.mem_filter.mpr ⟨hmem, htest⟩) ?_
    intro other hother
    obtain ⟨hother, htrue⟩ := List.mem_filter.mp hother
    exact hleast other hother htrue

/-- The first two keys of a map are two keys with no other key in front of the second. -/
theorem keys_eq_cons_cons_iff {first second : String} :
    (∃ rest, m.keys = first :: second :: rest) ↔
      first ∈ m.keys ∧ second ∈ m.keys ∧ Text.Before first second ∧
        ∀ other ∈ m.keys, other = first ∨ other = second ∨ Text.Before second other := by
  have hascending := m.keys_ascending
  constructor
  · rintro ⟨rest, hkeys⟩
    rw [hkeys] at hascending ⊢
    obtain ⟨hfirst, hrest⟩ := List.pairwise_cons.mp hascending
    refine ⟨List.mem_cons_self, List.mem_cons_of_mem _ List.mem_cons_self,
      hfirst second List.mem_cons_self, fun other hother ↦ ?_⟩
    rcases List.mem_cons.mp hother with rfl | hother
    · exact .inl rfl
    · rcases List.mem_cons.mp hother with rfl | hother
      · exact .inr (.inl rfl)
      · exact .inr (.inr ((List.pairwise_cons.mp hrest).1 other hother))
  · rintro ⟨hfirst, hsecond, hbefore, hothers⟩
    obtain ⟨rest, hkeys⟩ := exists_eq_cons_of_least hascending hfirst fun other hother hless ↦ by
      rcases hothers other hother with rfl | rfl | hgreater
      · exact Text.Before.irrefl _ hless
      · exact Text.Before.irrefl _ (hless.trans hbefore)
      · exact Text.Before.irrefl _ ((hgreater.trans hless).trans hbefore)
    rw [hkeys] at hascending hsecond hothers
    obtain ⟨hrest, hascending⟩ := List.pairwise_cons.mp hascending
    obtain ⟨rest', rfl⟩ := exists_eq_cons_of_least hascending
      ((List.mem_cons.mp hsecond).resolve_left hbefore.ne.symm) fun other hother hless ↦ by
        rcases hothers other (List.mem_cons_of_mem _ hother) with rfl | rfl | hgreater
        · exact Text.Before.irrefl _ (hrest _ hother)
        · exact Text.Before.irrefl _ hless
        · exact Text.Before.irrefl _ (hless.trans hgreater)
    exact ⟨rest', hkeys⟩

end Order

/-! ## Maps from lists -/

/-- Entries with distinct keys, stored one after the other, come before what was there. -/
theorem get?_foldl_insert {l : List (String × α)} (distinct : (l.map Prod.fst).Nodup)
    (m : SortedMap α) (key : String) :
    (l.foldl (fun m e ↦ m.insert e.1 e.2) m).get? key = (l.lookup key).or (m.get? key) := by
  induction l generalizing m with
  | nil => rfl
  | cons e rest ih =>
      obtain ⟨hfirst, hrest⟩ := List.nodup_cons.mp distinct
      rw [List.foldl_cons, ih hrest, get?_insert, List.lookup_cons]
      by_cases hkey : key = e.1
      · have habsent : rest.lookup key = none :=
          lookup_eq_none_iff_not_mem.mpr (hkey ▸ hfirst)
        rw [if_pos hkey, habsent, beq_iff_eq.mpr hkey]
        rfl
      · rw [if_neg hkey, beq_eq_false_iff_ne.mpr hkey]

/-- The entries of a map make the map again. -/
theorem ofList_entries (m : SortedMap α) : ofList m.entries = m := by
  apply ext
  intro key
  rw [ofList, get?_foldl_insert m.keys_nodup, get?_empty, Option.or_none]
  rfl

theorem map_ofList (f : String → α → β) (l : List (String × α)) :
    (ofList l).map f = ofList (l.map fun e ↦ (e.1, f e.1 e.2)) := by
  rw [ofList, ofList, List.foldl_map]
  exact (List.foldl_hom (map f) fun m e ↦ (map_insert f m e.1 e.2).symm).symm

end SortedMap

namespace NameSet

theorem contains_add {s : NameSet} {name other : String} :
    (s.add name).contains other = true ↔ other = name ∨ s.contains other = true :=
  SortedMap.contains_insert

theorem mem_keys_add {s : NameSet} {name other : String} :
    other ∈ (s.add name).keys ↔ other = name ∨ other ∈ s.keys := by
  rw [← SortedMap.contains_iff, ← SortedMap.contains_iff, contains_add]

theorem mem_keys_ofNames {names : List String} {name : String} :
    name ∈ (ofNames names).keys ↔ name ∈ names := by
  rw [ofNames, foldl_iff add (fun s ↦ name ∈ s.keys) fun _ _ ↦ mem_keys_add]
  constructor
  · rintro (⟨other, h, rfl⟩ | h)
    · exact h
    · cases h
  · exact fun h ↦ .inl ⟨name, h, rfl⟩

/-- No name of a set comes before the first one. -/
theorem not_before_first {s : NameSet} {first other : String} {rest : List String}
    (hkeys : s.keys = first :: rest) (hother : s.contains other = true) :
    ¬ Text.Before other first := by
  have hascending := s.keys_ascending
  rw [hkeys, List.pairwise_cons] at hascending
  rw [SortedMap.contains_iff, hkeys] at hother
  rcases List.mem_cons.mp hother with rfl | hother
  · exact Text.Before.irrefl other
  · exact fun hbefore ↦ Text.Before.irrefl other (hbefore.trans (hascending.1 other hother))

/-- Sets with the same names are equal. -/
theorem ext {s t : NameSet} (h : ∀ name, name ∈ s.keys ↔ name ∈ t.keys) : s = t :=
  SortedMap.ext_of_keys h fun _ _ _ _ _ ↦ rfl

end NameSet

end ResourceSchema
