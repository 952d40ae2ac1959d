import Mathlib.Data.List.Nodup
import ResourceSchema.Sql.Parameters

/-!
# What placeholders stand for

A statement is run with its parameters in a row, and a placeholder stands for the one at its
position.  A name that is new is bound behind all others, so a placeholder that was handed out keeps
its meaning.  Where a placeholder stands depends on names alone.
-/

namespace ResourceSchema.Sql.Parameters

variable {ps qs : Parameters} {name : String} {value other : Value} {i : Nat}

/-- The names, in the order of their placeholders. -/
def names (ps : Parameters) : List String := ps.list.map Parameter.name

/-- What a placeholder stands for. -/
def at? (ps : Parameters) (p : Placeholder) : Option Parameter :=
  match p.position with
  | 0 => none
  | i + 1 => ps.list[i]?

theorem at?_of_append {before after : List Parameter} {p : Parameter}
    (h : ps.list = before ++ p :: after) : ps.at? ⟨before.length + 1⟩ = some p := by
  show ps.list[before.length]? = some p
  rw [h, List.getElem?_append_right (Nat.le_refl _), Nat.sub_self, List.getElem?_cons_zero]

/-- A placeholder keeps its meaning when more parameters are bound. -/
theorem at?_of_prefix {p : Placeholder} {parameter : Parameter} {more : List Parameter}
    (h : ps.at? p = some parameter) : (Parameters.mk (ps.list ++ more)).at? p = some parameter := by
  unfold at? at h ⊢
  split at h
  · cases h
  · next i _ =>
    obtain ⟨hlt, -⟩ := List.getElem?_eq_some_iff.mp h
    exact (List.getElem?_append_left hlt).trans h

/-- The first `n` placeholders. -/
def positions (n : Nat) : List Placeholder := (List.range' 1 n).map Placeholder.mk

theorem mem_positions_iff {p : Placeholder} {n : Nat} :
    p ∈ positions n ↔ 1 ≤ p.position ∧ p.position ≤ n := by
  rw [positions, List.mem_map]
  constructor
  · rintro ⟨i, hi, rfl⟩
    obtain ⟨hle, hlt⟩ := List.mem_range'_1.mp hi
    exact ⟨hle, by dsimp only; omega⟩
  · rintro ⟨hle, hlast⟩
    exact ⟨p.position, List.mem_range'_1.mpr ⟨hle, by omega⟩, rfl⟩

theorem positions_succ (n : Nat) : positions (n + 1) = positions n ++ [⟨n + 1⟩] := by
  rw [positions, List.range'_1_concat, List.map_append, Nat.add_comm 1 n]
  rfl

theorem position?_eq (ps : Parameters) (name : String) :
    ps.position? name = ps.names.findIdx? (· == name) := by
  rw [position?, names, List.findIdx?_map]
  rfl

theorem mem_names_concat {p : Parameter} :
    name ∈ (Parameters.mk (ps.list ++ [p])).names ↔ name ∈ ps.names ∨ name = p.name := by
  simp only [names, List.map_append, List.mem_append, List.map_cons, List.map_nil,
    List.mem_singleton]

theorem bind_of_notMem (h : name ∉ ps.names) :
    ps.bind name value = (⟨ps.list.length + 1⟩, ⟨ps.list ++ [⟨name, value⟩]⟩) := by
  have hnone : ps.position? name = none := by
    rw [position?_eq, List.findIdx?_eq_none_iff]
    intro other hother
    exact beq_false_of_ne fun e ↦ h (e ▸ hother)
  rw [bind, hnone]

theorem position?_congr (h : ps.names = qs.names) : ps.position? name = qs.position? name := by
  rw [position?_eq, position?_eq, h]

theorem length_congr (h : ps.names = qs.names) : ps.list.length = qs.list.length := by
  have hlength := congrArg List.length h
  rwa [names, names, List.length_map, List.length_map] at hlength

/-- Binding a name asks neither for its value nor for the values bound before. -/
theorem bind_congr (h : ps.names = qs.names) (name : String) (value other : Value) :
    (ps.bind name value).1 = (qs.bind name other).1 ∧
      (ps.bind name value).2.names = (qs.bind name other).2.names := by
  unfold bind
  rw [position?_congr h]
  split
  · exact ⟨rfl, h⟩
  · refine ⟨by rw [length_congr h], ?_⟩
    simp only [names, List.map_append] at h ⊢
    rw [h]
    rfl

end ResourceSchema.Sql.Parameters
