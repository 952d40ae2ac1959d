/-!
# Cutting text at a character

`pieces` cuts at every occurrence of a character. Its pieces are free of the character, and with the
character between them they make up the text again.
-/

namespace ResourceSchema.Text

/-- The pieces between the occurrences of a character; always one more than there are of it. -/
def pieces (mark : Char) : List Char → List (List Char)
  | [] => [[]]
  | c :: rest =>
    match pieces mark rest with
    | [] => [[c]]
    | piece :: others => if c = mark then [] :: piece :: others else (c :: piece) :: others

theorem pieces_ne_nil (mark : Char) (cs : List Char) : pieces mark cs ≠ [] := by
  cases cs with
  | nil => simp [pieces]
  | cons c rest =>
    simp only [pieces]
    split
    · simp
    · split <;> simp

/-- Nothing but the character at which the text is cut is lost. -/
theorem intercalate_pieces (mark : Char) (cs : List Char) :
    [mark].intercalate (pieces mark cs) = cs := by
  induction cs with
  | nil => rfl
  | cons c rest ih =>
    rw [pieces]
    split
    · next h => exact absurd h (pieces_ne_nil mark rest)
    · next piece others h =>
      rw [h] at ih
      split
      · next hc =>
        subst hc
        rw [List.intercalate_cons_cons, ih]
        rfl
      · cases others with
        | nil =>
          rw [List.intercalate_singleton] at ih ⊢
          rw [ih]
        | cons next others =>
          rw [List.intercalate_cons_cons] at ih ⊢
          rw [← ih]
          rfl

theorem mark_notMem_of_mem_pieces {mark : Char} {cs piece : List Char}
    (h : piece ∈ pieces mark cs) : mark ∉ piece := by
  induction cs generalizing piece with
  | nil =>
    rw [List.mem_singleton.mp h]
    exact List.not_mem_nil
  | cons c rest ih =>
    rw [pieces] at h
    split at h
    · next hn => exact absurd hn (pieces_ne_nil mark rest)
    · next first others hs =>
      rw [hs] at ih
      split at h
      · rcases List.mem_cons.mp h with rfl | h
        · exact List.not_mem_nil
        · exact ih h
      · next hc =>
        rcases List.mem_cons.mp h with rfl | h
        · intro hm
          rcases List.mem_cons.mp hm with e | hm
          · exact hc e.symm
          · exact ih List.mem_cons_self hm
        · exact ih (List.mem_cons_of_mem _ h)

/-- The pieces of a text. -/
def split (mark : Char) (text : String) : List String :=
  (pieces mark text.toList).map String.ofList

/-- The text before the first occurrence of a character, and the text after it if there is one. -/
def cut (mark : Char) (text : String) : String × Option String :=
  let start := text.toList.takeWhile (· != mark)
  match text.toList.dropWhile (· != mark) with
  | [] => (text, none)
  | _ :: rest => (String.ofList start, some (String.ofList rest))

example : split ',' "a,,b," = ["a", "", "b", ""] := by decide +kernel

example : cut '=' "id=a=b" = ("id", some "a=b") := by decide +kernel

end ResourceSchema.Text
