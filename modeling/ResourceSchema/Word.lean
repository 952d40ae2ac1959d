/-!
# Integers that fit a machine word

Numbers in documents, requests and arguments have no limit of their own; where a word is wanted,
an integer is taken if some word has its value. The main statements say that it is exactly then.
-/

namespace ResourceSchema.Word

/-- The word of 64 bits with sign that has a value, if there is one. -/
def int64? (n : Int) : Option Int64 :=
  if Int64.minValue.toInt ≤ n ∧ n ≤ Int64.maxValue.toInt then some (Int64.ofInt n) else none

/-- The word of 32 bits without sign that has a value, if there is one. -/
def uint32? (n : Int) : Option UInt32 :=
  if 0 ≤ n ∧ n < UInt32.size then some (UInt32.ofNat n.toNat) else none

theorem int64?_eq_some_iff {n : Int} {w : Int64} : int64? n = some w ↔ w.toInt = n := by
  unfold int64?
  constructor
  · intro h
    split at h
    · rename_i bounds
      obtain rfl := Option.some.inj h
      have below : n < 9223372036854775808 := Int.lt_add_one_of_le bounds.2
      exact Int64.toInt_ofInt_of_le bounds.1 below
    · cases h
  · rintro rfl
    rw [if_pos ⟨w.minValue_le_toInt, w.toInt_le⟩, Int64.ofInt_toInt]

theorem uint32?_eq_some_iff {n : Int} {w : UInt32} : uint32? n = some w ↔ (w.toNat : Int) = n := by
  unfold uint32?
  constructor
  · intro h
    split at h
    · rename_i bounds
      obtain rfl := Option.some.inj h
      have small : n.toNat < UInt32.size := (Int.toNat_lt bounds.1).mpr bounds.2
      rw [UInt32.toNat_ofNat_of_lt' small, Int.toNat_of_nonneg bounds.1]
    · cases h
  · rintro rfl
    rw [if_pos ⟨Int.natCast_nonneg _, Int.ofNat_lt.mpr w.toNat_lt_size⟩, Int.toNat_natCast,
      UInt32.ofNat_toNat]

end ResourceSchema.Word
