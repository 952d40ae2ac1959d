import ResourceSchema.Resource.Model

/-!
# Pages of a list
-/

namespace ResourceSchema

/-- A page of a list, counted from one. -/
structure Page where
  number : UInt32
  size : UInt32
deriving DecidableEq, Repr

namespace Page

/-- The page that is listed when none is asked for. -/
def first (p : Pagination) : Page := ⟨p.defaultPageNumber, p.defaultPageSize⟩

/-- How many rows come before the page. -/
def rowsBefore (p : Page) : Nat := (p.number.toNat - 1) * p.size.toNat

/-- The number of rows before the page, as a word with sign. -/
def offset (p : Page) : Int64 := Int64.ofNat p.rowsBefore

/-- Reads a page. -/
def ofJson? (j : Json) : Option Page := do
  let m ← j.record? ["number", "size"] 2
  return ⟨← Json.required Json.uint32? m "number", ← Json.required Json.uint32? m "size"⟩

end Page

end ResourceSchema
