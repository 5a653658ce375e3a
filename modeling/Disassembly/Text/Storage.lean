/-!
# Storage for text

A reservation makes the storage just large enough, unless it is already.
-/

namespace Disassembly

structure StorageError where
  requested : Nat
deriving DecidableEq, Repr

def StorageError.message (e : StorageError) : String :=
  "could not reserve " ++ toString e.requested ++ " bytes of text storage"

namespace Storage

/-- No storage holds this many bytes, and no table this many slots. -/
def limit : Nat := 0x8000000000000000

def grow? (capacity used extra : Nat) : Option Nat :=
  if used + extra ≤ capacity then some capacity
  else if used + extra < limit then some (used + extra)
  else none

theorem grow?_of_le {capacity used extra : Nat} (h : used + extra ≤ capacity) :
    grow? capacity used extra = some capacity := by
  simp [grow?, h]

theorem grow?_eq_none_iff {capacity used extra : Nat} :
    grow? capacity used extra = none ↔ capacity < used + extra ∧ limit ≤ used + extra := by
  by_cases fits : used + extra ≤ capacity
  · simp [grow?, fits, Nat.not_lt.2 fits]
  · by_cases below : used + extra < limit
    · simp [grow?, fits, below]
    · simp [grow?, fits, below]
      omega

end Storage
end Disassembly
