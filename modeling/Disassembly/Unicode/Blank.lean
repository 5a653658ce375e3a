/-!
# Blank characters

The blank characters are those with the Unicode property `White_Space`.
-/

namespace Disassembly
namespace Unicode

def isBlank (c : Char) : Bool :=
  (0x09 ≤ c.toNat && c.toNat ≤ 0x0D) || c.toNat == 0x20 || c.toNat == 0x85 ||
    c.toNat == 0xA0 || c.toNat == 0x1680 || (0x2000 ≤ c.toNat && c.toNat ≤ 0x200A) ||
    c.toNat == 0x2028 || c.toNat == 0x2029 || c.toNat == 0x202F || c.toNat == 0x205F ||
    c.toNat == 0x3000

def trimList (cs : List Char) : List Char :=
  ((cs.dropWhile isBlank).reverse.dropWhile isBlank).reverse

def trim (s : String) : String := String.ofList (trimList s.toList)

theorem dropWhile_isBlank_eq_nil_iff {cs : List Char} :
    cs.dropWhile isBlank = [] ↔ ∀ c ∈ cs, isBlank c = true := by
  induction cs with
  | nil => simp
  | cons c rest ih =>
      by_cases h : isBlank c = true
      · simp [h, ih]
      · simp [h]

theorem trimList_eq_nil_iff {cs : List Char} :
    trimList cs = [] ↔ ∀ c ∈ cs, isBlank c = true := by
  rw [trimList, List.reverse_eq_nil_iff, dropWhile_isBlank_eq_nil_iff]
  constructor
  · intro h
    apply dropWhile_isBlank_eq_nil_iff.1
    cases start : cs.dropWhile isBlank with
    | nil => rfl
    | cons c rest =>
        have blank : isBlank c = true := h c (by simp [start])
        have sharp := List.head_dropWhile_not isBlank (l := cs) (by simp [start])
        simp [start, blank] at sharp
  · intro h
    simp [dropWhile_isBlank_eq_nil_iff.2 h]

end Unicode
end Disassembly
