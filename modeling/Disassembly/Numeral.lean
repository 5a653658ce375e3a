/-!
# Hexadecimal numerals

Digits are written in lower case and read in either case.
-/

namespace Disassembly
namespace Numeral

def hexValue? (c : Char) : Option Nat :=
  if '0' ≤ c ∧ c ≤ '9' then some (c.toNat - '0'.toNat)
  else if 'a' ≤ c ∧ c ≤ 'f' then some (c.toNat - 'a'.toNat + 10)
  else if 'A' ≤ c ∧ c ≤ 'F' then some (c.toNat - 'A'.toNat + 10)
  else none

/-- The number with the given hexadecimal digits behind the digits of `high`. -/
def hexFrom? (high : Nat) : List Char → Option Nat
  | [] => some high
  | c :: rest =>
      match hexValue? c with
      | some digit => hexFrom? (16 * high + digit) rest
      | none => none

def ofHex? : List Char → Option Nat
  | [] => none
  | digits => hexFrom? 0 digits

def toHex (n : Nat) : List Char := Nat.toDigits 16 n

theorem hexValue?_digitChar {d : Nat} (h : d < 16) : hexValue? d.digitChar = some d := by
  revert d
  decide

theorem hexFrom?_append (high : Nat) (front back : List Char) :
    hexFrom? high (front ++ back) = (hexFrom? high front).bind (hexFrom? · back) := by
  induction front generalizing high with
  | nil => rfl
  | cons c rest ih =>
      cases h : hexValue? c with
      | none => simp [hexFrom?, h]
      | some digit => simp [hexFrom?, h, ih]

theorem hexFrom?_toHex (n : Nat) : hexFrom? 0 (toHex n) = some n := by
  induction n using Nat.strongRecOn with
  | ind n ih =>
      rw [toHex, Nat.toDigits_eq_if (by decide)]
      by_cases small : n < 16
      · simp [small, hexFrom?, hexValue?_digitChar small]
      · have last : n % 16 < 16 := Nat.mod_lt _ (by decide)
        have front := ih (n / 16) (by omega)
        rw [toHex] at front
        simp only [small, if_false, hexFrom?_append, front, Option.bind_some, hexFrom?,
          hexValue?_digitChar last, Option.some.injEq]
        omega

theorem ofHex?_toHex (n : Nat) : ofHex? (toHex n) = some n := by
  have nonempty : toHex n ≠ [] := Nat.toDigits_ne_nil
  rw [← hexFrom?_toHex n]
  cases digits : toHex n with
  | nil => exact absurd digits nonempty
  | cons c rest => rfl

end Numeral
end Disassembly
