/-!
# Layouts of fixed instructions

Every capacity counts the byte of the terminator.
-/

namespace Disassembly

/-- Four times the capacity of the mnemonic, but no more than a word can say. -/
def prefixSize (mnemonicSize : UInt64) : UInt64 :=
  UInt64.ofNat (min (4 * mnemonicSize.toNat) (UInt64.size - 1))

structure Layout where
  textSize : UInt64 := 128
  mnemonicSize : UInt64 := 16
  operandCount : UInt64 := 4
  operandTextSize : UInt64 := 64
deriving DecidableEq, Repr

namespace Layout

def standard : Layout := {}

instance : Inhabited Layout := ⟨standard⟩

def withTextSize (l : Layout) (n : UInt64) : Layout := { l with textSize := n }

def withMnemonicSize (l : Layout) (n : UInt64) : Layout := { l with mnemonicSize := n }

def withOperandCount (l : Layout) (n : UInt64) : Layout := { l with operandCount := n }

def withOperandTextSize (l : Layout) (n : UInt64) : Layout := { l with operandTextSize := n }

def prefixesSize (l : Layout) : UInt64 := prefixSize l.mnemonicSize

end Layout

theorem toNat_prefixSize (mnemonicSize : UInt64) :
    (prefixSize mnemonicSize).toNat = min (4 * mnemonicSize.toNat) (UInt64.size - 1) := by
  rw [prefixSize, UInt64.toNat_ofNat']
  exact Nat.mod_eq_of_lt (by simp only [UInt64.size]; omega)

end Disassembly
