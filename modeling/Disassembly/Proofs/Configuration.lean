import Disassembly.Proofs.Restoring
import Disassembly.Proofs.Spelling

/-!
# Layouts from partial records

Members of an object that are named after a field of the layout say what the field is,
and have to be numbers that fit in a word. A field that no member is named after is as
in the standard layout, and no field may be named twice. Nothing else matters, except
that a key has to be a text.
-/

namespace Disassembly

inductive LayoutField where
  | textSize
  | mnemonicSize
  | operandCount
  | operandTextSize

def LayoutField.name : LayoutField → String
  | .textSize => "ascii_sz"
  | .mnemonicSize => "mnemonic_sz"
  | .operandCount => "num_operands"
  | .operandTextSize => "op_ascii_sz"

namespace Layout

def get (l : Layout) : LayoutField → UInt64
  | .textSize => l.textSize
  | .mnemonicSize => l.mnemonicSize
  | .operandCount => l.operandCount
  | .operandTextSize => l.operandTextSize

end Layout

namespace Stored

/-!
# What is given for a name
-/

def given (members : List (String × Json)) (name : String) : List Json :=
  (members.filter fun member => member.1 == name).map Prod.snd

def IsWord (j : Json) : Prop := ∃ n : UInt64, j = .integer n.toNat

theorem toNat_ofNat_toNat {value : Int} (hlow : 0 ≤ value) (hhigh : value ≤ 0xFFFFFFFFFFFFFFFF) :
    ((UInt64.ofNat value.toNat).toNat : Int) = value := by
  have hsmall : value.toNat < UInt64.size := by
    rw [Int.toNat_lt hlow]
    exact Int.lt_add_one_of_le hhigh
  rw [UInt64.toNat_ofNat_of_lt' hsmall, Int.toNat_of_nonneg hlow]

@[simp] theorem isWord_integer_iff {value : Int} :
    IsWord (.integer value) ↔ 0 ≤ value ∧ value ≤ 0xFFFFFFFFFFFFFFFF := by
  constructor
  · rintro ⟨n, hn⟩
    have hsmall : n.toNat < UInt64.size := n.toNat_lt
    rw [Json.integer.inj hn]
    exact ⟨Int.natCast_nonneg _, Int.le_of_lt_add_one (Int.ofNat_lt.mpr hsmall)⟩
  · rintro ⟨hlow, hhigh⟩
    exact ⟨UInt64.ofNat value.toNat, by rw [toNat_ofNat_toNat hlow hhigh]⟩

/-- An object is refused if a key holds half of a surrogate pair and so is no text. -/
theorem ofJson?_object_of_textless_key {members : List (JsonString × Json)} {j : Json}
    (h : (none, j) ∈ members) : (ofJson? (.object members) : Option Layout) = none := by
  have hkeys : (members.all fun member => member.1.isSome) ≠ true := by
    intro hall
    exact Bool.false_ne_true (List.all_eq_true.mp hall (none, j) h)
  have hfields : layoutFields? (.object members) = none := if_neg hkeys
  simp only [ofJson?, hfields, Option.bind_eq_bind, Option.bind_none]

/-!
# Texts that are read as a layout
-/

end Stored
end Disassembly
