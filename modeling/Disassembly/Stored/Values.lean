import Disassembly.Address
import Disassembly.Layout
import Disassembly.Stored.Vocabulary

/-!
# Stored registers, addresses and layouts

Each is a record of its fields in order. The parts of an address expression may be
missing or `null`. A layout takes the usual size for every field that is missing, so an
array for it may stop early.
-/

namespace Disassembly
namespace Stored

def register? (name : String) (classes : FlagSet RegisterClass) (id size : UInt8) :
    Option Register :=
  if h : name.utf8ByteSize ≤ Register.nameSize then some ⟨name, classes, id, size, h⟩ else none

instance : Stored Register where
  toJson r := record [("name", toJson r.name), ("flags", toJson r.classes),
    ("id", toJson r.id), ("size", toJson r.size)]
  ofJson? j := do
    match ← fields? ["name", "flags", "id", "size"] j with
    | [name, classes, id, size] =>
        register? (← required? name) (← required? classes) (← required? id) (← required? size)
    | _ => none

instance : Stored AbsoluteAddress where
  toJson a := record [("segment", toJson a.segment), ("offset", toJson a.offset)]
  ofJson? j := do
    match ← fields? ["segment", "offset"] j with
    | [segment, offset] => some ⟨← required? segment, ← required? offset⟩
    | _ => none

def displacement? (ident : String) (content : Json) : Option Displacement :=
  if ident = "Unsigned" then (ofJson? content).map .unsigned
  else if ident = "Signed" then (ofJson? content).map .signed
  else if ident = "Absolute" then (ofJson? content).map .absolute
  else none

instance : Stored Displacement where
  toJson
    | .unsigned value => record [("Unsigned", toJson value)]
    | .signed value => record [("Signed", toJson value)]
    | .absolute address => record [("Absolute", toJson address)]
  ofJson? j :=
    match alternative? j with
    | some (ident, some content) => displacement? ident content
    | _ => none

instance : Stored AddressExpression where
  toJson e := record [("shift", toJson e.shift), ("scale", toJson e.scale),
    ("base", toJson e.base), ("index", toJson e.index),
    ("displacement", toJson e.displacement)]
  ofJson? j := do
    match ← fields? ["shift", "scale", "base", "index", "displacement"] j with
    | [shift, scale, base, index, displacement] =>
        some ⟨← required? shift, ← required? scale, ← orElse? none base, ← orElse? none index,
          ← orElse? none displacement⟩
    | _ => none

def layoutNames : List String := ["ascii_sz", "mnemonic_sz", "num_operands", "op_ascii_sz"]

def layoutFields? : Json → Option (List (Option Json))
  | .array elements =>
      if elements.length ≤ layoutNames.length then
        some (elements.map some ++ List.replicate (layoutNames.length - elements.length) none)
      else none
  | j => fields? layoutNames j

instance : Stored Layout where
  toJson l := record [("ascii_sz", toJson l.textSize), ("mnemonic_sz", toJson l.mnemonicSize),
    ("num_operands", toJson l.operandCount), ("op_ascii_sz", toJson l.operandTextSize)]
  ofJson? j := do
    match ← layoutFields? j with
    | [textSize, mnemonicSize, operandCount, operandTextSize] =>
        some ⟨← orElse? Layout.standard.textSize textSize,
          ← orElse? Layout.standard.mnemonicSize mnemonicSize,
          ← orElse? Layout.standard.operandCount operandCount,
          ← orElse? Layout.standard.operandTextSize operandTextSize⟩
    | _ => none

end Stored
end Disassembly
