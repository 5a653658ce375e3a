import Disassembly.Text.Storage

/-!
# Errors of operands and instructions

An update of an operand or an instruction is refused for want of storage, or because it
refers to an operand that has not been decoded.
-/

namespace Disassembly

inductive Resource where
  | operandSlots
  | instructionText
  | prefixes
  | mnemonic
  | comment
  | operandText
  | registerClasses
  | shiftName
  | operandKind
  | operandFlags
  | isaName
  | categoryName
  | categoryDetail
deriving DecidableEq, Repr

def Resource.label : Resource → String
  | .operandSlots => "operand slots"
  | .instructionText => "instruction ascii"
  | .prefixes => "prefixes"
  | .mnemonic => "mnemonic"
  | .comment => "comment"
  | .operandText => "operand ascii"
  | .registerClasses => "register flags string"
  | .shiftName => "shift string"
  | .operandKind => "operand category string"
  | .operandFlags => "operand flags string"
  | .isaName => "isa string"
  | .categoryName => "category string"
  | .categoryDetail => "flags string"

inductive Error where
  | allocation (resource : Resource) (requested : Nat)
  /-- No operand has been decoded at this index; `count` have. -/
  | invalidOperand (index count : Nat)
deriving DecidableEq, Repr

namespace Error

def ofStorage (resource : Resource) (e : StorageError) : Error :=
  .allocation resource e.requested

def isAllocation : Error → Bool
  | .allocation _ _ => true
  | .invalidOperand _ _ => false

def message : Error → String
  | .allocation resource requested =>
      "could not allocate " ++ toString requested ++ " units for " ++ resource.label
  | .invalidOperand index count =>
      "operand #" ++ toString index ++ " is not one of the " ++ toString count ++
        " decoded operands"

end Error
end Disassembly
