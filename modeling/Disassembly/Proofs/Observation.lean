import Disassembly.Instruction.Display
import Disassembly.Instruction.Run

/-!
# What can be observed

A `View` collects the answers of the observers. It leaves out where the instruction
lies: the line that displays an instruction is its address and the description that the
view contains. The contents of an instruction are what it says, without the way in which
it is stored.
-/

namespace Disassembly

structure Operand.Contents where
  text : String
  flags : FlagSet OperandFlag
  value : OperandValue
  dataSize : UInt8
deriving DecidableEq

structure Operand.View extends Operand.Contents where
  capacity? : Option Nat
deriving DecidableEq

def Operand.contents (o : Operand) : Operand.Contents where
  text := o.text.content
  flags := o.flags
  value := o.value
  dataSize := o.dataSize

def Operand.view (o : Operand) : Operand.View where
  toContents := o.contents
  capacity? := o.text.capacity?

namespace Instruction

structure View where
  status : FlagSet Stage
  text? : Option String
  prefixes? : Option String
  prefixCount : Nat
  mnemonic? : Option String
  comment? : Option String
  category : Category
  isa : IsaSubset
  layout : Option Layout
  operandCount : Nat
  slotCount : Nat
  operands : List Operand.View
  operand? : Nat → Option Operand.View
  reference? : Role → Option OperandRef
  referent? : Role → Option Operand.View
  description? : Option String

def view (i : Instruction) : View where
  status := i.status
  text? := i.text.content?
  prefixes? := i.prefixes.content?
  prefixCount := i.prefixCount
  mnemonic? := i.mnemonic.content?
  comment? := i.comment.content?
  category := i.category
  isa := i.isa
  layout := i.layout
  operandCount := i.operands.count
  slotCount := i.operands.slots.length
  operands := i.operands.toList.map Operand.view
  operand? := fun index => (i.operands.get? index).map Operand.view
  reference? := i.reference?
  referent? := fun role => (i.referent? role).map Operand.view
  description? := i.description?

structure Contents where
  status : FlagSet Stage
  text : String
  offset : UInt64
  address : UInt64
  size : UInt64
  bytes : List UInt8
  prefixCount : Nat
  prefixes : String
  mnemonic : String
  comment : String
  category : Category
  isa : IsaSubset
  operandCount : Nat
  operands : List Operand.Contents
  operand? : Nat → Option Operand.Contents
  reference? : Role → Option OperandRef
  referent? : Role → Option Operand.Contents
  display : String

def contents (i : Instruction) : Contents where
  status := i.status
  text := i.text.content
  offset := i.offset
  address := i.address
  size := i.size
  bytes := i.bytes
  prefixCount := i.prefixCount
  prefixes := i.prefixes.content
  mnemonic := i.mnemonic.content
  comment := i.comment.content
  category := i.category
  isa := i.isa
  operandCount := i.operands.count
  operands := i.operands.toList.map Operand.contents
  operand? := fun index => (i.operands.get? index).map Operand.contents
  reference? := i.reference?
  referent? := fun role => (i.referent? role).map Operand.contents
  display := i.display

/-!
# Runs, one operation at a time
-/

theorem run_concat (i : Instruction) (front : List Operation) (last : Operation) :
    i.run (front ++ [last]) =
      ((i.run front).1 ++ [((i.run front).2.perform last).1],
        ((i.run front).2.perform last).2) := by
  rw [run_append]
  rfl

theorem display_eq_of_address_eq {i j : Instruction} (haddress : i.address = j.address)
    (hdescription : i.description? = j.description?) : i.display = j.display := by
  rw [display, display, displayAddress, displayAddress, haddress, hdescription]

theorem display_eq_of_texts {i j : Instruction} (haddress : i.address = j.address)
    (htext : i.text.content = j.text.content)
    (hprefixes : i.prefixes.content = j.prefixes.content)
    (hmnemonic : i.mnemonic.content = j.mnemonic.content)
    (hoperands : i.operands.toList.map (fun o => o.text.content) =
      j.operands.toList.map fun o => o.text.content) : i.display = j.display := by
  apply display_eq_of_address_eq haddress
  simp only [description?, displayParts, displayOperands, htext, hprefixes, hmnemonic, hoperands]

end Instruction
end Disassembly
