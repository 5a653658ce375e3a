import Disassembly.Address
import Disassembly.Immediate

/-!
# Operands

The text of an operand is growable or bounded, as chosen when the operand is made; a
copy of an operand has growable text.
-/

namespace Disassembly

inductive OperandValue where
  | none
  | register (register : Register)
  | expression (expression : AddressExpression)
  | absolute (address : AbsoluteAddress)
  | immediate (immediate : Immediate)
deriving DecidableEq, Repr

namespace OperandValue

instance : Inhabited OperandValue := ⟨.none⟩

def kind : OperandValue → OperandKind
  | .none => .unknown
  | .register _ => .register
  | .expression _ => .expression
  | .absolute _ => .absolute
  | .immediate _ => .immediate

def register? : OperandValue → Option Register
  | .register r => some r
  | _ => Option.none

def expression? : OperandValue → Option AddressExpression
  | .expression e => some e
  | _ => Option.none

def absolute? : OperandValue → Option AbsoluteAddress
  | .absolute a => some a
  | _ => Option.none

def immediate? : OperandValue → Option Immediate
  | .immediate i => some i
  | _ => Option.none

end OperandValue

structure Operand where
  text : Text := .empty
  flags : FlagSet OperandFlag := .empty
  value : OperandValue := .none
  dataSize : UInt8 := 0
deriving DecidableEq, Repr

namespace Operand

def empty : Operand := {}

instance : Inhabited Operand := ⟨empty⟩

def withCapacity (capacity : Nat) : Except Error Operand :=
  match Text.withCapacity capacity with
  | .ok text => .ok { text }
  | .error e => .error (.ofStorage .operandText e)

def dupe (o : Operand) : Except Error Operand :=
  match o.text.snapshot with
  | .ok text => .ok { o with text }
  | .error e => .error (.ofStorage .operandText e)

def isBounded (o : Operand) : Bool := o.text.isBounded

def kind (o : Operand) : OperandKind := o.value.kind

def same (o p : Operand) : Bool :=
  o.text.same p.text && o.flags == p.flags && o.value == p.value && o.dataSize == p.dataSize

def isBlank (o : Operand) : Bool :=
  o.text.content == "" && o.flags.isEmpty && o.value == .none && o.dataSize == 0

def writeKind (o : Operand) (buffer : Text) : Outcome Text Error Nat :=
  (buffer.push (Tag.name o.kind)).mapError (.ofStorage .operandKind)

def writeFlags (o : Operand) (buffer : Text) (delimiter : String) : Outcome Text Error Nat :=
  (buffer.push (o.flags.join delimiter)).mapError (.ofStorage .operandFlags)

/-- Makes the operand blank and keeps the storage of its text. -/
def clear (o : Operand) : Operand := { text := o.text.clear }

def setText (o : Operand) (s : String) : Outcome Operand Error Unit :=
  (((o.text.set s).within fun text => { o with text }).mapError (.ofStorage .operandText)).map
    fun _ => ()

def setFlags (o : Operand) (flags : FlagSet OperandFlag) : Operand := { o with flags }

def setValue (o : Operand) (value : OperandValue) : Operand := { o with value }

def setDataSize (o : Operand) (dataSize : UInt8) : Operand := { o with dataSize }

@[simp] theorem isBlank_clear (o : Operand) : o.clear.isBlank = true := by
  simp [clear, isBlank, FlagSet.isEmpty, FlagSet.empty]

@[simp] theorem capacity?_text_clear (o : Operand) :
    o.clear.text.capacity? = o.text.capacity? := by
  simp [clear]

end Operand
end Disassembly
