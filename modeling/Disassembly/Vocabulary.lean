import Disassembly.Tag

/-!
# The vocabulary of instructions

The tags with which a decoder describes instructions and operands.
-/

namespace Disassembly

inductive ControlTransfer where
  | none
  | call
  | conditionalCall
  | jump
  | conditionalJump
  | ret
deriving DecidableEq, Ord, Repr, Inhabited

instance : Tag ControlTransfer where
  kind := "CflowFlag"
  all := [.none, .call, .conditionalCall, .jump, .conditionalJump, .ret]
  name
    | .none => "none"
    | .call => "call"
    | .conditionalCall => "conditional call"
    | .jump => "jump"
    | .conditionalJump => "conditional jump"
    | .ret => "return"
  ident
    | .none => "None"
    | .call => "Call"
    | .conditionalCall => "CallCc"
    | .jump => "Jmp"
    | .conditionalJump => "JmpCc"
    | .ret => "Ret"

inductive StackEffect where
  | none
  | push
  | pop
  | enterFrame
  | exitFrame
deriving DecidableEq, Ord, Repr, Inhabited

instance : Tag StackEffect where
  kind := "StackFlag"
  all := [.none, .push, .pop, .enterFrame, .exitFrame]
  name
    | .none => "none"
    | .push => "push"
    | .pop => "pop"
    | .enterFrame => "enter frame"
    | .exitFrame => "exit frame"
  ident
    | .none => "None"
    | .push => "Push"
    | .pop => "Pop"
    | .enterFrame => "Frame"
    | .exitFrame => "Unframe"

inductive BitOperation where
  | none
  | and
  | or
  | xor
  | not
  | logicalShiftLeft
  | logicalShiftRight
  | arithmeticShiftLeft
  | arithmeticShiftRight
  | rotateLeft
  | rotateRight
  | rotateCarryLeft
  | rotateCarryRight
deriving DecidableEq, Ord, Repr, Inhabited

instance : Tag BitOperation where
  kind := "BitFlag"
  all := [.none, .and, .or, .xor, .not, .logicalShiftLeft, .logicalShiftRight,
    .arithmeticShiftLeft, .arithmeticShiftRight, .rotateLeft, .rotateRight,
    .rotateCarryLeft, .rotateCarryRight]
  name
    | .none => "none"
    | .and => "and"
    | .or => "or"
    | .xor => "xor"
    | .not => "not"
    | .logicalShiftLeft => "logical shift left"
    | .logicalShiftRight => "logical shift right"
    | .arithmeticShiftLeft => "arithmetic shift left"
    | .arithmeticShiftRight => "arithmetic shift right"
    | .rotateLeft => "rotate left"
    | .rotateRight => "rotate right"
    | .rotateCarryLeft => "rotate carry left"
    | .rotateCarryRight => "rotate carry right"
  ident
    | .none => "None"
    | .and => "And"
    | .or => "Or"
    | .xor => "Xor"
    | .not => "Not"
    | .logicalShiftLeft => "Lsl"
    | .logicalShiftRight => "Lsr"
    | .arithmeticShiftLeft => "Asl"
    | .arithmeticShiftRight => "Asr"
    | .rotateLeft => "Rol"
    | .rotateRight => "Ror"
    | .rotateCarryLeft => "Rcl"
    | .rotateCarryRight => "Rcr"

inductive PortAccess where
  | none
  | input
  | output
deriving DecidableEq, Ord, Repr, Inhabited

instance : Tag PortAccess where
  kind := "IoFlag"
  all := [.none, .input, .output]
  name
    | .none => "none"
    | .input => "input"
    | .output => "output"
  ident
    | .none => "None"
    | .input => "In"
    | .output => "Out"

inductive IsaSubset where
  | general
  | fpu
  | gpu
  | simd
  | virtualization
deriving DecidableEq, Ord, Repr, Inhabited

instance : Tag IsaSubset where
  kind := "IsaSubset"
  all := [.general, .fpu, .gpu, .simd, .virtualization]
  name
    | .general => "general purpose"
    | .fpu => "fpu"
    | .gpu => "gpu"
    | .simd => "simd"
    | .virtualization => "virtualization"
  ident
    | .general => "General"
    | .fpu => "Fpu"
    | .gpu => "Gpu"
    | .simd => "Simd"
    | .virtualization => "Vm"

inductive OperandKind where
  | unknown
  | register
  | immediate
  | expression
  | absolute
deriving DecidableEq, Ord, Repr, Inhabited

instance : Tag OperandKind where
  kind := "OperandCategory"
  all := [.unknown, .register, .immediate, .expression, .absolute]
  name
    | .unknown => "unknown"
    | .register => "register"
    | .immediate => "immediate"
    | .expression => "address expression"
    | .absolute => "absolute address"
  ident
    | .unknown => "Unknown"
    | .register => "Register"
    | .immediate => "Immediate"
    | .expression => "Expression"
    | .absolute => "Absolute"

inductive IndexShift where
  | logicalLeft
  | logicalRight
  | arithmeticLeft
  | rotateRight
  | rotateRightExtended
deriving DecidableEq, Ord, Repr, Inhabited

instance : Tag IndexShift where
  kind := "ShiftKind"
  all := [.logicalLeft, .logicalRight, .arithmeticLeft, .rotateRight, .rotateRightExtended]
  name
    | .logicalLeft => "lsl"
    | .logicalRight => "lsr"
    | .arithmeticLeft => "asl"
    | .rotateRight => "ror"
    | .rotateRightExtended => "rrx"
  ident
    | .logicalLeft => "Lsl"
    | .logicalRight => "Lsr"
    | .arithmeticLeft => "Asl"
    | .rotateRight => "Ror"
    | .rotateRightExtended => "Rrx"

end Disassembly
