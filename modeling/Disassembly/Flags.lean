import Disassembly.FlagSet

/-!
# The families of flags

Flags of operands, of registers, of the parts of an address expression and of the
stages of decoding.
-/

namespace Disassembly

inductive OperandFlag where
  | read
  | write
  | execute
  | signed
  | address
  | indirect
deriving DecidableEq, Repr

instance : StoredFlag OperandFlag where
  width := 8
  all := [.read, .write, .execute, .signed, .address, .indirect]
  position
    | .read => 0
    | .write => 1
    | .execute => 2
    | .signed => 3
    | .address => 4
    | .indirect => 5
  name
    | .read => "read"
    | .write => "write"
    | .execute => "execute"
    | .signed => "signed"
    | .address => "address"
    | .indirect => "indirect"
  ident
    | .read => "R"
    | .write => "W"
    | .execute => "X"
    | .signed => "SIGNED"
    | .address => "ADDRESS"
    | .indirect => "INDIRECT"

inductive RegisterClass where
  | general
  | fpu
  | gpu
  | simd
  | task
  | memory
  | debug
  | programCounter
  | status
  | stackPointer
  | framePointer
  | segment
  | zero
  | argumentIn
  | argumentOut
deriving DecidableEq, Repr

instance : StoredFlag RegisterClass where
  width := 16
  all := [.general, .fpu, .gpu, .simd, .task, .memory, .debug, .programCounter, .status,
    .stackPointer, .framePointer, .segment, .zero, .argumentIn, .argumentOut]
  position
    | .general => 0
    | .fpu => 1
    | .gpu => 2
    | .simd => 3
    | .task => 4
    | .memory => 5
    | .debug => 6
    | .programCounter => 7
    | .status => 8
    | .stackPointer => 9
    | .framePointer => 10
    | .segment => 11
    | .zero => 12
    | .argumentIn => 13
    | .argumentOut => 14
  name
    | .general => "general purpose"
    | .fpu => "fpu"
    | .gpu => "gpu"
    | .simd => "simd"
    | .task => "task mgt"
    | .memory => "memory mgt"
    | .debug => "debug"
    | .programCounter => "pc"
    | .status => "flags"
    | .stackPointer => "stack pointer"
    | .framePointer => "frame pointer"
    | .segment => "segment"
    | .zero => "zero"
    | .argumentIn => "argument in"
    | .argumentOut => "argument out"
  ident
    | .general => "GENERAL"
    | .fpu => "FPU"
    | .gpu => "GPU"
    | .simd => "SIMD"
    | .task => "TASK"
    | .memory => "MEMORY"
    | .debug => "DEBUG"
    | .programCounter => "PC"
    | .status => "FLAGS"
    | .stackPointer => "STACK"
    | .framePointer => "FRAME"
    | .segment => "SEGMENT"
    | .zero => "ZERO"
    | .argumentIn => "IN"
    | .argumentOut => "OUT"

/-- A displacement has a flag of its own and one for its form. -/
inductive AddressElement where
  | base
  | index
  | displacement
  | unsignedDisplacement
  | signedDisplacement
  | absoluteDisplacement
deriving DecidableEq, Repr

instance : Flag AddressElement where
  width := 8
  position
    | .base => 0
    | .index => 1
    | .displacement => 2
    | .unsignedDisplacement => 3
    | .signedDisplacement => 4
    | .absoluteDisplacement => 5

/-- The stages of decoding. They are independent: each fills in fields of its own, and may be
complete without the others. -/
inductive Stage where
  | basic
  | mnemonic
  | operands
  | mnemonicFlags
  | operandFlags
deriving DecidableEq, Repr

instance : Flag Stage where
  width := 8
  position
    | .basic => 0
    | .mnemonic => 1
    | .operands => 2
    | .mnemonicFlags => 3
    | .operandFlags => 4

end Disassembly
