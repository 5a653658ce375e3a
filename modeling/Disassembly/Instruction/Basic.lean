import Disassembly.Category
import Disassembly.Instruction.Field
import Disassembly.Layout
import Disassembly.Operand.Table

/-!
# Instructions

A growable instruction has texts that are unset until they are needed. A fixed one has a
layout: its texts are bounded and its operands are made in advance. A reference is
checked when it is set, and again when it is followed.
-/

namespace Disassembly

inductive Role where
  | target
  | destination
  | source
deriving DecidableEq, Repr

structure References where
  target : Option OperandRef := none
  destination : Option OperandRef := none
  source : Option OperandRef := none
deriving DecidableEq, Repr, Inhabited

namespace References

def get (r : References) : Role → Option OperandRef
  | .target => r.target
  | .destination => r.destination
  | .source => r.source

def set (r : References) (role : Role) (ref : Option OperandRef) : References :=
  match role with
  | .target => { r with target := ref }
  | .destination => { r with destination := ref }
  | .source => { r with source := ref }

def filter (r : References) (p : OperandRef → Bool) : References where
  target := r.target.filter p
  destination := r.destination.filter p
  source := r.source.filter p

@[simp] theorem get_set_self (r : References) (role : Role) (ref : Option OperandRef) :
    (r.set role ref).get role = ref := by
  cases role <;> rfl

theorem get_set_of_ne {role other : Role} (h : other ≠ role) (r : References)
    (ref : Option OperandRef) : (r.set role ref).get other = r.get other := by
  cases role <;> cases other <;> simp_all [get, set]

@[simp] theorem get_filter (r : References) (p : OperandRef → Bool) (role : Role) :
    (r.filter p).get role = (r.get role).filter p := by
  cases role <;> rfl

end References

structure Instruction where
  status : FlagSet Stage := .empty
  text : TextField := none
  offset : UInt64 := 0
  address : UInt64 := 0
  size : UInt64 := 0
  bytes : List UInt8 := []
  prefixCount : Nat := 0
  prefixes : TextField := none
  mnemonic : TextField := none
  category : Category := .unknown
  isa : IsaSubset := .general
  comment : TextField := none
  operands : OperandTable := {}
  references : References := {}
  layout : Option Layout := none
deriving DecidableEq, Repr, Inhabited

namespace Instruction

/-!
# Making instructions
-/

def empty : Instruction := {}

def withSlots (n : Nat) : Except Error Instruction := do
  let operands ← OperandTable.withSlots n
  return { operands }

def ofLayout (l : Layout) : Except Error Instruction := do
  let slots ← OperandTable.withSlots l.operandCount.toNat
  let text ← TextField.withCapacity .instructionText l.textSize.toNat
  let prefixes ← TextField.withCapacity .prefixes l.prefixesSize.toNat
  let mnemonic ← TextField.withCapacity .mnemonic l.mnemonicSize.toNat
  let comment ← TextField.withCapacity .comment l.textSize.toNat
  let operands ← slots.fillSlots l.operandTextSize.toNat
  return { text, prefixes, mnemonic, comment, operands, layout := some l }

def isValid (i : Instruction) (ref : OperandRef) : Bool := ref.index < i.operands.count

/-- A growable copy. It has a slot for each operand, the operands and the references that lead to
them. -/
def dupe (i : Instruction) : Except Error Instruction := do
  let slots ← OperandTable.withSlots i.operands.count
  let text ← i.text.snapshot .instructionText
  let prefixes ← i.prefixes.snapshot .prefixes
  let mnemonic ← i.mnemonic.snapshot .mnemonic
  let comment ← i.comment.snapshot .comment
  let operands ← slots.fillCopies i.operands.toList
  return {
    status := i.status
    text
    offset := i.offset
    address := i.address
    size := i.size
    bytes := i.bytes
    prefixCount := if i.prefixes.isSome then i.prefixCount else 0
    prefixes
    mnemonic
    category := i.category
    isa := i.isa
    comment
    operands
    references := i.references.filter fun ref => ref.index < operands.count
  }

/-!
# Observing
-/

def isFixed (i : Instruction) : Bool := i.layout.isSome

def reference? (i : Instruction) (role : Role) : Option OperandRef :=
  (i.references.get role).filter i.isValid

def referent? (i : Instruction) (role : Role) : Option Operand :=
  (i.references.get role).bind fun ref => i.operands.get? ref.index

def hasBranchInfo (i : Instruction) : Bool :=
  i.status.contains .operands && i.status.contains .mnemonicFlags

def commentSeparator (i : Instruction) : String := if i.isFixed then " " else ";"

def writeIsa (i : Instruction) (buffer : Text) : Outcome Text Error Nat :=
  (buffer.push (Tag.name i.isa)).mapError (.ofStorage .isaName)

def writeCategory (i : Instruction) (buffer : Text) : Outcome Text Error Nat :=
  (buffer.push (Tag.name i.category)).mapError (.ofStorage .categoryName)

def writeDetail (i : Instruction) (buffer : Text) (delimiter : String) : Outcome Text Error Nat :=
  (buffer.push (delimiter.intercalate i.category.detailName?.toList)).mapError
    (.ofStorage .categoryDetail)

/-!
# Changing instructions
-/

def ofField (resource : Resource) (put : TextField → Instruction)
    (o : Outcome TextField StorageError Nat) : Outcome Instruction Error Unit :=
  ((o.within put).mapError (.ofStorage resource)).map fun _ => ()

def setText (i : Instruction) (s : String) : Outcome Instruction Error Unit :=
  ofField .instructionText (fun text => { i with text }) (i.text.assign s)

def setMnemonic (i : Instruction) (s : String) : Outcome Instruction Error Unit :=
  ofField .mnemonic (fun mnemonic => { i with mnemonic }) (i.mnemonic.assign s)

/-- Adds a prefix. It is counted if at least a part of it is stored. -/
def addPrefix (i : Instruction) (token : String) : Outcome Instruction Error Unit :=
  let outcome := i.prefixes.append " " token
  let prefixCount :=
    match outcome.result with
    | .ok stored => if stored = 0 then i.prefixCount else i.prefixCount + 1
    | .error _ => i.prefixCount
  ofField .prefixes (fun prefixes => { i with prefixes, prefixCount }) outcome

def addComment (i : Instruction) (entry : String) : Outcome Instruction Error Unit :=
  ofField .comment (fun comment => { i with comment })
    (i.comment.append i.commentSeparator entry)

def setStatus (i : Instruction) (status : FlagSet Stage) : Instruction := { i with status }

def mark (i : Instruction) (stages : FlagSet Stage) : Instruction :=
  { i with status := i.status ∪ stages }

def setOffset (i : Instruction) (offset : UInt64) : Instruction := { i with offset }

def setAddress (i : Instruction) (address : UInt64) : Instruction := { i with address }

def setSize (i : Instruction) (size : UInt64) : Instruction := { i with size }

def setBytes (i : Instruction) (bytes : List UInt8) : Instruction := { i with bytes }

def setCategory (i : Instruction) (category : Category) : Instruction := { i with category }

def setIsa (i : Instruction) (isa : IsaSubset) : Instruction := { i with isa }

/-- Gives up what was decoded. Texts that are set become empty, and the operands wait in their
slots. Where the instruction lies and how large it is stays as it was. -/
def clear (i : Instruction) : Instruction :=
  { i with
    status := .empty
    text := i.text.clear
    prefixes := i.prefixes.clear
    mnemonic := i.mnemonic.clear
    comment := i.comment.clear
    prefixCount := 0
    category := .unknown
    isa := .general
    operands := i.operands.clear
    references := {} }

structure AddOperandError where
  operand : Operand
  cause : Error
deriving DecidableEq, Repr

def AddOperandError.message (e : AddOperandError) : String :=
  "operand not appended: " ++ e.cause.message

def addOperand (i : Instruction) (o : Operand) :
    Outcome Instruction AddOperandError OperandRef :=
  match i.operands.push? o with
  | some operands => .done { i with operands } ⟨i.operands.count⟩
  | none => .refused i ⟨o, .allocation .operandSlots (i.operands.slots.length + 1)⟩

/-- Hands out the operand that waits in the next free slot, cleared for reuse. -/
def nextOperand (i : Instruction) : Option Operand × Instruction :=
  match i.operands.waiting? with
  | none => (none, i)
  | some o =>
      (some o.clear, { i with operands := i.operands.place i.operands.count o.clear })

def putNext (i : Instruction) (o : Operand) : Instruction :=
  { i with operands := i.operands.place i.operands.count o }

def commitNext (i : Instruction) : Option OperandRef × Instruction :=
  match i.operands.commit? with
  | some operands => (some ⟨i.operands.count⟩, { i with operands })
  | none => (none, i)

def putOperand (i : Instruction) (index : Nat) (o : Operand) : Instruction :=
  { i with operands := i.operands.place index o }

def setReference (i : Instruction) (role : Role) (ref : OperandRef) :
    Outcome Instruction Error Unit :=
  if i.isValid ref then .done { i with references := i.references.set role (some ref) } ()
  else .refused i (.invalidOperand ref.index i.operands.count)

end Instruction
end Disassembly
