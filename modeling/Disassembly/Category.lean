import Disassembly.Vocabulary

/-!
# Instruction categories

Some categories say more about the instruction by a tag of their own, which can only be
read together with the category.
-/

namespace Disassembly

inductive Category where
  | unknown
  | controlFlow (transfer : ControlTransfer)
  | stack (effect : StackEffect)
  | loadStore
  | test
  | math
  | bit (operation : BitOperation)
  | io (access : PortAccess)
  | trap
  | privileged
  | nop
deriving DecidableEq, Ord, Repr, Inhabited

namespace Category

instance : Tag Category where
  kind := "InsnCategory"
  all := [.unknown, .controlFlow .none, .stack .none, .loadStore, .test, .math, .bit .none,
    .io .none, .trap, .privileged, .nop]
  name
    | .unknown => "unknown"
    | .controlFlow _ => "control-flow"
    | .stack _ => "stack"
    | .loadStore => "load/store"
    | .test => "test"
    | .math => "mathematic"
    | .bit _ => "bitwise"
    | .io _ => "i/o"
    | .trap => "trap"
    | .privileged => "privileged"
    | .nop => "no-op"
  ident
    | .unknown => "Unknown"
    | .controlFlow _ => "ControlFlow"
    | .stack _ => "Stack"
    | .loadStore => "LoadStore"
    | .test => "Test"
    | .math => "Math"
    | .bit _ => "Bit"
    | .io _ => "Io"
    | .trap => "Trap"
    | .privileged => "Privileged"
    | .nop => "Nop"

def detailIdent? : Category → Option String
  | .controlFlow transfer => some (Tag.ident transfer)
  | .stack effect => some (Tag.ident effect)
  | .bit operation => some (Tag.ident operation)
  | .io access => some (Tag.ident access)
  | _ => none

/-- The name of a tag, unless it says nothing. -/
def nameUnlessDefault {α : Type} [Tag α] [DecidableEq α] [Inhabited α] (tag : α) :
    Option String :=
  if tag = default then none else some (Tag.name tag)

def detailName? : Category → Option String
  | .controlFlow transfer => nameUnlessDefault transfer
  | .stack effect => nameUnlessDefault effect
  | .bit operation => nameUnlessDefault operation
  | .io access => nameUnlessDefault access
  | _ => none

def transfer? : Category → Option ControlTransfer
  | .controlFlow transfer => some transfer
  | _ => none

def isControlFlow (c : Category) : Bool := c.transfer?.isSome

def isBranch : Category → Bool
  | .controlFlow .call => true
  | .controlFlow .conditionalCall => true
  | .controlFlow .jump => true
  | .controlFlow .conditionalJump => true
  | _ => false

/-- Whether execution may go on with the following instruction: it does not after an unconditional
jump or a return. -/
def fallsThrough : Category → Bool
  | .controlFlow .jump => false
  | .controlFlow .ret => false
  | _ => true

end Category
end Disassembly
