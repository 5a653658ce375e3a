import Disassembly.Register
import Disassembly.Vocabulary

/-!
# Addresses

An absolute address is an offset in a segment. An address expression computes an address
from parts, each of which may be missing.
-/

namespace Disassembly

structure AbsoluteAddress where
  segment : Register
  offset : UInt64
deriving DecidableEq, Repr

inductive Displacement where
  | unsigned (value : UInt64)
  | signed (value : Int32)
  | absolute (address : AbsoluteAddress)
deriving DecidableEq, Repr

def Displacement.form : Displacement → AddressElement
  | .unsigned _ => .unsignedDisplacement
  | .signed _ => .signedDisplacement
  | .absolute _ => .absoluteDisplacement

structure AddressExpression where
  shift : IndexShift := .logicalLeft
  scale : Int8 := 1
  base : Option Register := none
  index : Option Register := none
  displacement : Option Displacement := none
deriving DecidableEq, Repr

namespace AddressExpression

def empty : AddressExpression := {}

instance : Inhabited AddressExpression := ⟨empty⟩

inductive Part where
  | base (register : Register)
  | index (register : Register) (scale : Int8)
  | shift (shift : IndexShift)
  | displacement (displacement : Displacement)
deriving DecidableEq, Repr

def withBase (e : AddressExpression) (register : Register) : AddressExpression :=
  { e with base := some register }

def withIndex (e : AddressExpression) (register : Register) (scale : Int8) : AddressExpression :=
  { e with index := some register, scale }

def withShift (e : AddressExpression) (shift : IndexShift) : AddressExpression :=
  { e with shift }

def withDisplacement (e : AddressExpression) (displacement : Displacement) : AddressExpression :=
  { e with displacement := some displacement }

def add (e : AddressExpression) : Part → AddressExpression
  | .base register => e.withBase register
  | .index register scale => e.withIndex register scale
  | .shift shift => e.withShift shift
  | .displacement displacement => e.withDisplacement displacement

def ofParts (parts : List Part) : AddressExpression := parts.foldl add empty

/-- The elements that stand for a displacement: one that there is one, and one for its form. -/
def displacementElements : Option Displacement → List AddressElement
  | none => []
  | some displacement => [.displacement, displacement.form]

def elementList (e : AddressExpression) : List AddressElement :=
  (if e.base.isSome then [.base] else []) ++ (if e.index.isSome then [.index] else []) ++
    displacementElements e.displacement

def elements (e : AddressExpression) : FlagSet AddressElement := .ofList e.elementList

def writeShift (e : AddressExpression) (buffer : Text) : Outcome Text Error Nat :=
  (buffer.push (Tag.name e.shift)).mapError (.ofStorage .shiftName)

end AddressExpression
end Disassembly
