import Disassembly.Numeral
import Disassembly.Unicode.Blank

/-!
# Sets of flags

A set of flags is a word of fixed width. Bits that belong to no flag of the family are
kept as they are: they have no name, and only the stored form of a set shows them.
-/

namespace Disassembly

/-- A family of flags, each of which has a bit of a word. -/
class Flag (φ : Type) where
  width : Nat
  position : φ → Nat

class NamedFlag (φ : Type) extends Flag φ where
  all : List φ
  name : φ → String

/-- A family whose sets are stored by the identifiers of their flags. -/
class StoredFlag (φ : Type) extends NamedFlag φ where
  ident : φ → String

structure FlagSet (φ : Type) [Flag φ] where
  bits : BitVec (Flag.width φ)
deriving DecidableEq, Repr

namespace FlagSet

variable {φ : Type}

section Flag

variable [Flag φ]

def empty : FlagSet φ := ⟨0⟩

instance : Inhabited (FlagSet φ) := ⟨empty⟩

def ofNat (n : Nat) : FlagSet φ := ⟨BitVec.ofNat _ n⟩

def toNat (s : FlagSet φ) : Nat := s.bits.toNat

def union (s t : FlagSet φ) : FlagSet φ := ⟨s.bits ||| t.bits⟩

instance : Union (FlagSet φ) := ⟨union⟩

def singleton (flag : φ) : FlagSet φ := ⟨BitVec.twoPow _ (Flag.position flag)⟩

def ofList (flags : List φ) : FlagSet φ := flags.foldl (fun s flag => s ∪ singleton flag) empty

def isEmpty (s : FlagSet φ) : Bool := s.bits == 0

def contains (s : FlagSet φ) (flag : φ) : Bool := s.bits.getLsbD (Flag.position flag)

instance : Membership φ (FlagSet φ) := ⟨fun s flag => s.contains flag = true⟩

theorem mem_iff {s : FlagSet φ} {flag : φ} : flag ∈ s ↔ s.contains flag = true := Iff.rfl

end Flag

section NamedFlag

variable [NamedFlag φ]

def flags (s : FlagSet φ) : List φ := (NamedFlag.all : List φ).filter s.contains

def names (s : FlagSet φ) : List String := s.flags.map NamedFlag.name

def join (s : FlagSet φ) (delimiter : String) : String := delimiter.intercalate s.names

def unknownBits (s : FlagSet φ) : BitVec (Flag.width φ) :=
  s.bits &&& ~~~(ofList (NamedFlag.all : List φ)).bits

theorem mem_flags_iff {s : FlagSet φ} {flag : φ} :
    flag ∈ s.flags ↔ flag ∈ (NamedFlag.all : List φ) ∧ flag ∈ s := by
  simp [flags, mem_iff]

end NamedFlag

section StoredFlag

variable [StoredFlag φ]

def separator : Char := '|'

def unknownItem (s : FlagSet φ) : List String :=
  if s.unknownBits = 0 then []
  else [String.ofList ('0' :: 'x' :: Numeral.toHex s.unknownBits.toNat)]

def toText (s : FlagSet φ) : String :=
  " | ".intercalate (s.flags.map StoredFlag.ident ++ s.unknownItem)

/-- The number after `0x`, if the word can hold it. A plus sign may stand in front of the digits. -/
def bitsOfDigits? (digits : List Char) : Option (BitVec (Flag.width φ)) :=
  let unsigned :=
    match digits with
    | '+' :: rest => rest
    | _ => digits
  match Numeral.ofHex? unsigned with
  | some n =>
      let bits := BitVec.ofNat (Flag.width φ) n
      if bits.toNat = n then some bits else none
  | none => none

def ofItem? (item : List Char) : Option (FlagSet φ) :=
  match item with
  | [] => none
  | '0' :: 'x' :: digits => (bitsOfDigits? digits).map (⟨·⟩)
  | _ =>
      ((NamedFlag.all : List φ).find? fun flag => (StoredFlag.ident flag).toList == item).map
        singleton

def items (cs : List Char) : List (List Char) := cs.splitOn separator

def ofText? (text : String) : Option (FlagSet φ) :=
  match Unicode.trimList text.toList with
  | [] => some empty
  | cs => ((items cs).mapM fun item => ofItem? (Unicode.trimList item)).map
      (·.foldl union empty)

end StoredFlag

end FlagSet
end Disassembly
