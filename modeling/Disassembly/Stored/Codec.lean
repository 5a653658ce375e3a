import Disassembly.Json.Reader

/-!
# Stored values

A record is read from an object, in which further members do not matter, or from an
array of all its fields. A choice is written as the identifier of the alternative, or as
an object with that identifier as its one key.
-/

namespace Disassembly

class Stored (α : Type) where
  toJson : α → Json
  ofJson? : Json → Option α

namespace Stored

variable {α : Type} [Stored α]

def write (value : α) : String := (toJson value).render

def read? (text : String) : Option α := (Json.read? text).bind ofJson?

def intBetween? (low high : Int) : Json → Option Int
  | .integer n => if low ≤ n ∧ n ≤ high then some n else none
  | _ => none

instance : Stored UInt8 where
  toJson n := .integer n.toNat
  ofJson? j := (intBetween? 0 0xFF j).map fun n => UInt8.ofNat n.toNat

instance : Stored UInt64 where
  toJson n := .integer n.toNat
  ofJson? j := (intBetween? 0 0xFFFFFFFFFFFFFFFF j).map fun n => UInt64.ofNat n.toNat

instance : Stored Int8 where
  toJson n := .integer n.toInt
  ofJson? j := (intBetween? (-0x80) 0x7F j).map Int8.ofInt

instance : Stored Int32 where
  toJson n := .integer n.toInt
  ofJson? j := (intBetween? (-0x80000000) 0x7FFFFFFF j).map Int32.ofInt

instance : Stored String where
  toJson s := .string (some s)
  ofJson?
    | .string text => text
    | _ => none

instance : Stored (Option α) where
  toJson
    | none => .null
    | some value => toJson value
  ofJson?
    | .null => some none
    | j => (ofJson? j).map some

def record (members : List (String × Json)) : Json :=
  .object (members.map fun (name, value) => (some name, value))

def field? (members : List (JsonString × Json)) (name : String) : Option (Option Json) :=
  match members.filter fun member => member.1 == some name with
  | [] => some none
  | [member] => some (some member.2)
  | _ => none

/-- The values of the named fields in the members of an object. Every key has to be a text, and no
field may be repeated; other keys do not matter. -/
def objectFields? (names : List String) (members : List (JsonString × Json)) :
    Option (List (Option Json)) :=
  if members.all fun member => member.1.isSome then names.mapM (field? members) else none

def fields? (names : List String) : Json → Option (List (Option Json))
  | .object members => objectFields? names members
  | .array elements =>
      if elements.length = names.length then some (elements.map some) else none
  | _ => none

def required? : Option Json → Option α
  | some j => ofJson? j
  | none => none

def orElse? (default : α) : Option Json → Option α
  | some j => ofJson? j
  | none => some default

def alternative? : Json → Option (String × Option Json)
  | .string (some ident) => some (ident, none)
  | .object [(some ident, content)] => some (ident, some content)
  | _ => none

def isBare : Option Json → Bool
  | none => true
  | some .null => true
  | _ => false

end Stored
end Disassembly
