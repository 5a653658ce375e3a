import Disassembly.Category
import Disassembly.Flags
import Disassembly.Stored.Codec

/-!
# Stored tags and flags

A plain tag is stored as its identifier, a category that carries a tag as an object that
maps its identifier to the tag, and a set of flags as its text.
-/

namespace Disassembly
namespace Stored

def tag? {α : Type} [Tag α] (j : Json) : Option α :=
  match alternative? j with
  | some (ident, content) => if isBare content then Tag.ofIdent? ident else none
  | none => none

@[reducible] def ofTag (α : Type) [Tag α] : Stored α where
  toJson tag := .string (some (Tag.ident tag))
  ofJson? := tag?

instance : Stored ControlTransfer := ofTag ControlTransfer

instance : Stored StackEffect := ofTag StackEffect

instance : Stored BitOperation := ofTag BitOperation

instance : Stored PortAccess := ofTag PortAccess

instance : Stored IsaSubset := ofTag IsaSubset

instance : Stored OperandKind := ofTag OperandKind

instance : Stored IndexShift := ofTag IndexShift

def bareCategory? (ident : String) : Option Category :=
  (Tag.all : List Category).find? fun c => c.detailIdent?.isNone && Tag.ident c == ident

def detailedCategory? (ident : String) (content : Json) : Option Category :=
  if ident = "ControlFlow" then (ofJson? content).map .controlFlow
  else if ident = "Stack" then (ofJson? content).map .stack
  else if ident = "Bit" then (ofJson? content).map .bit
  else if ident = "Io" then (ofJson? content).map .io
  else none

instance : Stored Category where
  toJson
    | .controlFlow transfer => record [("ControlFlow", toJson transfer)]
    | .stack effect => record [("Stack", toJson effect)]
    | .bit operation => record [("Bit", toJson operation)]
    | .io access => record [("Io", toJson access)]
    | category => .string (some (Tag.ident category))
  ofJson? j :=
    match alternative? j with
    | none => none
    | some (ident, content) =>
        if isBare content then bareCategory? ident
        else content.bind (detailedCategory? ident)

instance {φ : Type} [StoredFlag φ] : Stored (FlagSet φ) where
  toJson s := .string (some s.toText)
  ofJson?
    | .string (some text) => FlagSet.ofText? text
    | _ => none

end Stored
end Disassembly
