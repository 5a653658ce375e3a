import Disassembly.Operand.Basic

/-!
# Edits of operands

A refused edit does not keep the others from being carried out.
-/

namespace Disassembly
namespace Operand

inductive Edit where
  | setText (text : String)
  | setFlags (flags : FlagSet OperandFlag)
  | setValue (value : OperandValue)
  | setDataSize (dataSize : UInt8)
  | clear
  | replace (operand : Operand)
deriving DecidableEq, Repr

def Edit.isInPlace : Edit → Bool
  | .replace _ => false
  | _ => true

def edit (o : Operand) : Edit → Outcome Operand Error Unit
  | .setText text => o.setText text
  | .setFlags flags => .done (o.setFlags flags) ()
  | .setValue value => .done (o.setValue value) ()
  | .setDataSize dataSize => .done (o.setDataSize dataSize) ()
  | .clear => .done o.clear ()
  | .replace operand => .done operand ()

def editAll (o : Operand) : List Edit → List (Except Error Unit) × Operand
  | [] => ([], o)
  | first :: rest =>
      let outcome := o.edit first
      let others := outcome.state.editAll rest
      (outcome.result :: others.1, others.2)

theorem editAll_append (o : Operand) (front back : List Edit) :
    (o.editAll (front ++ back)).2 = ((o.editAll front).2.editAll back).2 := by
  induction front generalizing o with
  | nil => rfl
  | cons first rest ih => simp [editAll, ih]

end Operand
end Disassembly
