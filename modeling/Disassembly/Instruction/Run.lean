import Disassembly.Instruction.Basic

/-!
# Runs of operations

Every request to change an instruction is an operation, which is answered by a response
and leaves an instruction behind, also when it is refused. The instructions that arise
from the constructors, from operations and by copying are the reachable ones.
-/

namespace Disassembly
namespace Instruction

inductive Operation where
  | setStatus (status : FlagSet Stage)
  | mark (stages : FlagSet Stage)
  | setText (text : String)
  | setOffset (offset : UInt64)
  | setAddress (address : UInt64)
  | setSize (size : UInt64)
  | setBytes (bytes : List UInt8)
  | addPrefix (token : String)
  | setMnemonic (text : String)
  | setCategory (category : Category)
  | setIsa (isa : IsaSubset)
  | addComment (entry : String)
  | addOperand (operand : Operand)
  | nextOperand (edits : List Operand.Edit)
  | commitNext
  | editOperand (index : Nat) (edits : List Operand.Edit)
  | setReference (role : Role) (ref : OperandRef)
  | clear
deriving DecidableEq, Repr

inductive Response where
  | done
  | refused (error : Error)
  | notAdded (error : AddOperandError)
  | placed (ref : OperandRef)
  | handedOut (operand : Operand) (results : List (Except Error Unit))
  | edited (results : List (Except Error Unit))
  | noOperand

def Response.ofResult : Except Error Unit → Response
  | .ok () => .done
  | .error e => .refused e

def answer (o : Outcome Instruction Error Unit) : Response × Instruction :=
  (.ofResult o.result, o.state)

/-!
# Carrying out operations
-/

def perform (i : Instruction) : Operation → Response × Instruction
  | .setStatus status => (.done, i.setStatus status)
  | .mark stages => (.done, i.mark stages)
  | .setText text => answer (i.setText text)
  | .setOffset offset => (.done, i.setOffset offset)
  | .setAddress address => (.done, i.setAddress address)
  | .setSize size => (.done, i.setSize size)
  | .setBytes bytes => (.done, i.setBytes bytes)
  | .addPrefix token => answer (i.addPrefix token)
  | .setMnemonic text => answer (i.setMnemonic text)
  | .setCategory category => (.done, i.setCategory category)
  | .setIsa isa => (.done, i.setIsa isa)
  | .addComment entry => answer (i.addComment entry)
  | .addOperand operand =>
      let outcome := i.addOperand operand
      match outcome.result with
      | .ok ref => (.placed ref, outcome.state)
      | .error e => (.notAdded e, outcome.state)
  | .nextOperand edits =>
      match i.nextOperand with
      | (none, after) => (.noOperand, after)
      | (some operand, after) =>
          let edited := operand.editAll edits
          (.handedOut operand edited.1, after.putNext edited.2)
  | .commitNext =>
      match i.commitNext with
      | (none, after) => (.noOperand, after)
      | (some ref, after) => (.placed ref, after)
  | .editOperand index edits =>
      match i.operands.get? index with
      | none => (.noOperand, i)
      | some operand =>
          let edited := operand.editAll edits
          (.edited edited.1, i.putOperand index edited.2)
  | .setReference role ref => answer (i.setReference role ref)
  | .clear => (.done, i.clear)

def run (i : Instruction) : List Operation → List Response × Instruction
  | [] => ([], i)
  | first :: rest =>
      let now := i.perform first
      let later := now.2.run rest
      (now.1 :: later.1, later.2)

@[simp] theorem run_nil (i : Instruction) : i.run [] = ([], i) := rfl

theorem run_append (i : Instruction) (front back : List Operation) :
    i.run (front ++ back) =
      ((i.run front).1 ++ ((i.run front).2.run back).1, ((i.run front).2.run back).2) := by
  induction front generalizing i with
  | nil => rfl
  | cons first rest ih => simp [run, ih]

/-!
# Reachable instructions
-/

inductive Reachable : Instruction → Prop where
  | empty : Reachable empty
  | withSlots {n : Nat} {i : Instruction} : withSlots n = .ok i → Reachable i
  | ofLayout {l : Layout} {i : Instruction} : ofLayout l = .ok i → Reachable i
  | dupe {i copy : Instruction} : Reachable i → i.dupe = .ok copy → Reachable copy
  | perform {i : Instruction} (operation : Operation) :
      Reachable i → Reachable (i.perform operation).2

theorem Reachable.run {i : Instruction} (h : Reachable i) (operations : List Operation) :
    Reachable (i.run operations).2 := by
  induction operations generalizing i with
  | nil => exact h
  | cons first rest ih => exact ih (h.perform first)

end Instruction
end Disassembly
