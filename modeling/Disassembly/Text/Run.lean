import Disassembly.Text.Basic

/-!
# Runs of writes

A request that is refused does not keep the others from being carried out.
-/

namespace Disassembly
namespace Text

inductive Request where
  | set (s : String)
  | push (s : String)
  | append (separator token : String)
  | clear
deriving DecidableEq, Repr

def perform (t : Text) : Request → Outcome Text StorageError Nat
  | .set s => t.set s
  | .push s => t.push s
  | .append separator token => t.append separator token
  | .clear => .done t.clear 0

def run (t : Text) : List Request → List (Except StorageError Nat) × Text
  | [] => ([], t)
  | first :: rest =>
      let outcome := t.perform first
      let later := outcome.state.run rest
      (outcome.result :: later.1, later.2)

@[simp] theorem run_nil (t : Text) : t.run [] = ([], t) := rfl

theorem run_append (t : Text) (front back : List Request) :
    t.run (front ++ back) =
      ((t.run front).1 ++ ((t.run front).2.run back).1, ((t.run front).2.run back).2) := by
  induction front generalizing t with
  | nil => rfl
  | cons first rest ih => simp [run, ih]

end Text
end Disassembly
