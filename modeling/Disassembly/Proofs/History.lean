import Disassembly.Instruction.Run

/-!
# Histories of runs

A value is carried along a run, and each operation changes it.
-/

namespace Disassembly
namespace Instruction

variable {α : Type}

def accumulate (enter : Instruction → Operation → Response → α → α) (i : Instruction)
    (start : α) : List Operation → α
  | [] => start
  | first :: rest =>
      let now := i.perform first
      now.2.accumulate enter (enter i first now.1 start) rest

theorem run_invariant {P : Instruction → Prop} {operations : List Operation}
    (hstep : ∀ i, ∀ operation ∈ operations, P i → P (i.perform operation).2)
    {i : Instruction} (h : P i) : P (i.run operations).2 := by
  induction operations generalizing i with
  | nil => exact h
  | cons first rest ih =>
      refine ih ?_ (hstep i first List.mem_cons_self h)
      intro j operation hmem
      exact hstep j operation (List.mem_cons_of_mem first hmem)

theorem accumulate_invariant {enter : Instruction → Operation → Response → α → α}
    {P : Instruction → α → Prop} {operations : List Operation}
    (hstep : ∀ i value, ∀ operation ∈ operations, P i value →
      P (i.perform operation).2 (enter i operation (i.perform operation).1 value))
    {i : Instruction} {start : α} (h : P i start) :
    P (i.run operations).2 (i.accumulate enter start operations) := by
  induction operations generalizing i start with
  | nil => exact h
  | cons first rest ih =>
      refine ih ?_ (hstep i start first List.mem_cons_self h)
      intro j value operation hmem
      exact hstep j value operation (List.mem_cons_of_mem first hmem)

end Instruction
end Disassembly
