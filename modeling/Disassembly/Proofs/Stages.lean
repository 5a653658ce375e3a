import Disassembly.Proofs.Construction
import Disassembly.Proofs.Step

/-!
# Decoding in any order

Every operation other than `clear` is about one concern, and reads and changes only the
part of the instruction that belongs to it. Two sequences that contain the same
operations about each concern in the same order therefore leave the same instruction
behind, with the same answers.
-/

namespace Disassembly

namespace FlagSet

variable {φ : Type} [Flag φ]

theorem union_right_comm (s t u : FlagSet φ) : s ∪ t ∪ u = s ∪ u ∪ t := by
  show FlagSet.mk (s.bits ||| t.bits ||| u.bits) = FlagSet.mk (s.bits ||| u.bits ||| t.bits)
  rw [BitVec.or_assoc, BitVec.or_comm t.bits, ← BitVec.or_assoc]

theorem foldl_union_perm {sets others : List (FlagSet φ)} (h : sets.Perm others)
    (s : FlagSet φ) : sets.foldl (· ∪ ·) s = others.foldl (· ∪ ·) s := by
  apply h.foldl_eq'
  intro t _ u _ r
  exact union_right_comm r t u

end FlagSet

namespace Instruction

/-!
# Parts of an instruction
-/

inductive Concern where
  | status
  | text
  | mnemonic
  | prefixes
  | comment
  | offset
  | address
  | size
  | bytes
  | category
  | isa
  | operands
deriving DecidableEq, Repr

def Operation.concern? : Operation → Option Concern
  | .setStatus _ => some .status
  | .mark _ => some .status
  | .setText _ => some .text
  | .setOffset _ => some .offset
  | .setAddress _ => some .address
  | .setSize _ => some .size
  | .setBytes _ => some .bytes
  | .addPrefix _ => some .prefixes
  | .setMnemonic _ => some .mnemonic
  | .setCategory _ => some .category
  | .setIsa _ => some .isa
  | .addComment _ => some .comment
  | .addOperand _ => some .operands
  | .nextOperand _ => some .operands
  | .commitNext => some .operands
  | .editOperand _ _ => some .operands
  | .setReference _ _ => some .operands
  | .clear => none

/-- The part of the instruction that belongs to a concern. The layout stands with the comment,
because the separator of its entries depends on it. -/
def part (i : Instruction) : Concern → Instruction
  | .status => { status := i.status }
  | .text => { text := i.text }
  | .mnemonic => { mnemonic := i.mnemonic }
  | .prefixes => { prefixes := i.prefixes, prefixCount := i.prefixCount }
  | .comment => { comment := i.comment, layout := i.layout }
  | .offset => { offset := i.offset }
  | .address => { address := i.address }
  | .size => { size := i.size }
  | .bytes => { bytes := i.bytes }
  | .category => { category := i.category }
  | .isa => { isa := i.isa }
  | .operands => { operands := i.operands, references := i.references }

def assemble (parts : Concern → Instruction) : Instruction where
  status := (parts .status).status
  text := (parts .text).text
  offset := (parts .offset).offset
  address := (parts .address).address
  size := (parts .size).size
  bytes := (parts .bytes).bytes
  prefixCount := (parts .prefixes).prefixCount
  prefixes := (parts .prefixes).prefixes
  mnemonic := (parts .mnemonic).mnemonic
  category := (parts .category).category
  isa := (parts .isa).isa
  comment := (parts .comment).comment
  operands := (parts .operands).operands
  references := (parts .operands).references
  layout := (parts .comment).layout

theorem assemble_part (i : Instruction) : assemble i.part = i := rfl

theorem eq_of_part_eq {i j : Instruction} (h : ∀ c, i.part c = j.part c) : i = j := by
  rw [← assemble_part i, ← assemble_part j, funext h]

/-!
# One operation
-/

variable {c : Concern} {operation : Operation}

theorem part_perform_of_ne (i : Instruction) (hclear : operation ≠ .clear)
    (hc : operation.concern? ≠ some c) : (i.perform operation).2.part c = i.part c := by
  rw [state_perform]
  cases operation with
  | clear => exact absurd rfl hclear
  | _ =>
      -- the part either lies elsewhere in the record or is the one that the operation is about
      cases c
      all_goals first | rfl | exact absurd rfl hc

theorem perform_part (i : Instruction) (hc : operation.concern? = some c) :
    (i.part c).perform operation =
      ((i.perform operation).1, (i.perform operation).2.part c) := by
  cases operation with
  | addOperand o =>
      cases hc
      simp only [perform, addOperand, part]
      cases i.operands.push? o with
      | none => rfl
      | some u => rfl
  | nextOperand edits =>
      cases hc
      simp only [perform, Instruction.nextOperand, part]
      cases i.operands.waiting? with
      | none => rfl
      | some o => rfl
  | commitNext =>
      cases hc
      simp only [perform, Instruction.commitNext, part]
      cases i.operands.commit? with
      | none => rfl
      | some u => rfl
  | editOperand index edits =>
      cases hc
      simp only [perform, part]
      cases i.operands.get? index with
      | none => rfl
      | some o => rfl
  | setReference role ref =>
      cases hc
      by_cases hvalid : ref.index < i.operands.count
      · simp only [perform, answer, setReference, isValid, part, hvalid, decide_true, if_true]
        rfl
      · simp only [perform, answer, setReference, isValid, part, hvalid, decide_false,
          Bool.false_eq_true, if_false]
        rfl
  | clear => cases hc
  | _ =>
      cases hc
      rfl

/-!
# Runs
-/

def about (c : Concern) (operations : List Operation) : List Operation :=
  operations.filter fun operation => operation.concern? = some c

def exchangesAbout (c : Concern) (i : Instruction) (operations : List Operation) :
    List (Operation × Response) :=
  (operations.zip (i.run operations).1).filter fun exchange => exchange.1.concern? = some c

theorem run_part (c : Concern) (i : Instruction) {operations : List Operation}
    (hclear : .clear ∉ operations) :
    exchangesAbout c i operations =
        (about c operations).zip ((i.part c).run (about c operations)).1 ∧
      (i.run operations).2.part c = ((i.part c).run (about c operations)).2 := by
  induction operations generalizing i with
  | nil => exact ⟨rfl, rfl⟩
  | cons first rest ih =>
      rw [List.mem_cons, not_or] at hclear
      rcases ih (i.perform first).2 hclear.2 with ⟨hexchanges, hstate⟩
      unfold exchangesAbout about at *
      by_cases hc : first.concern? = some c
      · simp only [run, List.zip_cons_cons, List.filter_cons, hc, decide_true, if_true,
          perform_part i hc]
        exact ⟨congrArg _ hexchanges, hstate⟩
      · simp only [run, List.zip_cons_cons, List.filter_cons, hc, decide_false,
          Bool.false_eq_true, if_false]
        rw [← part_perform_of_ne i (Ne.symm hclear.1) hc]
        exact ⟨hexchanges, hstate⟩

def Operation.marked? : Operation → Option (FlagSet Stage)
  | .mark stages => some stages
  | _ => none

theorem status_perform (i : Instruction) (operation : Operation) :
    (i.perform operation).2.status =
      match operation with
      | .setStatus status => status
      | .mark stages => i.status ∪ stages
      | .clear => .empty
      | _ => i.status := by
  rw [state_perform]
  cases operation <;> rfl

theorem status_run_of_marks (i : Instruction) {operations : List Operation}
    (hclear : .clear ∉ operations) (hset : ∀ status, .setStatus status ∉ operations) :
    (i.run operations).2.status =
      (operations.filterMap Operation.marked?).foldl (· ∪ ·) i.status := by
  induction operations generalizing i with
  | nil => rfl
  | cons first rest ih =>
      simp only [List.mem_cons, not_or] at hclear hset
      have hrest := ih (i.perform first).2 hclear.2 fun status => (hset status).2
      rw [status_perform] at hrest
      cases first with
      | setStatus status => exact absurd rfl (hset status).1
      | clear => exact absurd rfl hclear.1
      | _ => exact hrest

/-!
# Interleavings
-/

structure OrderIndependent (i : Instruction) (operations others : List Operation) : Prop where
  state_eq : (i.run operations).2 = (i.run others).2
  exchanges_eq : ∀ c, exchangesAbout c i operations = exchangesAbout c i others
  status_eq : (i.run operations).2.status =
    (run { status := i.status } (about .status operations)).2.status
  status_eq_marks : (∀ status, .setStatus status ∉ operations) →
    ∀ marks : List (FlagSet Stage), marks.Perm (operations.filterMap Operation.marked?) →
      (i.run operations).2.status = marks.foldl (· ∪ ·) i.status

/-- Two sequences with the same operations about each concern have the same effect and get the same
answers, however the concerns are interleaved. -/
theorem interleaved_runs_agree (i : Instruction) {operations others : List Operation}
    (hclear : .clear ∉ operations) (hothers : .clear ∉ others)
    (hsame : ∀ c, about c operations = about c others) :
    OrderIndependent i operations others where
  state_eq := by
    apply eq_of_part_eq
    intro c
    rw [(run_part c i hclear).2, (run_part c i hothers).2, hsame c]
  exchanges_eq := by
    intro c
    rw [(run_part c i hclear).1, (run_part c i hothers).1, hsame c]
  status_eq := by
    have hpart := congrArg Instruction.status (run_part .status i hclear).2
    exact hpart
  status_eq_marks := by
    intro hset marks hmarks
    rw [status_run_of_marks i hclear hset, FlagSet.foldl_union_perm hmarks]

/-- In a small buffer a prefix is cut and a reference is refused before there is an operand for it,
in whatever order the two concerns and the status take turns. -/
theorem interleaved_runs_agree_in_small_buffer :
    let i := blank ⟨8, 2, 1, 8⟩
    let operations : List Operation :=
      [.addPrefix "lock", .mark (.singleton .mnemonic), .setReference .target ⟨0⟩,
        .addPrefix "ééé", .nextOperand [.setText "0x401000"], .commitNext,
        .setReference .target ⟨0⟩, .addPrefix "x", .mark (.singleton .operands)]
    let others : List Operation :=
      [.setReference .target ⟨0⟩, .nextOperand [.setText "0x401000"], .addPrefix "lock",
        .mark (.singleton .mnemonic), .mark (.singleton .operands), .addPrefix "ééé", .commitNext,
        .addPrefix "x", .setReference .target ⟨0⟩]
    .clear ∉ operations ∧ .clear ∉ others ∧ (∀ c, about c operations = about c others) ∧
      (i.run others).1[0]? = some (.refused (.invalidOperand 0 0)) ∧
      OrderIndependent i operations others := by
  intro i operations others
  have hclear : .clear ∉ operations := by decide
  have hothers : .clear ∉ others := by decide
  have hsame : ∀ c, about c operations = about c others := by
    intro c
    cases c
    all_goals rfl
  exact ⟨hclear, hothers, hsame, rfl, interleaved_runs_agree i hclear hothers hsame⟩

end Instruction
end Disassembly
