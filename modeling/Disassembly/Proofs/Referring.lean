import Disassembly.Proofs.Collection

/-!
# References to operands

A reference is only a position, which is checked against the number of operands when it
is set. It leads to the same operand for as long as there are operands, since none of
them moves before all are given up, and giving them up gives up the references.
-/

namespace Disassembly

open Instruction

namespace Instruction

def Operation.editsAt (index : Nat) : Operation → List Operand.Edit
  | .editOperand other edits => if other = index then edits else []
  | _ => []

def editsAt (index : Nat) (operations : List Operation) : List Operand.Edit :=
  operations.flatMap (Operation.editsAt index)

def Operation.renews (role : Role) : Operation → Response → Bool
  | .setReference other _, .done => other == role
  | .clear, _ => true
  | _, _ => false

def Keeps (i : Instruction) (role : Role) (operations : List Operation) : Prop :=
  ∀ step ∈ operations.zip (i.run operations).1, step.1.renews role step.2 = false

theorem Operation.editsAt_of_aside {operation : Operation}
    (haside : operation.concernsOperands = false) (index : Nat) :
    operation.editsAt index = [] := by
  cases operation with
  | editOperand other edits => cases haside
  | _ => rfl

end Instruction

/-!
# One operand of a table
-/

namespace OperandTable

variable {t u : OperandTable} {operation : Operation} {response : Response}

theorem Pushed.get?_eq {o p : Operand} (h : Pushed t o u) {index : Nat}
    (hget : t.get? index = some p) : u.get? index = some p := by
  rcases get?_eq_some_iff.mp hget with ⟨hindex, hslot⟩
  rw [get?_eq_some_iff, h.count, h.getElem?, if_neg (Nat.ne_of_lt hindex)]
  exact ⟨Nat.lt_succ_of_lt hindex, hslot⟩

/-- Unless the operands are given up, each of them stays where it is, and only edits at its index
change it. -/
theorem get?_exchange (h : t.Packed) (hexchange : Exchange t operation response u)
    (hclear : operation ≠ .clear) {index : Nat} {o : Operand} (hget : t.get? index = some o) :
    u.get? index = some (o.editAll (operation.editsAt index)).2 := by
  have hindex := (get?_eq_some_iff.mp hget).1
  cases hexchange with
  | push hpush => exact (pushed_of_push h hpush).get?_eq hget
  | handOut hwaiting => exact (get?_place_of_ne (Nat.ne_of_lt hindex) _).trans hget
  | commit hcommit =>
      rcases pushed_of_commit hcommit with ⟨_, _, hpushed⟩
      exact hpushed.get?_eq hget
  | @edit other edits p hother =>
      by_cases hsame : other = index
      · subst hsame
        rw [hget] at hother
        cases hother
        rw [Operation.editsAt, if_pos rfl]
        exact get?_place_self hget _
      · rw [Operation.editsAt, if_neg hsame, get?_place_of_ne (Ne.symm hsame)]
        exact hget
  | @noEdit other edits hother =>
      have hne : other ≠ index := by
        rintro rfl
        rw [hget] at hother
        cases hother
      rw [Operation.editsAt, if_neg hne]
      exact hget
  | clear => exact absurd rfl hclear
  | aside haside hplaced =>
      rw [Operation.editsAt_of_aside haside]
      exact hget
  | _ => exact hget

end OperandTable

namespace Instruction

variable {i : Instruction} {role : Role} {ref : OperandRef}

/-!
# Setting a reference
-/

theorem perform_setReference_of_lt (h : ref.index < i.operands.count) (role : Role) :
    i.perform (.setReference role ref) =
      (.done, { i with references := i.references.set role (some ref) }) := by
  simp only [perform, setReference, isValid, h, decide_true, if_true]
  rfl

theorem perform_setReference_of_le (h : i.operands.count ≤ ref.index) (role : Role) :
    i.perform (.setReference role ref) =
      (.refused (.invalidOperand ref.index i.operands.count), i) := by
  have hnot : ¬ ref.index < i.operands.count := Nat.not_lt.mpr h
  simp only [perform, setReference, isValid, hnot, decide_false, Bool.false_eq_true, if_false]
  rfl

theorem perform_setReference_eq_done_iff :
    (i.perform (.setReference role ref)).1 = .done ↔ ref.index < i.operands.count := by
  constructor
  · intro hdone
    rcases Nat.lt_or_ge ref.index i.operands.count with hlt | hle
    · exact hlt
    · rw [perform_setReference_of_le hle] at hdone
      cases hdone
  · intro hlt
    rw [perform_setReference_of_lt hlt]

theorem get_references_perform {operation : Operation}
    (h : operation.renews role (i.perform operation).1 = false) :
    (i.perform operation).2.references.get role = i.references.get role := by
  cases operation with
  | setReference other found =>
      rcases Nat.lt_or_ge found.index i.operands.count with hlt | hle
      · rw [perform_setReference_of_lt hlt] at h ⊢
        apply References.get_set_of_ne
        rintro rfl
        exact absurd h (by simp [Operation.renews])
      · rw [perform_setReference_of_le hle]
  | clear => cases h
  | _ => rw [references_perform]

/-!
# Where a reference leads
-/

structure LeadsTo (i : Instruction) (role : Role) (ref : OperandRef) (o : Operand) : Prop where
  reference : i.references.get role = some ref
  operand : i.operands.get? ref.index = some o

namespace LeadsTo

variable {o : Operand}

theorem reference?_eq (h : LeadsTo i role ref o) : i.reference? role = some ref := by
  rw [reference?, h.reference, Option.filter_eq_some_iff]
  exact ⟨rfl, decide_eq_true (OperandTable.get?_eq_some_iff.mp h.operand).1⟩

theorem referent?_eq (h : LeadsTo i role ref o) : i.referent? role = some o := by
  rw [referent?, h.reference]
  exact h.operand

theorem perform (h : LeadsTo i role ref o) (hi : i.WellFormed) {operation : Operation}
    (hkeeps : operation.renews role (i.perform operation).1 = false) :
    LeadsTo (i.perform operation).2 role ref (o.editAll (operation.editsAt ref.index)).2 := by
  have hclear : operation ≠ .clear := by
    rintro rfl
    cases hkeeps
  constructor
  · rw [get_references_perform hkeeps]
    exact h.reference
  · exact OperandTable.get?_exchange hi.operands.packed (exchange_perform i operation) hclear
      h.operand

theorem run (h : LeadsTo i role ref o) (hi : i.WellFormed) {operations : List Operation}
    (hkeeps : i.Keeps role operations) :
    LeadsTo (i.run operations).2 role ref (o.editAll (editsAt ref.index operations)).2 := by
  induction operations generalizing i o with
  | nil => exact h
  | cons first rest ih =>
      rcases List.forall_mem_cons.mp hkeeps with ⟨hfirst, hrest⟩
      have hnext := ih (h.perform hi hfirst) (hi.perform first) hrest
      rw [editsAt, List.flatMap_cons, Operand.editAll_append]
      exact hnext

end LeadsTo

/-- A reference is set exactly if there is an operand at its position, and it is read and leads to
that operand until it is set again or given up. -/
structure StableReference (i : Instruction) (role : Role) (ref : OperandRef) : Prop where
  done_iff : (i.perform (.setReference role ref)).1 = .done ↔ ref.index < i.operands.count
  refused : i.operands.count ≤ ref.index →
    i.perform (.setReference role ref) =
      (.refused (.invalidOperand ref.index i.operands.count), i)
  kept : (i.perform (.setReference role ref)).1 = .done →
    ∃ o, i.operands.get? ref.index = some o ∧
      ∀ operations, (i.perform (.setReference role ref)).2.Keeps role operations →
        let later := ((i.perform (.setReference role ref)).2.run operations).2
        let edited := (o.editAll (editsAt ref.index operations)).2
        later.reference? role = some ref ∧ later.referent? role = some edited ∧
          later.operands.get? ref.index = some edited
  cleared : ∀ other, (i.perform .clear).2.reference? other = none ∧
    (i.perform .clear).2.referent? other = none

theorem WellFormed.leadsTo (h : i.WellFormed) (hlt : ref.index < i.operands.count)
    (role : Role) : ∃ o, i.operands.get? ref.index = some o ∧
      LeadsTo (i.perform (.setReference role ref)).2 role ref o := by
  have hsome := (h.operands.packed.isSome_get?_iff ref.index).mpr hlt
  rcases Option.isSome_iff_exists.mp hsome with ⟨o, ho⟩
  refine ⟨o, ho, ?_⟩
  rw [perform_setReference_of_lt hlt]
  constructor
  · exact References.get_set_self i.references role (some ref)
  · exact ho

theorem stableReference_of_reachable (h : Reachable i) (role : Role) (ref : OperandRef) :
    StableReference i role ref := by
  have hi := h.wellFormed
  refine ⟨perform_setReference_eq_done_iff, ?_, ?_, ?_⟩
  · exact fun hle => perform_setReference_of_le hle role
  · intro hdone
    rcases hi.leadsTo (perform_setReference_eq_done_iff.mp hdone) role with ⟨o, ho, hleads⟩
    refine ⟨o, ho, ?_⟩
    intro operations hkeeps
    have hlater := hleads.run (hi.perform _) hkeeps
    exact ⟨hlater.reference?_eq, hlater.referent?_eq, hlater.operand⟩
  · intro other
    cases other with
    | target => exact ⟨rfl, rfl⟩
    | destination => exact ⟨rfl, rfl⟩
    | source => exact ⟨rfl, rfl⟩

/-- The operand of a buffer stays the target of a branch while others join it, a reference is
refused, and both of them are edited. -/
theorem stableReference_in_grown_buffer :
    let i := ((blank ⟨8, 4, 1, 8⟩).run [.nextOperand [.setText "eax"], .commitNext]).2
    let operations : List Operation :=
      [.addOperand .empty, .setReference .target ⟨5⟩, .setReference .source ⟨1⟩,
        .editOperand 1 [.setText "ecx"], .editOperand 0 [.setDataSize 4], .commitNext]
    let later := ((i.perform (.setReference .target ⟨0⟩)).2.run operations).2
    Reachable i ∧ StableReference i .target ⟨0⟩ ∧ later.reference? .target = some ⟨0⟩ ∧
      later.referent? .target = some ⟨.bounded ⟨"eax", 8⟩, .empty, .none, 4⟩ := by
  intro i operations later
  have hmade : Reachable (blank ⟨8, 4, 1, 8⟩) := .ofLayout (l := ⟨8, 4, 1, 8⟩) rfl
  have hreachable : Reachable i := hmade.run _
  have hstable : StableReference i .target ⟨0⟩ :=
    stableReference_of_reachable hreachable .target ⟨0⟩
  have hkeeps : (i.perform (.setReference .target ⟨0⟩)).2.Keeps .target operations := by
    unfold Keeps
    decide
  rcases hstable.kept rfl with ⟨o, ho, hkept⟩
  have heax : i.operands.get? 0 = some { text := .bounded ⟨"eax", 8⟩ } := by decide
  cases heax.symm.trans ho
  rcases hkept operations hkeeps with ⟨hreference, hreferent, _⟩
  exact ⟨hreachable, hstable, hreference, hreferent⟩

end Instruction
end Disassembly
