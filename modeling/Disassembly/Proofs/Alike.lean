import Disassembly.Proofs.Construction
import Disassembly.Proofs.Observation
import Disassembly.Proofs.Step

/-!
# Instructions that cannot be told apart

Two instructions are alike when they agree except for where they lie and for what stale
operands say. A request for the next operand blanks the one that it hands out, so only a
commit that is not preceded by such a request could bring a stale operand to light.
-/

namespace Disassembly

open Instruction

/-!
# Tables
-/

namespace OperandTable

/-- Tables with the same operands, whose further slots hold operands that are the same once they
are cleared. When they are `ready`, the next free slots agree too. -/
structure Alike (ready : Prop) (s t : OperandTable) : Prop where
  count : s.count = t.count
  decoded : ∀ index, index < s.count → s.slots[index]? = t.slots[index]?
  waiting : ready → s.slots[s.count]? = t.slots[s.count]?
  cleared : s.slots.map (Option.map Operand.clear) = t.slots.map (Option.map Operand.clear)

namespace Alike

variable {ready : Prop} {s t : OperandTable}

theorem mono {later : Prop} (h : Alike ready s t) (himp : later → ready) :
    Alike later s t :=
  ⟨h.count, h.decoded, fun hlater => h.waiting (himp hlater), h.cleared⟩

theorem length_eq (h : Alike ready s t) : s.slots.length = t.slots.length := by
  simpa using congrArg List.length h.cleared

theorem get?_eq (h : Alike ready s t) (index : Nat) : s.get? index = t.get? index := by
  unfold get?
  rw [← h.count]
  by_cases hindex : index < s.count
  · rw [if_pos hindex, if_pos hindex, h.decoded index hindex]
  · rw [if_neg hindex, if_neg hindex]

theorem toList_eq (h : Alike ready s t) : s.toList = t.toList := by
  have htake : s.slots.take s.count = t.slots.take t.count := by
    apply List.ext_getElem?
    intro index
    rw [List.getElem?_take, List.getElem?_take, ← h.count]
    by_cases hindex : index < s.count
    · rw [if_pos hindex, if_pos hindex, h.decoded index hindex]
    · rw [if_neg hindex, if_neg hindex]
  rw [toList, toList, htake]

theorem waiting?_clear_eq (h : Alike ready s t) :
    s.waiting?.map Operand.clear = t.waiting?.map Operand.clear := by
  have hslot := congrArg (fun slots => slots[s.count]?.join) h.cleared
  simp only [List.getElem?_map] at hslot
  unfold waiting?
  rw [← h.count]
  cases hs : s.slots[s.count]? with
  | none =>
      cases ht : t.slots[s.count]? with
      | none => rfl
      | some slot => simpa [hs, ht] using hslot
  | some slot =>
      cases ht : t.slots[s.count]? with
      | none => simpa [hs, ht] using hslot
      | some other => simpa [hs, ht] using hslot

theorem getElem?_place (h : Alike ready s t) (index other : Nat) (o : Operand)
    (hother : other ≠ index → s.slots[other]? = t.slots[other]?) :
    (s.place index o).slots[other]? = (t.place index o).slots[other]? := by
  rw [OperandTable.getElem?_place, OperandTable.getElem?_place, h.length_eq]
  by_cases hsame : other = index
  · subst hsame
    by_cases hlt : other < t.slots.length
    · rw [if_pos ⟨rfl, hlt⟩, if_pos ⟨rfl, hlt⟩]
    · have hs : s.slots.length ≤ other := by rw [h.length_eq]; omega
      rw [if_neg (fun hand => hlt hand.2), if_neg (fun hand => hlt hand.2),
        List.getElem?_eq_none hs, List.getElem?_eq_none (by omega)]
  · rw [if_neg (fun hand => hsame hand.1), if_neg (fun hand => hsame hand.1), hother hsame]

theorem place (h : Alike ready s t) (index : Nat) (o : Operand) :
    Alike ready (s.place index o) (t.place index o) where
  count := h.count
  decoded := by
    intro other hother
    exact h.getElem?_place index other o fun _ => h.decoded other hother
  waiting := by
    intro hready
    exact h.getElem?_place index s.count o fun _ => h.waiting hready
  cleared := by
    simp only [OperandTable.place, List.map_set, h.cleared]

theorem place_next (h : Alike ready s t) (o : Operand) :
    Alike True (s.place s.count o) (t.place t.count o) := by
  rw [← h.count]
  refine ⟨h.count, (h.place s.count o).decoded, ?_, (h.place s.count o).cleared⟩
  intro _
  exact h.getElem?_place s.count s.count o fun hne => absurd rfl hne

theorem of_waiting?_eq_none (h : Alike ready s t) (hnone : s.waiting? = none) :
    Alike True s t := by
  refine ⟨h.count, h.decoded, ?_, h.cleared⟩
  intro _
  have hslot := congrArg (fun slots => slots[s.count]?) h.cleared
  simp only [List.getElem?_map] at hslot
  unfold waiting? at hnone
  -- a slot that holds nothing is the same before and after clearing
  cases hs : s.slots[s.count]? with
  | none =>
      cases ht : t.slots[s.count]? with
      | none => rfl
      | some slot => simp [hs, ht] at hslot
  | some slot =>
      cases slot with
      | some o => simp [hs] at hnone
      | none =>
          cases ht : t.slots[s.count]? with
          | none => simp [hs, ht] at hslot
          | some other =>
              cases other with
              | none => rfl
              | some o => simp [hs, ht] at hslot

theorem waiting?_cases (h : Alike ready s t) :
    (s.waiting? = none ∧ t.waiting? = none) ∨
      ∃ o p, s.waiting? = some o ∧ t.waiting? = some p ∧ o.clear = p.clear := by
  have hclear := h.waiting?_clear_eq
  cases hs : s.waiting? with
  | none =>
      cases ht : t.waiting? with
      | none => exact Or.inl ⟨rfl, rfl⟩
      | some p => simp [hs, ht] at hclear
  | some o =>
      cases ht : t.waiting? with
      | none => simp [hs, ht] at hclear
      | some p => exact Or.inr ⟨o, p, rfl, rfl, by simpa [hs, ht] using hclear⟩

theorem push (h : Alike ready s t) (o : Operand) :
    (s.push? o = none ∧ t.push? o = none) ∨
      ∃ u v, s.push? o = some u ∧ t.push? o = some v ∧ Alike False u v := by
  unfold push?
  rw [← h.count, ← h.length_eq]
  by_cases hfree : s.count < s.slots.length
  · rw [if_pos hfree, if_pos hfree]
    have hplaced := h.place s.count o
    refine Or.inr ⟨_, _, rfl, rfl, rfl, ?_, fun hfalse => hfalse.elim, hplaced.cleared⟩
    intro index hindex
    by_cases hlast : index = s.count
    · exact h.getElem?_place s.count index o fun hne => absurd hlast hne
    · have hlt : index < s.count + 1 := hindex
      exact h.getElem?_place s.count index o fun _ => h.decoded index (by omega)
  · rw [if_neg hfree, if_neg hfree]
    by_cases hroom : s.slots.length + 1 < Storage.limit
    · rw [if_pos hroom, if_pos hroom]
      refine Or.inr ⟨_, _, rfl, rfl, rfl, ?_, fun hfalse => hfalse.elim, ?_⟩
      · intro index hindex
        rw [List.getElem?_append, List.getElem?_append, ← h.length_eq]
        by_cases hlt : index < s.slots.length
        · rw [if_pos hlt, if_pos hlt, h.decoded index (by omega)]
        · rw [if_neg hlt, if_neg hlt]
      · simp only [List.map_append, h.cleared]
    · rw [if_neg hroom, if_neg hroom]
      exact Or.inl ⟨rfl, rfl⟩

theorem commit (h : Alike ready s t) (hready : ready) :
    (s.commit? = none ∧ t.commit? = none) ∨
      ∃ u v, s.commit? = some u ∧ t.commit? = some v ∧ Alike False u v := by
  have hwaiting : s.waiting? = t.waiting? := by
    rw [waiting?, waiting?, ← h.count, h.waiting hready]
  unfold commit?
  rw [← hwaiting]
  cases s.waiting? with
  | none => exact Or.inl ⟨rfl, rfl⟩
  | some o =>
      refine Or.inr ⟨_, _, rfl, rfl, ?_, ?_, fun hfalse => hfalse.elim, h.cleared⟩
      · show s.count + 1 = t.count + 1
        rw [h.count]
      · intro index hindex
        have hlt : index < s.count + 1 := hindex
        by_cases hlast : index = s.count
        · subst hlast
          exact h.waiting hready
        · exact h.decoded index (by omega)

theorem clear (h : Alike ready s t) : Alike False s.clear t.clear where
  count := rfl
  decoded := by
    intro index hindex
    exact absurd hindex (Nat.not_lt_zero index)
  waiting := fun hfalse => hfalse.elim
  cleared := h.cleared

end Alike
end OperandTable

/-!
# Operations
-/

namespace Instruction

def Operation.movesFreeSlot : Operation → Bool
  | .addOperand _ => true
  | .commitNext => true
  | .clear => true
  | _ => false

def Operation.Readies (ready : Prop) (operation : Operation) : Prop :=
  (∃ edits, operation = .nextOperand edits) ∨ (ready ∧ operation.movesFreeSlot = false)

theorem Operation.not_readies {ready : Prop} {operation : Operation}
    (h : operation.movesFreeSlot = true) : ¬ operation.Readies ready := by
  intro hreadies
  rcases hreadies with ⟨edits, rfl⟩ | ⟨_, hkeeps⟩
  · cases h
  · rw [h] at hkeeps
    cases hkeeps

theorem Operation.ready_of_readies {ready : Prop} {operation : Operation}
    (hnext : ∀ edits, operation ≠ .nextOperand edits) (h : operation.Readies ready) : ready := by
  rcases h with ⟨edits, hedits⟩ | ⟨hready, _⟩
  · exact absurd hedits (hnext edits)
  · exact hready

end Instruction

theorem OperandTable.Alike.afterOperation {ready : Prop} {s t : OperandTable}
    (h : Alike ready s t) (operation : Operation) (hcommit : operation = .commitNext → ready) :
    Alike (operation.Readies ready) (s.afterOperation operation)
      (t.afterOperation operation) := by
  cases operation with
  | addOperand o =>
      simp only [OperandTable.afterOperation]
      rcases h.push o with ⟨hs, ht⟩ | ⟨u, v, hs, ht, hpushed⟩
      · rw [hs, ht]
        exact h.mono fun hreadies => absurd hreadies (Operation.not_readies rfl)
      · rw [hs, ht]
        exact hpushed.mono (Operation.not_readies rfl)
  | nextOperand edits =>
      simp only [OperandTable.afterOperation]
      rcases h.waiting?_cases with ⟨hs, ht⟩ | ⟨o, p, hs, ht, hclear⟩
      · rw [hs, ht]
        exact (h.of_waiting?_eq_none hs).mono fun _ => trivial
      · rw [hs, ht]
        simp only [hclear]
        exact (h.place_next _).mono fun _ => trivial
  | commitNext =>
      simp only [OperandTable.afterOperation]
      rcases h.commit (hcommit rfl) with ⟨hs, ht⟩ | ⟨u, v, hs, ht, hcommitted⟩
      · rw [hs, ht]
        exact h.mono fun hreadies => absurd hreadies (Operation.not_readies rfl)
      · rw [hs, ht]
        exact hcommitted.mono (Operation.not_readies rfl)
  | editOperand index edits =>
      simp only [OperandTable.afterOperation]
      rw [← h.get?_eq index]
      cases s.get? index with
      | none => exact h.mono (Operation.ready_of_readies (by simp))
      | some o => exact (h.place index _).mono (Operation.ready_of_readies (by simp))
  | clear => exact h.clear.mono (Operation.not_readies rfl)
  | _ => exact h.mono (Operation.ready_of_readies (by simp))

namespace Instruction

/-- Instructions that agree but for where they lie and for stale operands. -/
inductive Alike (ready : Prop) (i : Instruction) : Instruction → Prop where
  | mk {offset address size : UInt64} {bytes : List UInt8} {table : OperandTable}
      (operands : i.operands.Alike ready table) :
      Alike ready i { i with offset, address, size, bytes, operands := table }

namespace Alike

variable {ready : Prop} {i j : Instruction}

theorem mono {later : Prop} (h : Alike ready i j) (himp : later → ready) : Alike later i j := by
  cases h with
  | mk h => exact .mk (h.mono himp)

theorem response_eq (h : Alike ready i j) (operation : Operation)
    (hcommit : operation = .commitNext → ready) :
    (i.perform operation).1 = (j.perform operation).1 := by
  cases h with
  | mk h =>
      cases operation with
      | addOperand o =>
          simp only [perform, addOperand, ← h.count, ← h.length_eq]
          rcases h.push o with ⟨hs, ht⟩ | ⟨u, v, hs, ht, _⟩
          · rw [hs, ht]
            rfl
          · rw [hs, ht]
            rfl
      | nextOperand edits =>
          simp only [perform, Instruction.nextOperand]
          rcases h.waiting?_cases with ⟨hs, ht⟩ | ⟨o, p, hs, ht, hclear⟩
          · rw [hs, ht]
          · rw [hs, ht]
            simp only [hclear]
      | commitNext =>
          simp only [perform, Instruction.commitNext, ← h.count]
          rcases h.commit (hcommit rfl) with ⟨hs, ht⟩ | ⟨u, v, hs, ht, _⟩
          · rw [hs, ht]
          · rw [hs, ht]
      | editOperand index edits =>
          simp only [perform, ← h.get?_eq index]
          cases i.operands.get? index with
          | none => rfl
          | some o => rfl
      | setReference role ref =>
          simp only [perform, answer, setReference, isValid, ← h.count]
          by_cases hvalid : ref.index < i.operands.count
          · simp only [hvalid, decide_true, if_true, Outcome.result_done]
          · simp only [hvalid, decide_false, Bool.false_eq_true, if_false,
              Outcome.result_refused]
      | _ => rfl

theorem perform (h : Alike ready i j) (operation : Operation)
    (hcommit : operation = .commitNext → ready) :
    Alike (operation.Readies ready) (i.perform operation).2 (j.perform operation).2 := by
  cases h with
  | mk h =>
      have hafter := h.afterOperation operation hcommit
      rw [state_perform, state_perform]
      cases operation with
      | setReference role ref =>
          simp only [isValid, ← h.count]
          exact .mk hafter
      | _ => exact .mk hafter

/-!
# Observations
-/

theorem reference?_eq (h : Alike ready i j) : i.reference? = j.reference? := by
  have hvalid : i.isValid = j.isValid := by
    cases h with
    | mk h =>
        funext ref
        rw [isValid, isValid, h.count]
  cases h with
  | mk h =>
      funext role
      rw [reference?, reference?, hvalid]

theorem view_eq (h : Alike ready i j) : i.view = j.view := by
  have hreference := h.reference?_eq
  cases h with
  | mk h =>
      simp only [view, hreference, referent?, description?, displayParts, displayOperands,
        ← h.count, ← h.length_eq, ← h.toList_eq, ← h.get?_eq]

theorem display_eq (h : Alike ready i j) (haddress : i.address = j.address) :
    i.display = j.display :=
  display_eq_of_address_eq haddress (congrArg View.description? h.view_eq)

theorem dupe_eq (h : Alike ready i j) :
    j.dupe = i.dupe.map fun copy =>
      { copy with
        offset := j.offset
        address := j.address
        size := j.size
        bytes := j.bytes } := by
  cases h with
  | mk h =>
      simp only [dupe, ← h.count, ← h.toList_eq, map_bind_except]
      rfl

theorem dupe_view_eq (h : Alike ready i j) : i.dupe.map view = j.dupe.map view := by
  rw [h.dupe_eq]
  cases i.dupe with
  | error e => rfl
  | ok copy => rfl

theorem dupe_display_eq (h : Alike ready i j) (haddress : i.address = j.address) :
    i.dupe.map display = j.dupe.map display := by
  rw [h.dupe_eq]
  cases hcopy : i.dupe with
  | error e => rfl
  | ok copy =>
      rcases dupe_eq_ok hcopy with ⟨_, _, _, _, _, _, _, hparts⟩
      have hkept : copy.address = i.address := by rw [hparts]
      apply congrArg Except.ok
      exact display_eq_of_address_eq (hkept.trans haddress) rfl

end Alike
end Instruction
end Disassembly
