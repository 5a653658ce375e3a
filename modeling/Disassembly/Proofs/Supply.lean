import Disassembly.Proofs.Bounded
import Disassembly.Proofs.History
import Disassembly.Proofs.Reuse

/-!
# Where operands to fill in come from

An operand that is added takes the place of the one in the free slot, and whoever holds
the operand of a slot may put another one there. What is handed out later is the operand
that was put into the slot last, cleared, with the storage that it came with.
-/

namespace Disassembly

open Instruction

/-!
# Edits
-/

namespace Operand

def lastPut (o : Operand) : List Edit → Operand
  | [] => o
  | .replace p :: rest => p.lastPut rest
  | _ :: rest => o.lastPut rest

theorem capacity?_editAll {o p : Operand} (h : o.text.capacity? = p.text.capacity?)
    (edits : List Edit) :
    (o.editAll edits).2.text.capacity? = (p.lastPut edits).text.capacity? := by
  induction edits generalizing o p with
  | nil => exact h
  | cons first rest ih =>
      cases first with
      | setText s =>
          apply ih
          rw [← h]
          exact Text.capacity?_set o.text s
      | clear =>
          apply ih
          rw [← h]
          exact capacity?_text_clear o
      -- from here on, the operand put in place is compared with itself
      | replace q => exact ih rfl
      | _ => exact ih h

theorem lastPut_of_isInPlace {o : Operand} {edits : List Edit}
    (h : edits.all Edit.isInPlace = true) : o.lastPut edits = o := by
  induction edits with
  | nil => rfl
  | cons first rest ih =>
      simp only [List.all_cons, Bool.and_eq_true] at h
      cases first with
      | replace p => cases h.1
      | _ => exact ih h.2

theorem setText_of_capacity? {o : Operand} {capacity : Nat}
    (h : o.text.capacity? = some capacity) (s : String) :
    ∃ front, Utf8.LongestFit (capacity - 1) s front ∧
      o.setText s = .done { o with text := .bounded ⟨front, capacity⟩ } () ∧
      Storage.grow? capacity 0 front.utf8ByteSize = some capacity := by
  rcases o with ⟨text, flags, value, dataSize⟩
  cases text with
  | growable t => cases h
  | bounded t =>
      cases h
      have hfit := Utf8.longestFit_takeBytes t.limit s
      refine ⟨Utf8.takeBytes t.limit s, hfit, ?_, ?_⟩
      · simp only [setText, Text.set, BoundedText.set_eq]
        rfl
      · apply Storage.grow?_of_le
        have hle : (Utf8.takeBytes t.limit s).utf8ByteSize ≤ t.capacity - 1 := hfit.size_le
        omega

end Operand

/-!
# Slots
-/

namespace OperandTable

def supply (t : OperandTable) : Operation → Response → List Operand → List Operand
  | .addOperand o, .placed ref, put =>
      if ref.index < put.length then put.set ref.index o else put ++ [o]
  | .nextOperand edits, .handedOut _ _, put => put.modify t.count fun p => p.lastPut edits
  | .editOperand index edits, .edited _, put => put.modify index fun p => p.lastPut edits
  | _, _, put => put

def Supplied (put : List Operand) (t : OperandTable) : Prop :=
  t.slots.map (Option.map fun o => o.text.capacity?) = put.map fun p => some p.text.capacity?

variable {put : List Operand} {t u : OperandTable}

theorem Supplied.length_eq (h : t.Supplied put) : t.slots.length = put.length := by
  have hlength := congrArg List.length h
  rwa [List.length_map, List.length_map] at hlength

theorem Supplied.exists_put (h : t.Supplied put) {index : Nat} {o : Operand}
    (hslot : t.slots[index]? = some (some o)) :
    ∃ p, put[index]? = some p ∧ o.text.capacity? = p.text.capacity? := by
  have hindex := congrArg (fun capacities => capacities[index]?) h
  simp only [List.getElem?_map, hslot, Option.map_some] at hindex
  rcases Option.map_eq_some_iff.mp hindex.symm with ⟨p, hp, hcapacity⟩
  exact ⟨p, hp, (Option.some.inj hcapacity).symm⟩

theorem Supplied.push (h : t.Supplied put) {o : Operand} (hpush : t.push? o = some u) :
    u.Supplied (if t.count < put.length then put.set t.count o else put ++ [o]) := by
  rw [← h.length_eq]
  rcases push_cases hpush with ⟨hfree, rfl⟩ | ⟨hfull, _, rfl⟩
  · rw [if_pos hfree, Supplied, List.map_set, ← h]
    exact List.map_set
  · rw [if_neg (Nat.not_lt.mpr hfull), Supplied, List.map_append, h, List.map_append]
    rfl

theorem Supplied.place (h : t.Supplied put) {index : Nat} {o p : Operand}
    {f : Operand → Operand} (hslot : t.slots[index]? = some (some o))
    (hf : ∀ q : Operand, o.text.capacity? = q.text.capacity? →
      p.text.capacity? = (f q).text.capacity?) :
    (t.place index p).Supplied (put.modify index f) := by
  rcases h.exists_put hslot with ⟨q, hq, hcapacity⟩
  apply List.ext_getElem?
  intro other
  have hother := congrArg (fun capacities => capacities[other]?) h
  simp only [List.getElem?_map] at hother
  rw [List.getElem?_map, List.getElem?_map, List.getElem?_modify]
  by_cases hsame : index = other
  · subst hsame
    simp [getElem?_place_self hslot, hq, hf q hcapacity]
  · rw [getElem?_place_of_ne (Ne.symm hsame), hother]
    simp [hsame]

theorem Supplied.exchange (h : t.Supplied put) {operation : Operation} {response : Response}
    (hexchange : Exchange t operation response u) :
    u.Supplied (t.supply operation response put) := by
  cases hexchange with
  | push hpush => exact h.push hpush
  | @handOut edits o hwaiting =>
      apply h.place (waiting?_eq_some_iff.mp hwaiting)
      intro q hq
      exact Operand.capacity?_editAll ((Operand.capacity?_text_clear o).trans hq) edits
  | commit hcommit =>
      rw [Supplied, (count_commit hcommit).2]
      exact h
  | @edit index edits o hget =>
      apply h.place (get?_eq_some_iff.mp hget).2
      intro q hq
      exact Operand.capacity?_editAll hq edits
  | aside haside hplaced =>
      cases operation with
      | addOperand o => cases haside
      | nextOperand edits => cases haside
      | editOperand index edits => cases haside
      | _ => exact h
  | _ => exact h

theorem supply_of_reusesSlots {operation : Operation} (hreuses : operation.reusesSlots = true)
    (response : Response) : t.supply operation response put = put := by
  have hkept (edits : List Operand.Edit) (hplace : edits.all Operand.Edit.isInPlace = true)
      (index : Nat) : (put.modify index fun p => p.lastPut edits) = put := by
    have hid : (fun p : Operand => p.lastPut edits) = id :=
      funext fun p => Operand.lastPut_of_isInPlace hplace
    rw [hid, List.modify_id]
  cases operation with
  | addOperand o => cases hreuses
  | nextOperand edits =>
      cases response with
      | handedOut o results => exact hkept edits hreuses t.count
      | _ => rfl
  | editOperand index edits =>
      cases response with
      | edited results => exact hkept edits hreuses index
      | _ => rfl
  | _ => rfl

end OperandTable

namespace Instruction

/-!
# Runs
-/

def prebuilt (l : Layout) : List Operand :=
  List.replicate l.operandCount.toNat { text := .bounded { capacity := l.operandTextSize.toNat } }

def supply (i : Instruction) : List Operand → List Operation → List Operand :=
  i.accumulate fun j => j.operands.supply

theorem supplied_blank (l : Layout) : (blank l).operands.Supplied (prebuilt l) := by
  simp [OperandTable.Supplied, blank, prebuilt]

theorem supplied_run {i : Instruction} {put : List Operand} (h : i.operands.Supplied put)
    (operations : List Operation) :
    (i.run operations).2.operands.Supplied (i.supply put operations) := by
  refine accumulate_invariant (P := fun j put => j.operands.Supplied put) ?_ h
  intro j put operation _ hj
  exact hj.exchange (exchange_perform j operation)

theorem supply_eq {i : Instruction} {put : List Operand} {operations : List Operation}
    (hreuses : ∀ operation ∈ operations, operation.reusesSlots = true) :
    i.supply put operations = put := by
  refine accumulate_invariant (P := fun _ later => later = put) ?_ rfl
  intro j later operation hmem hlater
  exact (OperandTable.supply_of_reusesSlots (hreuses operation hmem) _).trans hlater

theorem nextOperand_eq_some {i after : Instruction} {o : Operand}
    (h : i.nextOperand = (some o, after)) :
    ∃ waiting, i.operands.waiting? = some waiting ∧ o = waiting.clear := by
  unfold nextOperand at h
  cases hwaiting : i.operands.waiting? with
  | none =>
      rw [hwaiting] at h
      cases h
  | some waiting =>
      rw [hwaiting] at h
      cases h
      exact ⟨waiting, rfl, rfl⟩

/-- An operand that a fixed instruction hands out has the strategy and the capacity of the one that
was last put into its slot. These are those of the layout if the run only reuses slots. -/
theorem nextOperand_of_run {l : Layout} {i : Instruction} (h : ofLayout l = .ok i)
    (operations : List Operation) {o : Operand} {after : Instruction}
    (hnext : (i.run operations).2.nextOperand = (some o, after)) :
    ∃ p, (i.supply (prebuilt l) operations)[(i.run operations).2.operands.count]? = some p ∧
      o.text.capacity? = p.text.capacity? ∧
      ((∀ operation ∈ operations, operation.reusesSlots = true) →
        p.text.capacity? = some l.operandTextSize.toNat) ∧
      (p.text.capacity? = some l.operandTextSize.toNat →
        o.isBounded = true ∧
        ∀ edits s, edits.all Operand.Edit.isInPlace = true →
          let filled := (o.editAll edits).2
          ∃ front, Utf8.LongestFit (l.operandTextSize.toNat - 1) s front ∧
            filled.setText s =
              .done { filled with text := .bounded ⟨front, l.operandTextSize.toNat⟩ } () ∧
            Storage.grow? l.operandTextSize.toNat 0 front.utf8ByteSize =
              some l.operandTextSize.toNat) := by
  cases ofLayout_eq_ok h
  rcases nextOperand_eq_some hnext with ⟨waiting, hwaiting, rfl⟩
  have hsupplied := supplied_run (supplied_blank l) operations
  rcases hsupplied.exists_put (OperandTable.waiting?_eq_some_iff.mp hwaiting) with
    ⟨p, hp, hcapacity⟩
  have hcleared := (Operand.capacity?_text_clear waiting).trans hcapacity
  refine ⟨p, hp, hcleared, ?_, ?_⟩
  · intro hreuses
    rw [supply_eq hreuses] at hp
    rw [List.eq_of_mem_replicate (List.mem_of_getElem? hp)]
    rfl
  · intro hlayout
    rw [hlayout] at hcleared
    refine ⟨Text.isBounded_of_capacity? hcleared, ?_⟩
    intro edits s hplace
    have hfilled := Operand.capacity?_editAll (o := waiting.clear) rfl edits
    rw [Operand.lastPut_of_isInPlace hplace, hcleared] at hfilled
    exact Operand.setText_of_capacity? hfilled s

/-- The operand of the second slot, which was edited in place, after the first one was replaced. -/
theorem nextOperand_of_half_replaced_buffer :
    let i := blank ⟨8, 4, 2, 8⟩
    let operations : List Operation :=
      [.addOperand .empty, .nextOperand [.setText "eax"], .commitNext, .clear, .commitNext]
    ∃ o after, (i.run operations).2.nextOperand = (some o, after) ∧
      o.text.capacity? = some 8 ∧
      ∃ front, Utf8.LongestFit 7 "0123456789" front ∧
        o.setText "0123456789" = .done { o with text := .bounded ⟨front, 8⟩ } () := by
  intro i operations
  have hmade : ofLayout ⟨8, 4, 2, 8⟩ = .ok i := rfl
  have hput : (i.supply (prebuilt ⟨8, 4, 2, 8⟩) operations)[
      (i.run operations).2.operands.count]? = some { text := .bounded { capacity := 8 } } := by
    decide +kernel
  cases hnext : (i.run operations).2.nextOperand with
  | mk handed after =>
      cases handed with
      | none =>
          have hsome : (i.run operations).2.nextOperand.1.isSome = true := by decide
          rw [hnext] at hsome
          cases hsome
      | some o =>
          rcases nextOperand_of_run hmade operations hnext with
            ⟨p, hp, hcapacity, _, hfill⟩
          rw [hput] at hp
          cases hp
          rcases (hfill rfl).2 [] "0123456789" rfl with ⟨front, hfront, hset, _⟩
          exact ⟨o, after, rfl, hcapacity, front, hfront, hset⟩

/-- An operand that was added is handed out as it came, after the instruction is cleared. -/
theorem nextOperand_not_of_layout :
    ¬ ∀ (l : Layout) (i : Instruction) (operations : List Operation) (o : Operand)
        (after : Instruction), ofLayout l = .ok i →
        (i.run operations).2.nextOperand = (some o, after) →
          o.isBounded = true ∧ o.text.capacity? = some l.operandTextSize.toNat := by
  intro hall
  have hbounded := (hall ⟨8, 4, 1, 8⟩ (blank ⟨8, 4, 1, 8⟩) [.addOperand .empty, .clear] .empty
    ((blank ⟨8, 4, 1, 8⟩).run [.addOperand .empty, .clear]).2 rfl rfl).1
  cases hbounded

end Instruction
end Disassembly
