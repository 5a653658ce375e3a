import Disassembly.Proofs.Observation
import Disassembly.Proofs.Table

/-!
# Decoding step by step

A decoder does not know how the instruction is stored: to push an operand it asks for
the one that waits in the next free slot, and only when there is none it makes a new
one.
-/

namespace Disassembly

/-!
# Filling in an operand
-/

namespace Operand

/-- Sets everything that an operand says. If its text is refused, the rest is not set. -/
def fill (o : Operand) (c : Contents) : Outcome Operand Error Unit :=
  let written := o.setText c.text
  match written.result with
  | .error e => .refused written.state e
  | .ok () =>
      .done (((written.state.setFlags c.flags).setValue c.value).setDataSize c.dataSize) ()

variable {o : Operand} {c : Contents}

theorem fill_of_set {n : Nat} (h : (o.text.set c.text).result = .ok n) :
    o.fill c = .done ⟨(o.text.set c.text).state, c.flags, c.value, c.dataSize⟩ () := by
  simp only [fill, setText, Outcome.result_map, Outcome.result_mapError, Outcome.result_within, h]
  rfl

theorem fill_of_set_error {e : StorageError} (h : (o.text.set c.text).result = .error e) :
    (o.fill c).result = .error (.ofStorage .operandText e) := by
  simp only [fill, setText, Outcome.result_map, Outcome.result_mapError, Outcome.result_within, h]
  rfl

theorem set_of_fill (h : (o.fill c).result = .ok ()) :
    ∃ n, (o.text.set c.text).result = .ok n := by
  cases hset : (o.text.set c.text).result with
  | ok n => exact ⟨n, rfl⟩
  | error e =>
      rw [fill_of_set_error hset] at h
      cases h

theorem isAllocation_of_fill {e : Error} (h : (o.fill c).result = .error e) :
    e.isAllocation = true := by
  cases hset : (o.text.set c.text).result with
  | ok n =>
      rw [fill_of_set hset] at h
      cases h
  | error refusal =>
      rw [fill_of_set_error hset] at h
      cases h
      rfl

end Operand

/-!
# Pushing an operand
-/

namespace OperandTable

def nextBlank (t : OperandTable) : Operand := (t.waiting?.map Operand.clear).getD .empty

structure Pushed (t : OperandTable) (o : Operand) (u : OperandTable) : Prop where
  count : u.count = t.count + 1
  getElem? : ∀ index,
    u.slots[index]? = if index = t.count then some (some o) else t.slots[index]?
  length_lt : t.slots.length < Storage.limit → u.slots.length < Storage.limit

theorem Pushed.mem_toList {t u : OperandTable} {o : Operand} (h : Pushed t o u) :
    o ∈ u.toList := by
  have hslot := h.getElem? t.count
  rw [if_pos rfl] at hslot
  have hlast : t.count < u.count := by rw [h.count]; exact Nat.lt_succ_self _
  exact mem_toList_of_get? (get?_eq_some_iff.mpr ⟨hlast, hslot⟩)

theorem pushed_of_push {t u : OperandTable} {o : Operand} (h : t.Packed)
    (hpush : t.push? o = some u) : Pushed t o u where
  count := count_push hpush
  getElem? := h.getElem?_push hpush
  length_lt := fun hlt => length_push_lt hlt hpush

theorem pushed_of_waiting {t : OperandTable} {waiting : Operand}
    (hwaiting : t.waiting? = some waiting) (o : Operand) :
    ∃ u, (t.place t.count o).commit? = some u ∧ Pushed t o u := by
  have hslot := waiting?_eq_some_iff.mp hwaiting
  have hplaced : (t.place t.count o).waiting? = some o :=
    waiting?_eq_some_iff.mpr (getElem?_place_self hslot o)
  refine ⟨{ t.place t.count o with count := t.count + 1 }, ?_, rfl, ?_, ?_⟩
  · unfold commit?
    rw [hplaced]
    rfl
  · intro index
    by_cases hlast : index = t.count
    · subst hlast
      rw [if_pos rfl]
      exact getElem?_place_self hslot o
    · rw [if_neg hlast]
      exact getElem?_place_of_ne hlast o
  · intro hlt
    simpa using hlt

theorem limit_le_of_push_eq_none {t : OperandTable} {o : Operand} (h : t.push? o = none) :
    t.slots.length ≤ t.count ∧ Storage.limit ≤ t.slots.length + 1 := by
  unfold push? at h
  split at h
  · cases h
  · split at h
    · cases h
    · omega

end OperandTable

namespace Instruction

def Response.isAllocationFailure : Response → Bool
  | .refused e => e.isAllocation
  | .notAdded e => e.cause.isAllocation
  | _ => false

def pushOperand (i : Instruction) (c : Operand.Contents) : Response × Instruction :=
  match i.nextOperand with
  | (some o, after) =>
      let filled := o.fill c
      match filled.result with
      | .ok () => (after.putNext filled.state).perform .commitNext
      | .error e => (.refused e, after.putNext filled.state)
  | (none, after) =>
      let filled := Operand.empty.fill c
      match filled.result with
      | .ok () => after.perform (.addOperand filled.state)
      | .error e => (.refused e, after)

theorem pushOperand_cases {i : Instruction} (hpacked : i.operands.Packed) (c : Operand.Contents) :
    (∃ e, (i.operands.nextBlank.fill c).result = .error e ∧ (i.pushOperand c).1 = .refused e) ∨
    (i.operands.slots.length ≤ i.operands.count ∧
      Storage.limit ≤ i.operands.slots.length + 1 ∧
      ∃ e, e.cause.isAllocation = true ∧ (i.pushOperand c).1 = .notAdded e) ∨
    (∃ u, (i.operands.nextBlank.fill c).result = .ok () ∧
      i.operands.Pushed (i.operands.nextBlank.fill c).state u ∧
      i.pushOperand c = (.placed ⟨i.operands.count⟩, { i with operands := u })) := by
  unfold pushOperand Instruction.nextOperand OperandTable.nextBlank
  cases hwaiting : i.operands.waiting? with
  | some waiting =>
      simp only [Option.map_some, Option.getD_some]
      cases hfill : (waiting.clear.fill c).result with
      | error e => exact Or.inl ⟨e, rfl, rfl⟩
      | ok done =>
          rcases OperandTable.pushed_of_waiting hwaiting (waiting.clear.fill c).state with
            ⟨u, hu, hpushed⟩
          refine Or.inr (Or.inr ⟨u, rfl, hpushed, ?_⟩)
          simp only [putNext, perform, commitNext, OperandTable.count_place,
            OperandTable.place_place, hu]
  | none =>
      simp only [Option.map_none, Option.getD_none]
      cases hfill : (Operand.empty.fill c).result with
      | error e => exact Or.inl ⟨e, rfl, rfl⟩
      | ok done =>
          cases hpush : i.operands.push? (Operand.empty.fill c).state with
          | none =>
              rcases OperandTable.limit_le_of_push_eq_none hpush with ⟨hfull, hlimit⟩
              refine Or.inr (Or.inl ⟨hfull, hlimit, ⟨(Operand.empty.fill c).state,
                .allocation .operandSlots (i.operands.slots.length + 1)⟩, rfl, ?_⟩)
              simp only [perform, addOperand, hpush]
              rfl
          | some u =>
              refine Or.inr (Or.inr ⟨u, rfl, OperandTable.pushed_of_push hpacked hpush, ?_⟩)
              simp only [perform, addOperand, hpush]
              rfl

theorem exists_pushed_of_granted {i : Instruction} (hpacked : i.operands.Packed)
    {c : Operand.Contents} (hok : (i.pushOperand c).1.isAllocationFailure = false) :
    ∃ u, (i.operands.nextBlank.fill c).result = .ok () ∧
      i.operands.Pushed (i.operands.nextBlank.fill c).state u ∧
      i.pushOperand c = (.placed ⟨i.operands.count⟩, { i with operands := u }) := by
  rcases pushOperand_cases hpacked c with ⟨e, herror, hpush⟩ | ⟨_, _, e, hcause, hpush⟩ | hpushed
  · rw [hpush, Response.isAllocationFailure, Operand.isAllocation_of_fill herror] at hok
    cases hok
  · rw [hpush, Response.isAllocationFailure, hcause] at hok
    cases hok
  · exact hpushed

theorem exists_pushed_of_room {i : Instruction} (hpacked : i.operands.Packed)
    {c : Operand.Contents} (hfill : (i.operands.nextBlank.fill c).result = .ok ())
    (hroom : i.operands.count + 1 < Storage.limit) :
    ∃ u, i.operands.Pushed (i.operands.nextBlank.fill c).state u ∧
      i.pushOperand c = (.placed ⟨i.operands.count⟩, { i with operands := u }) := by
  rcases pushOperand_cases hpacked c with ⟨e, herror, _⟩ | ⟨hfull, hlimit, _⟩ | ⟨u, _, hpushed⟩
  · rw [hfill] at herror
    cases herror
  · omega
  · exact ⟨u, hpushed⟩

/-!
# Steps and runs
-/

/-- Whether an operation changes neither the comment nor an operand, unless it clears the whole
instruction. -/
def Operation.isDirect : Operation → Bool
  | .addComment _ => false
  | .addOperand _ => false
  | .nextOperand _ => false
  | .commitNext => false
  | .editOperand _ _ => false
  | _ => true

inductive DecodeStep where
  | change (operation : Operation) (direct : operation.isDirect = true)
  | push (contents : Operand.Contents)

def decode (i : Instruction) : DecodeStep → Response × Instruction
  | .change operation _ => i.perform operation
  | .push contents => i.pushOperand contents

def decodeAll (i : Instruction) : List DecodeStep → List Response × Instruction
  | [] => ([], i)
  | first :: rest =>
      let now := i.decode first
      let later := now.2.decodeAll rest
      (now.1 :: later.1, later.2)

theorem decodeAll_append (i : Instruction) (front back : List DecodeStep) :
    i.decodeAll (front ++ back) =
      ((i.decodeAll front).1 ++ ((i.decodeAll front).2.decodeAll back).1,
        ((i.decodeAll front).2.decodeAll back).2) := by
  induction front generalizing i with
  | nil => rfl
  | cons first rest ih => simp [decodeAll, ih]

structure Fits (l : Layout) (i : Instruction) : Prop where
  text : i.text.content.utf8ByteSize ≤ l.textSize.toNat - 1
  mnemonic : i.mnemonic.content.utf8ByteSize ≤ l.mnemonicSize.toNat - 1
  prefixes : i.prefixes.content.utf8ByteSize ≤ l.prefixesSize.toNat - 1
  operands : ∀ o ∈ i.operands.toList, o.text.content.utf8ByteSize ≤ l.operandTextSize.toNat - 1

instance (l : Layout) (i : Instruction) : Decidable (Fits l i) :=
  decidable_of_iff
    (i.text.content.utf8ByteSize ≤ l.textSize.toNat - 1 ∧
      i.mnemonic.content.utf8ByteSize ≤ l.mnemonicSize.toNat - 1 ∧
      i.prefixes.content.utf8ByteSize ≤ l.prefixesSize.toNat - 1 ∧
      ∀ o ∈ i.operands.toList, o.text.content.utf8ByteSize ≤ l.operandTextSize.toNat - 1)
    ⟨fun ⟨text, mnemonic, prefixes, operands⟩ => ⟨text, mnemonic, prefixes, operands⟩,
      fun ⟨text, mnemonic, prefixes, operands⟩ => ⟨text, mnemonic, prefixes, operands⟩⟩

end Instruction
end Disassembly
