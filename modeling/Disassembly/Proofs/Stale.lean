import Disassembly.Proofs.Copy
import Disassembly.Proofs.History

/-!
# What is left in the slots

Clearing an instruction leaves its operands in their slots. A request for the next
operand makes the one that it hands out blank, and a commit counts whatever waits.
`Uses` records which slots were asked for since the clearing, and which were counted
although nobody had asked for them.
-/

namespace Disassembly

open Instruction

namespace Operand

theorem isBlank_eq_of_contents {o p : Operand} (h : o.contents = p.contents) :
    o.isBlank = p.isBlank := by
  rcases Contents.mk.inj h with ⟨htext, hflags, hvalue, hsize⟩
  rw [isBlank, isBlank, htext, hflags, hvalue, hsize]

theorem contents_dupe {o copy : Operand} (h : o.dupe = .ok copy) :
    copy.contents = o.contents := by
  have hcontent := content_dupe h
  rcases dupe_eq_ok h with ⟨text, _, rfl⟩
  rw [contents, contents, hcontent]

def Edit.isClear : Edit → Bool
  | .clear => true
  | _ => false

theorem editAll_of_isClear {o : Operand} {edits : List Edit}
    (h : edits.all Edit.isClear = true) :
    (o.editAll edits).2 = o ∨ (o.editAll edits).2.isBlank = true := by
  induction edits generalizing o with
  | nil => exact Or.inl rfl
  | cons first rest ih =>
      rw [List.all_cons, Bool.and_eq_true] at h
      cases first with
      | clear =>
          apply Or.inr
          show (o.clear.editAll rest).2.isBlank = true
          rcases ih h.2 with hsame | hblank
          · rw [hsame, isBlank_clear]
          · exact hblank
      | _ => cases h.1

end Operand

namespace Instruction

def Operation.writesOperands : Operation → Bool
  | .addOperand _ => true
  | .nextOperand edits => !edits.all Operand.Edit.isClear
  | .editOperand _ edits => !edits.all Operand.Edit.isClear
  | _ => false

end Instruction

/-!
# The account of the slots
-/

structure Uses where
  /-- The slots whose operands were handed out. -/
  requested : List Nat := []
  /-- The slots that were counted and had not been requested. -/
  unrequested : List Nat := []
deriving DecidableEq, Repr

def Uses.enter (uses : Uses) (t : OperandTable) : Operation → Response → Uses
  | .nextOperand _, .handedOut _ _ => { uses with requested := t.count :: uses.requested }
  | .commitNext, .placed ref =>
      if ref.index ∈ uses.requested then uses
      else { uses with unrequested := ref.index :: uses.unrequested }
  | _, _ => uses

namespace OperandTable

def Held (t : OperandTable) (index : Nat) (o : Operand) : Prop :=
  ∃ old, t.slots[index]? = some (some old) ∧ o.contents = old.contents

structure Traced (start : OperandTable) (uses : Uses) (t : OperandTable) : Prop where
  slot : ∀ (index : Nat) (o : Operand), t.slots[index]? = some (some o) →
    o.isBlank = true ∨ (index ∉ uses.requested ∧ start.Held index o)
  counted : ∀ index, index < t.count → index ∈ uses.requested ∨ index ∈ uses.unrequested

theorem traced_clear (start : OperandTable) : Traced start {} start.clear where
  slot := by
    intro index o ho
    exact Or.inr ⟨List.not_mem_nil, o, ho, rfl⟩
  counted := by
    intro index hindex
    exact absurd hindex (Nat.not_lt_zero index)

namespace Traced

variable {start t u : OperandTable} {uses : Uses}

theorem handOut (h : Traced start uses t) {o : Operand} (hblank : o.isBlank = true) :
    Traced start { uses with requested := t.count :: uses.requested } (t.place t.count o) where
  slot := by
    intro index p hp
    rw [getElem?_place] at hp
    split at hp
    · cases hp
      exact Or.inl hblank
    · rename_i hother
      rcases h.slot index p hp with hp' | ⟨hrequested, hheld⟩
      · exact Or.inl hp'
      · refine Or.inr ⟨?_, hheld⟩
        intro hmem
        rcases List.mem_cons.mp hmem with rfl | hmem
        · exact hother ⟨rfl, (List.getElem?_eq_some_iff.mp hp).1⟩
        · exact hrequested hmem
  counted := by
    intro index hindex
    rcases h.counted index hindex with hrequested | hunrequested
    · exact Or.inl (List.mem_cons_of_mem _ hrequested)
    · exact Or.inr hunrequested

theorem commit (h : Traced start uses t) (hcommit : t.commit? = some u) :
    Traced start (uses.enter t .commitNext (.placed ⟨t.count⟩)) u := by
  rcases count_commit hcommit with ⟨hcount, hslots⟩
  have hsplit : ∀ index, index < u.count → index = t.count ∨ index < t.count := by
    intro index hindex
    rw [hcount] at hindex
    exact Nat.eq_or_lt_of_le (Nat.le_of_lt_succ hindex)
  have hslot := h.slot
  rw [← hslots] at hslot
  rw [Uses.enter]
  split
  · rename_i hrequested
    refine ⟨hslot, ?_⟩
    intro index hindex
    rcases hsplit index hindex with rfl | hearlier
    · exact Or.inl hrequested
    · exact h.counted index hearlier
  · refine ⟨hslot, ?_⟩
    intro index hindex
    rcases hsplit index hindex with rfl | hearlier
    · exact Or.inr List.mem_cons_self
    · rcases h.counted index hearlier with hrequested | hunrequested
      · exact Or.inl hrequested
      · exact Or.inr (List.mem_cons_of_mem _ hunrequested)

theorem edit (h : Traced start uses t) {index : Nat} {o : Operand}
    (hget : t.get? index = some o) {edits : List Operand.Edit}
    (hclear : edits.all Operand.Edit.isClear = true) :
    Traced start uses (t.place index (o.editAll edits).2) where
  slot := by
    intro other p hp
    rw [getElem?_place] at hp
    split at hp
    · rename_i hsame
      cases hp
      rcases Operand.editAll_of_isClear (o := o) hclear with hunchanged | hblank
      · rw [hunchanged, hsame.1]
        exact h.slot index o (get?_eq_some_iff.mp hget).2
      · exact Or.inl hblank
    · exact h.slot other p hp
  counted := h.counted

theorem exchange (h : Traced start uses t) {operation : Operation} {response : Response}
    (hexchange : Exchange t operation response u) (hwrites : operation.writesOperands = false) :
    Traced start (uses.enter t operation response) u := by
  cases hexchange with
  | push hpush => cases hwrites
  | noStorage hpush => cases hwrites
  | @handOut edits o hwaiting =>
      have hclear : edits.all Operand.Edit.isClear = true := by
        simpa [Operation.writesOperands] using hwrites
      apply h.handOut
      rcases Operand.editAll_of_isClear (o := o.clear) hclear with hsame | hblank
      · rw [hsame, Operand.isBlank_clear]
      · exact hblank
  | commit hcommit => exact h.commit hcommit
  | edit hget => exact h.edit hget (by simpa [Operation.writesOperands] using hwrites)
  | clear =>
      refine ⟨h.slot, ?_⟩
      intro index hindex
      exact absurd hindex (Nat.not_lt_zero index)
  | aside haside hplaced =>
      cases operation with
      | addOperand o => cases haside
      | nextOperand edits => cases haside
      | commitNext => cases haside
      | editOperand index edits => cases haside
      | _ => exact h
  | _ => exact h

theorem found (h : Traced start uses t) {index : Nat} {o : Operand}
    (hget : t.get? index = some o) :
    o.isBlank = true ∨
      (index ∈ uses.unrequested ∧ index ∉ uses.requested ∧ start.Held index o) := by
  rcases get?_eq_some_iff.mp hget with ⟨hindex, hslot⟩
  rcases h.slot index o hslot with hblank | ⟨hrequested, hheld⟩
  · exact Or.inl hblank
  · rcases h.counted index hindex with hasked | hunrequested
    · exact absurd hasked hrequested
    · exact Or.inr ⟨hunrequested, hrequested, hheld⟩

end Traced
end OperandTable

/-!
# Sequences that write nothing
-/

namespace Instruction

inductive Unwritten (start : Instruction) : Uses → Instruction → Prop where
  | clear : Unwritten start {} start.clear
  | perform {uses : Uses} {i : Instruction} {operation : Operation} (h : Unwritten start uses i)
      (hwrites : operation.writesOperands = false) :
      Unwritten start (uses.enter i.operands operation (i.perform operation).1)
        (i.perform operation).2
  | dupe {uses : Uses} {i copy : Instruction} (h : Unwritten start uses i)
      (hdupe : i.dupe = .ok copy) : Unwritten start uses copy

/-- The operands that a reader of an instruction finds, each with its position: by the position, in
the list, through a reference, or in a copy. -/
inductive Shows : Instruction → Nat → Operand → Prop where
  | get? {i : Instruction} {index : Nat} {o : Operand} (hget : i.operands.get? index = some o) :
      Shows i index o
  | toList {i : Instruction} {index : Nat} {o : Operand}
      (hlist : i.operands.toList[index]? = some o) : Shows i index o
  | referent {i : Instruction} {role : Role} {ref : OperandRef} {o : Operand}
      (href : i.reference? role = some ref) (hreferent : i.referent? role = some o) :
      Shows i ref.index o
  | dupe {i copy : Instruction} {index : Nat} {o : Operand} (hdupe : i.dupe = .ok copy)
      (hshows : Shows copy index o) : Shows i index o

variable {start i : Instruction} {uses : Uses}

theorem WellFormed.traced_dupe {copy : Instruction} (h : i.WellFormed)
    {table : OperandTable} (htraced : table.Traced uses i.operands) (hdupe : i.dupe = .ok copy) :
    table.Traced uses copy.operands := by
  rcases h.operands_dupe hdupe with ⟨copies, _, hlength, _, htable⟩
  have hcount : copy.operands.count = i.operands.count := by
    rw [htable]
    exact hlength
  constructor
  · intro index p hp
    have hindex : index < i.operands.count := by
      rw [htable] at hp
      have hlt := (List.getElem?_eq_some_iff.mp hp).1
      rw [← hlength]
      simpa [OperandTable.full] using hlt
    rcases h.get?_dupe hdupe hindex with ⟨o, q, ho, hq, hget⟩
    rw [(OperandTable.get?_eq_some_iff.mp hget).2] at hp
    cases hp
    have hsame := Operand.contents_dupe hq
    rcases htraced.slot index o (OperandTable.get?_eq_some_iff.mp ho).2 with
      hblank | ⟨hrequested, old, hslot, hold⟩
    · exact Or.inl ((Operand.isBlank_eq_of_contents hsame).trans hblank)
    · exact Or.inr ⟨hrequested, old, hslot, hsame.trans hold⟩
  · rw [hcount]
    exact htraced.counted

theorem Unwritten.reachable (h : Unwritten start uses i) (hstart : Reachable start) :
    Reachable i := by
  induction h with
  | clear => exact hstart.perform .clear
  | perform _ _ ih => exact ih.perform _
  | dupe _ hdupe ih => exact ih.dupe hdupe

theorem Unwritten.run (h : Unwritten start uses i) {operations : List Operation}
    (hwrites : ∀ operation ∈ operations, operation.writesOperands = false) :
    Unwritten start
      (i.accumulate (fun j operation response uses => uses.enter j.operands operation response)
        uses operations) (i.run operations).2 := by
  refine accumulate_invariant (P := fun j before => Unwritten start before j) ?_ h
  intro j before operation hmem hbefore
  exact hbefore.perform (hwrites operation hmem)

theorem Unwritten.traced (h : Unwritten start uses i) (hstart : Reachable start) :
    start.operands.Traced uses i.operands := by
  induction h with
  | clear => exact OperandTable.traced_clear start.operands
  | @perform uses i operation _ hwrites ih =>
      exact ih.exchange (exchange_perform i operation) hwrites
  | dupe hbefore hdupe ih =>
      exact (hbefore.reachable hstart).wellFormed.traced_dupe ih hdupe

/-- What an instruction shows after it was cleared, while nothing is written into its operands, is
blank, unless it lies in a slot that was counted and never requested. There it is what the slot held
when the instruction was cleared. -/
theorem shown_of_unwritten (hstart : Reachable start) (h : Unwritten start uses i) {index : Nat}
    {o : Operand} (hshows : Shows i index o) :
    o.isBlank = true ∨
      (index ∈ uses.unrequested ∧ index ∉ uses.requested ∧ start.operands.Held index o) := by
  induction hshows with
  | get? hget => exact (h.traced hstart).found hget
  | toList hlist =>
      rw [(h.reachable hstart).wellFormed.operands.packed.getElem?_toList] at hlist
      exact (h.traced hstart).found hlist
  | referent href hreferent =>
      have hget := (Option.filter_eq_some_iff.mp href).1
      rw [referent?, hget] at hreferent
      exact (h.traced hstart).found hreferent
  | dupe hdupe _ ih => exact ih (h.dupe hdupe)

/-- Of two operands that are left in a buffer, one is requested and both are counted. The other one
shows in a copy as well. -/
theorem shown_in_copy_of_buffer :
    let start := ((blank ⟨8, 4, 2, 8⟩).run
      [.nextOperand [.setText "eax", .setDataSize 4], .commitNext,
        .nextOperand [.setText "ebx", .setDataSize 4], .commitNext]).2
    let operations : List Operation :=
      [.clear, .nextOperand [], .commitNext, .commitNext, .setReference .source ⟨1⟩]
    let i := (start.clear.run operations).2
    ∃ copy o p, i.dupe = .ok copy ∧ Shows copy 0 o ∧ o.isBlank = true ∧
      copy.referent? .source = some p ∧ p.isBlank = false ∧ start.operands.Held 1 p := by
  intro start operations i
  have hstart : Reachable start := (Reachable.ofLayout (l := ⟨8, 4, 2, 8⟩) rfl).run _
  have hwrites : ∀ operation ∈ operations, operation.writesOperands = false := by decide
  have hi : Unwritten start ⟨[0], [1]⟩ i := Unwritten.clear.run hwrites
  have hdupe : ∃ copy, i.dupe = .ok copy ∧ copy.operands.get? 0 = some {} ∧
      copy.reference? .source = some ⟨1⟩ ∧
      copy.referent? .source = some { text := .growable ⟨"ebx", 3⟩, dataSize := 4 } :=
    ⟨_, rfl, by decide, by decide, by decide⟩
  rcases hdupe with ⟨copy, hdupe, hfirst, href, hreferent⟩
  have hcopy := hi.dupe hdupe
  refine ⟨copy, _, _, hdupe, .get? hfirst, ?_, hreferent, by decide, ?_⟩
  · rcases shown_of_unwritten hstart hcopy (.get? hfirst) with hblank | ⟨hunrequested, _⟩
    · exact hblank
    · exact absurd hunrequested (by decide)
  · rcases shown_of_unwritten hstart hcopy (.referent href hreferent) with hblank | ⟨_, _, hheld⟩
    · exact absurd hblank (by decide)
    · exact hheld

/-- An operand that is left in a slot shows when the slot is counted right after clearing. -/
theorem stale_operand_shown :
    ¬ ∀ (start : Instruction) (uses : Uses) (i : Instruction) (index : Nat) (o : Operand),
        Reachable start → Unwritten start uses i → Shows i index o → o.isBlank = true := by
  intro hall
  let old : Operand := { text := .growable ⟨"eax", 3⟩ }
  let start := (empty.perform (.addOperand old)).2
  have hreachable : Reachable start := .perform _ .empty
  have hwrites : ∀ operation ∈ [Operation.commitNext], operation.writesOperands = false := by decide
  have hcommitted : Unwritten start ⟨[], [0]⟩ (start.clear.run [.commitNext]).2 :=
    Unwritten.clear.run hwrites
  have hblank := hall start _ _ 0 old hreachable hcommitted (.get? rfl)
  exact absurd hblank (by decide)

end Instruction
end Disassembly
