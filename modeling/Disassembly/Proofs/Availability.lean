import Disassembly.Proofs.Collection
import Disassembly.Proofs.Regime

/-!
# When an operand waits to be reused

A request for the next operand is granted when an operand waits in the next free slot,
and so is a commit. In a fixed instruction every slot holds an operand. In a growable
one the slots that hold an operand are the first ones, as many as operands were ever
counted at once.
-/

namespace Disassembly

open Instruction

namespace OperandTable

variable {mark : Nat} {t u : OperandTable}

/-!
# Slots that hold an operand
-/

def Filled (mark : Nat) (t : OperandTable) : Prop :=
  ∀ index, (∃ o, t.slots[index]? = some (some o)) ↔ index < mark

theorem isSome_waiting?_iff :
    t.waiting?.isSome ↔ ∃ o, t.slots[t.count]? = some (some o) := by
  simp only [Option.isSome_iff_exists, waiting?_eq_some_iff]

theorem count_lt_length (h : t.waiting?.isSome) : t.count < t.slots.length := by
  rcases isSome_waiting?_iff.mp h with ⟨o, hslot⟩
  exact (List.getElem?_eq_some_iff.mp hslot).1

theorem Occupied.isSome_waiting?_iff (h : t.Occupied) :
    t.waiting?.isSome ↔ t.count < t.slots.length := by
  refine ⟨count_lt_length, ?_⟩
  intro hfree
  rcases h t.slots[t.count] (List.getElem_mem hfree) with ⟨o, ho⟩
  exact OperandTable.isSome_waiting?_iff.mpr ⟨o, List.getElem?_eq_some_iff.mpr ⟨hfree, ho⟩⟩

theorem Filled.isSome_waiting?_iff (h : t.Filled mark) :
    t.waiting?.isSome ↔ t.count < mark :=
  OperandTable.isSome_waiting?_iff.trans (h t.count)

theorem filled_replicate (n : Nat) : Filled 0 { slots := List.replicate n none } := by
  intro index
  constructor
  · rintro ⟨o, hslot⟩
    cases List.eq_of_mem_replicate (List.mem_of_getElem? hslot)
  · intro hindex
    exact absurd hindex (Nat.not_lt_zero index)

theorem filled_full (operands : List Operand) : (full operands).Filled operands.length := by
  intro index
  rw [full, List.getElem?_map]
  constructor
  · rintro ⟨o, hslot⟩
    rcases Option.map_eq_some_iff.mp hslot with ⟨p, hp, _⟩
    exact (List.getElem?_eq_some_iff.mp hp).1
  · intro hindex
    exact ⟨operands[index], by rw [List.getElem?_eq_getElem hindex, Option.map_some]⟩

theorem Filled.count_le (h : t.Filled mark) (hpacked : t.Packed) : t.count ≤ mark := by
  apply Nat.le_of_not_lt
  intro hlt
  exact Nat.lt_irrefl mark ((h mark).mp (hpacked mark hlt))

/-!
# Operations
-/

theorem Filled.place (h : t.Filled mark) {index : Nat} {o : Operand}
    (hslot : t.slots[index]? = some (some o)) (p : Operand) :
    (t.place index p).Filled mark := by
  intro other
  by_cases hsame : other = index
  · subst hsame
    rw [← h other, getElem?_place_self hslot p]
    exact ⟨fun _ => ⟨o, hslot⟩, fun _ => ⟨p, rfl⟩⟩
  · rw [getElem?_place_of_ne hsame]
    exact h other

theorem Filled.pushed (h : t.Filled mark) (hle : t.count ≤ mark) {o : Operand}
    (hpushed : Pushed t o u) : u.Filled (max mark u.count) := by
  intro index
  rw [hpushed.getElem?, hpushed.count]
  by_cases hlast : index = t.count
  · rw [if_pos hlast]
    exact ⟨fun _ => by omega, fun _ => ⟨o, rfl⟩⟩
  · rw [if_neg hlast, h index]
    omega

/-- The slot behind those that hold an operand is the only empty one that an operation fills, and it
does so when it counts more operands than ever before. -/
theorem Filled.exchange (h : t.Filled mark) (hpacked : t.Packed) {operation : Operation}
    {response : Response} (hexchange : Exchange t operation response u) :
    u.Filled (max mark u.count) := by
  have hle := h.count_le hpacked
  have hkept : max mark t.count = mark := Nat.max_eq_left hle
  cases hexchange with
  | push hpush => exact h.pushed hle (pushed_of_push hpacked hpush)
  | commit hcommit =>
      rcases pushed_of_commit hcommit with ⟨o, _, hpushed⟩
      exact h.pushed hle hpushed
  | handOut hwaiting =>
      rw [count_place, hkept]
      exact h.place (waiting?_eq_some_iff.mp hwaiting) _
  | edit hget =>
      rw [count_place, hkept]
      exact h.place (get?_eq_some_iff.mp hget).2 _
  | clear =>
      rw [show t.clear.count = 0 from rfl, Nat.max_zero]
      exact h
  | _ =>
      rw [hkept]
      exact h

theorem get?_place_count (t : OperandTable) (o : Operand) (index : Nat) :
    (t.place t.count o).get? index = t.get? index := by
  by_cases hindex : index = t.count
  · subst hindex
    simp [get?]
  · exact get?_place_of_ne hindex o

end OperandTable

namespace Instruction

variable {i after : Instruction} {o : Operand}

/-!
# The next free slot
-/

theorem nextOperand_of_waiting (h : i.operands.waiting? = some o) :
    i.nextOperand = (some o.clear, i.putNext o.clear) := by
  rw [nextOperand, h]
  rfl

theorem nextOperand_of_waiting_none (h : i.operands.waiting? = none) :
    i.nextOperand = (none, i) := by
  rw [nextOperand, h]

theorem isSome_nextOperand (i : Instruction) :
    i.nextOperand.1.isSome = i.operands.waiting?.isSome := by
  cases hwaiting : i.operands.waiting? with
  | none => rw [nextOperand_of_waiting_none hwaiting]
  | some o =>
      rw [nextOperand_of_waiting hwaiting]
      rfl

theorem isSome_commitNext (i : Instruction) :
    i.commitNext.1.isSome = i.operands.waiting?.isSome := by
  rw [commitNext, OperandTable.commit?]
  cases i.operands.waiting? with
  | none => rfl
  | some o => rfl

theorem observed_putNext (i : Instruction) (o : Operand) :
    (i.putNext o).view = i.view ∧ (i.putNext o).contents = i.contents ∧
      (i.putNext o).dupe = i.dupe := by
  have hlist := OperandTable.toList_place_count i.operands o
  have hget := OperandTable.get?_place_count i.operands o
  have hdisplay : (i.putNext o).display = i.display := by
    refine display_eq_of_texts rfl rfl rfl rfl ?_
    rw [putNext, hlist]
  refine ⟨?_, ?_, ?_⟩
  · have hdescription : (i.putNext o).description? = i.description? := by
      simp only [putNext, description?, displayParts, displayOperands, hlist]
      rfl
    have hslots := OperandTable.length_place i.operands i.operands.count o
    simp only [view, hdescription]
    simp only [putNext, referent?, hlist, hget, hslots]
    rfl
  · simp only [contents, hdisplay]
    simp only [putNext, referent?, hlist, hget]
    rfl
  · simp only [putNext, dupe, hlist]
    rfl

structure Gains (i : Instruction) (o : Operand) (after : Instruction) : Prop where
  get?_count : after.operands.get? i.operands.count = some o
  get?_of_lt : ∀ index, index < i.operands.count →
    after.operands.get? index = i.operands.get? index
  toList_eq : after.operands.toList = i.operands.toList ++ [o]
  count_eq : after.operands.count = i.operands.count + 1
  length_slots : after.operands.slots.length = i.operands.slots.length
  rest : after = { i with operands := after.operands }

theorem gains_of_pushed {u : OperandTable} (h : OperandTable.Pushed i.operands o u)
    (hslots : u.slots.length = i.operands.slots.length) : Gains i o { i with operands := u } where
  get?_count := by
    rw [OperandTable.get?_eq_some_iff, h.count, h.getElem?, if_pos rfl]
    exact ⟨Nat.lt_succ_self _, rfl⟩
  get?_of_lt := by
    intro index hindex
    rw [OperandTable.get?, OperandTable.get?, h.count, h.getElem?, if_neg (Nat.ne_of_lt hindex),
      if_pos (Nat.lt_succ_of_lt hindex), if_pos hindex]
  toList_eq := h.toList_eq
  count_eq := h.count
  length_slots := hslots
  rest := rfl

theorem commitNext_eq_some {ref : OperandRef} (h : i.commitNext = (some ref, after)) :
    ref = ⟨i.operands.count⟩ ∧ ∃ o, i.operands.waiting? = some o ∧ Gains i o after := by
  unfold commitNext at h
  cases hcommit : i.operands.commit? with
  | none =>
      rw [hcommit] at h
      cases h
  | some u =>
      rw [hcommit] at h
      cases h
      rcases OperandTable.pushed_of_commit hcommit with ⟨o, hwaiting, hpushed⟩
      have hslots := congrArg List.length (OperandTable.count_commit hcommit).2
      exact ⟨rfl, o, hwaiting, gains_of_pushed hpushed hslots⟩

theorem commitNext_putNext (h : i.operands.waiting? = some o) (p : Operand) :
    ∃ later, (i.putNext p).commitNext = (some ⟨i.operands.count⟩, later) ∧ Gains i p later := by
  rcases OperandTable.pushed_of_waiting h p with ⟨u, hcommit, hpushed⟩
  have hslots : u.slots.length = i.operands.slots.length := by
    rw [(OperandTable.count_commit hcommit).2]
    exact OperandTable.length_place _ _ _
  refine ⟨{ i with operands := u }, ?_, gains_of_pushed hpushed hslots⟩
  simp only [putNext, commitNext, hcommit]
  rfl

/-!
# Requests
-/

structure HandedOut (i : Instruction) (o : Operand) (after : Instruction) : Prop where
  isBlank : o.isBlank = true
  storage : ∃ waiting, i.operands.waiting? = some waiting ∧ o = waiting.clear ∧
    o.text = waiting.text.clear ∧ o.text.capacity? = waiting.text.capacity?
  waiting : after.operands.waiting? = some o
  view : after.view = i.view
  contents : after.contents = i.contents
  dupe : after.dupe = i.dupe
  committed : ∀ p, ∃ later,
    (after.putNext p).commitNext = (some ⟨i.operands.count⟩, later) ∧ Gains i p later

theorem handedOut_of_nextOperand (h : i.nextOperand = (some o, after)) : HandedOut i o after := by
  cases hwaiting : i.operands.waiting? with
  | none =>
      rw [nextOperand_of_waiting_none hwaiting] at h
      cases h
  | some waiting =>
      rw [nextOperand_of_waiting hwaiting] at h
      cases h
      rcases observed_putNext i waiting.clear with ⟨hview, hcontents, hdupe⟩
      exact
        { isBlank := Operand.isBlank_clear waiting
          storage := ⟨waiting, hwaiting, rfl, rfl, Operand.capacity?_text_clear waiting⟩
          waiting := OperandTable.waiting?_eq_some_iff.mpr
            (OperandTable.getElem?_place_self (OperandTable.waiting?_eq_some_iff.mp hwaiting) _)
          view := hview
          contents := hcontents
          dupe := hdupe
          committed := by
            intro p
            have hput : (i.putNext waiting.clear).putNext p = i.putNext p := by
              simp only [putNext, OperandTable.count_place, OperandTable.place_place]
            rw [hput]
            exact commitNext_putNext hwaiting p }

/-- What holds of the next free slot of an instruction that has counted at most `largest` operands
at once. -/
structure NextSlot (i : Instruction) (largest : Nat) : Prop where
  isSome_nextOperand_iff : i.nextOperand.1.isSome ↔ i.commitNext.1.isSome
  isSome_commitNext_iff : i.commitNext.1.isSome ↔
    i.operands.count < i.operands.slots.length ∧ (i.isFixed ∨ i.operands.count < largest)
  handedOut : ∀ o after, i.nextOperand = (some o, after) → HandedOut i o after
  notHandedOut : ∀ after, i.nextOperand = (none, after) → after = i
  committed : ∀ ref after, i.commitNext = (some ref, after) →
    ref = ⟨i.operands.count⟩ ∧ ∃ o, i.operands.waiting? = some o ∧ Gains i o after
  notCommitted : ∀ after, i.commitNext = (none, after) → after = i

theorem nextSlot_of_waiting {largest : Nat}
    (h : i.operands.waiting?.isSome ↔
      i.operands.count < i.operands.slots.length ∧ (i.isFixed ∨ i.operands.count < largest)) :
    NextSlot i largest where
  isSome_nextOperand_iff := by rw [isSome_nextOperand, isSome_commitNext]
  isSome_commitNext_iff := by rw [isSome_commitNext, h]
  handedOut := fun _ _ => handedOut_of_nextOperand
  notHandedOut := by
    intro after hnext
    cases hwaiting : i.operands.waiting? with
    | none =>
        rw [nextOperand_of_waiting_none hwaiting] at hnext
        cases hnext
        rfl
    | some o =>
        rw [nextOperand_of_waiting hwaiting] at hnext
        cases hnext
  committed := fun _ _ => commitNext_eq_some
  notCommitted := by
    intro after hnone
    unfold commitNext at hnone
    cases hcommit : i.operands.commit? with
    | none =>
        rw [hcommit] at hnone
        cases hnone
        rfl
    | some u =>
        rw [hcommit] at hnone
        cases hnone

/-!
# Runs
-/

theorem Starts.filled {start : List Operand} (h : Starts i start) (hlayout : i.layout = none) :
    i.operands.Filled i.operands.count := by
  cases h with
  | withSlots hmake =>
      rcases withSlots_eq_ok hmake with ⟨rfl, _⟩
      exact OperandTable.filled_replicate _
  | ofLayout hmake =>
      rw [ofLayout_eq_ok hmake] at hlayout
      cases hlayout
  | dupe hsource hdupe _ =>
      rcases hsource.wellFormed.operands_dupe hdupe with ⟨copies, _, _, _, htable⟩
      rw [htable]
      exact OperandTable.filled_full copies

theorem filled_run (hi : i.WellFormed) (h : i.operands.Filled i.operands.count)
    (operations : List Operation) :
    (i.run operations).2.operands.Filled (i.largestCount operations) := by
  refine (accumulate_invariant (P := fun j largest =>
    j.WellFormed ∧ j.operands.Filled largest) ?_ ⟨hi, h⟩).2
  intro j largest operation _ ⟨hj, hfilled⟩
  refine ⟨hj.perform operation, ?_⟩
  exact hfilled.exchange hj.operands.packed (exchange_perform j operation)

/-- Every instruction that can arise is what a run on a new instruction or on a copy leaves. -/
theorem Reachable.exists_run (h : Reachable i) :
    ∃ first start operations, Starts first start ∧ (first.run operations).2 = i := by
  induction h with
  | empty => exact ⟨_, [], [], .withSlots (n := 0) rfl, rfl⟩
  | withSlots hmake => exact ⟨_, [], [], .withSlots hmake, rfl⟩
  | ofLayout hmake => exact ⟨_, [], [], .ofLayout hmake, rfl⟩
  | dupe hsource hdupe _ =>
      rcases hsource.wellFormed.operands_dupe hdupe with ⟨copies, hmap, _⟩
      exact ⟨_, copies, [], .dupe hsource hdupe hmap, rfl⟩
  | perform operation _ ih =>
      rcases ih with ⟨first, start, operations, hstart, rfl⟩
      exact ⟨first, start, operations ++ [operation], hstart, by rw [run_concat]⟩

/-- After every run on a new instruction or a copy, the next operand is handed out exactly when it
can be committed: while there is a free slot, and the instruction is fixed or has counted more
operands before. It is blank, in the storage that it has, and nobody sees that it was handed out. A
commit counts what is in the slot and changes nothing else. -/
theorem nextSlot_of_starts {start : List Operand} (h : Starts i start)
    (operations : List Operation) :
    NextSlot (i.run operations).2 (i.largestCount operations) := by
  have hlater := h.reachable.run operations
  apply nextSlot_of_waiting
  cases hlayout : i.layout with
  | some l =>
      have hkept := (layout_run i operations).trans hlayout
      rw [((hlater.regime.fixed l hkept).occupied).isSome_waiting?_iff]
      simp [isFixed, hkept]
  | none =>
      have hkept := (layout_run i operations).trans hlayout
      have hfilled := filled_run h.reachable.wellFormed (h.filled hlayout) operations
      simp only [isFixed, hkept, Option.isSome_none, Bool.false_eq_true, false_or]
      refine ⟨?_, ?_⟩
      · intro hwaiting
        exact ⟨OperandTable.count_lt_length hwaiting, hfilled.isSome_waiting?_iff.mp hwaiting⟩
      · rintro ⟨_, hlt⟩
        exact hfilled.isSome_waiting?_iff.mpr hlt

/-- Of three slots two were filled before the instruction was cleared. The second of these is handed
out again, and the third is not. -/
theorem nextSlot_of_cleared_slots :
    let i : Instruction := { operands := { slots := List.replicate 3 none } }
    let filled : List Operation :=
      [.addOperand { text := .growable ⟨"eax", 3⟩ }, .addOperand { dataSize := 4 }, .clear,
        .commitNext]
    let committed := filled ++ [.commitNext]
    Starts i [] ∧ i.largestCount filled = 2 ∧ i.largestCount committed = 2 ∧
      (i.run filled).2.nextOperand.1.isSome ∧ (i.run committed).2.nextOperand.1 = none := by
  intro i filled committed
  have hstart : Starts i [] := .withSlots (n := 3) rfl
  have hfirst := nextSlot_of_starts hstart filled
  have hsecond := nextSlot_of_starts hstart committed
  refine ⟨hstart, by decide, by decide, ?_, ?_⟩
  · exact hfirst.isSome_nextOperand_iff.mpr (hfirst.isSome_commitNext_iff.mpr (by decide))
  · rw [← Option.not_isSome_iff_eq_none, hsecond.isSome_nextOperand_iff,
      hsecond.isSome_commitNext_iff]
    decide

end Instruction
end Disassembly
