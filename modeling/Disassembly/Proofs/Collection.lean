import Disassembly.Proofs.Copy
import Disassembly.Proofs.Decoding
import Disassembly.Proofs.History

/-!
# The operands as a list

Operands enter an instruction when one is added from outside, or when the one that waits
in the next free slot is committed where it is. Slots keep operands that have been given
up, and are never given up themselves. To a reader the operands are a list that starts
anew with each clearing, and to which each entry is appended.
-/

namespace Disassembly

open Instruction

namespace OperandTable

/-!
# Entries
-/

def enter (t : OperandTable) : Operation → Response → List Operand → List Operand
  | .addOperand o, .placed _, entries => entries ++ [o]
  | .commitNext, .placed _, entries => entries ++ t.waiting?.toList
  | .editOperand index edits, _, entries => entries.modify index fun o => (o.editAll edits).2
  | .clear, _, _ => []
  | _, _, entries => entries

def roomAfter (t : OperandTable) : Operation → Response → Nat
  | .addOperand _, .placed _ =>
      if t.count = t.slots.length then t.slots.length + 1 else t.slots.length
  | _, _ => t.slots.length

variable {t u : OperandTable} {operation : Operation} {response : Response}

theorem Pushed.toList_eq {o : Operand} (h : Pushed t o u) : u.toList = t.toList ++ [o] := by
  have hfront : u.slots.take t.count = t.slots.take t.count := by
    apply List.ext_getElem?
    intro index
    rw [List.getElem?_take, List.getElem?_take]
    by_cases hindex : index < t.count
    · rw [if_pos hindex, if_pos hindex, h.getElem?, if_neg (Nat.ne_of_lt hindex)]
    · rw [if_neg hindex, if_neg hindex]
  have hlast : u.slots[t.count]? = some (some o) := by
    rw [h.getElem?, if_pos rfl]
  rw [toList, h.count, List.take_add_one, hfront, hlast, List.filterMap_append]
  rfl

theorem pushed_of_commit (hcommit : t.commit? = some u) :
    ∃ o, t.waiting? = some o ∧ Pushed t o u := by
  rcases commit_eq_some_iff.mp hcommit with ⟨o, hwaiting, rfl⟩
  refine ⟨o, hwaiting, rfl, ?_, id⟩
  intro index
  by_cases hlast : index = t.count
  · rw [if_pos hlast, hlast]
    exact waiting?_eq_some_iff.mp hwaiting
  · rw [if_neg hlast]

theorem toList_place_count (t : OperandTable) (o : Operand) :
    (t.place t.count o).toList = t.toList := by
  rw [toList, toList, count_place, place, List.take_set_of_le (Nat.le_refl t.count)]

theorem Packed.toList_place (h : t.Packed) {index : Nat} {o : Operand} (f : Operand → Operand)
    (hget : t.get? index = some o) : (t.place index (f o)).toList = t.toList.modify index f := by
  apply List.ext_getElem?
  intro other
  rw [(h.place index (f o)).getElem?_toList, List.getElem?_modify, h.getElem?_toList]
  by_cases hsame : index = other
  · subst hsame
    simp [hget, get?_place_self hget]
  · simp [hsame, get?_place_of_ne (Ne.symm hsame)]

theorem Packed.length_toList_le (h : t.Packed) {index : Nat} (hget : t.get? index = none) :
    t.toList.length ≤ index := by
  rw [← List.getElem?_eq_none_iff, h.getElem?_toList]
  exact hget

theorem enter_of_aside (haside : operation.concernsOperands = false) (entries : List Operand) :
    t.enter operation response entries = entries := by
  cases operation with
  | addOperand o => cases haside
  | commitNext => cases haside
  | editOperand index edits => cases haside
  | clear => cases haside
  | _ => rfl

theorem toList_exchange (h : t.Packed) (hexchange : Exchange t operation response u) :
    u.toList = t.enter operation response t.toList := by
  cases hexchange with
  | push hpush => exact (pushed_of_push h hpush).toList_eq
  | handOut hwaiting => exact toList_place_count t _
  | commit hcommit =>
      rcases pushed_of_commit hcommit with ⟨o, hwaiting, hpushed⟩
      rw [enter, hwaiting]
      exact hpushed.toList_eq
  | @edit index edits o hget => exact h.toList_place (fun o => (o.editAll edits).2) hget
  | noEdit hget => exact (List.modify_eq_self (h.length_toList_le hget)).symm
  | clear => exact toList_clear t
  | aside haside hplaced => exact (enter_of_aside haside t.toList).symm
  | _ => rfl

/-!
# Room
-/

theorem length_push {o : Operand} (hpush : t.push? o = some u) (h : t.Packed) :
    u.slots.length = if t.count = t.slots.length then t.slots.length + 1 else t.slots.length := by
  rcases push_cases hpush with ⟨hfree, rfl⟩ | ⟨hfull, _, rfl⟩
  · rw [if_neg (Nat.ne_of_lt hfree)]
    exact length_place t t.count o
  · rw [if_pos (Nat.le_antisymm h.count_le hfull)]
    exact List.length_append

theorem length_exchange (h : t.Packed) (hexchange : Exchange t operation response u) :
    u.slots.length = t.roomAfter operation response := by
  cases hexchange with
  | push hpush => exact length_push hpush h
  | handOut hwaiting => exact length_place t t.count _
  | commit hcommit => exact congrArg List.length (count_commit hcommit).2
  | edit hget => exact length_place t _ _
  | aside haside hplaced =>
      cases operation with
      | addOperand o => cases haside
      | _ => rfl
  | _ => rfl

theorem max_of_length_eq (hlength : u.slots.length = t.slots.length) (hafter : u.Packed) :
    u.slots.length = max t.slots.length u.count := by
  rw [← hlength]
  exact (Nat.max_eq_left hafter.count_le).symm

theorem length_eq_max (h : t.Packed) (hafter : u.Packed)
    (hexchange : Exchange t operation response u) :
    u.slots.length = max t.slots.length u.count := by
  have hlength := length_exchange h hexchange
  cases hexchange with
  | push hpush =>
      -- a slot is made exactly when the count reaches beyond the slots
      have hle := h.count_le
      have hcount := count_push hpush
      rw [roomAfter] at hlength
      split at hlength
      · omega
      · omega
  | aside haside hplaced => exact max_of_length_eq rfl hafter
  | _ => exact max_of_length_eq hlength hafter

end OperandTable

namespace Instruction

variable {t u : OperandTable} {operation : Operation} {response : Response}

namespace Exchange

theorem placed {ref : OperandRef} (h : Exchange t operation (.placed ref) u) :
    ref.index = t.count ∧
      ∃ o, ∀ entries, t.enter operation (.placed ref) entries = entries ++ [o] := by
  cases h with
  | @push o _ hpush => exact ⟨rfl, o, fun entries => rfl⟩
  | commit hcommit =>
      rcases OperandTable.pushed_of_commit hcommit with ⟨o, hwaiting, _⟩
      refine ⟨rfl, o, ?_⟩
      intro entries
      rw [OperandTable.enter, hwaiting]
      rfl
  | aside haside hplaced => exact absurd rfl (hplaced ref)

theorem added {o : Operand} (h : Exchange t (.addOperand o) response u)
    (hroom : t.count < t.slots.length ∨ t.slots.length + 1 < Storage.limit) :
    response = .placed ⟨t.count⟩ := by
  cases h with
  | push hpush => rfl
  | noStorage hpush =>
      rcases OperandTable.limit_le_of_push_eq_none hpush with ⟨hfull, hlimit⟩
      omega
  | aside haside hplaced => cases haside

theorem committed {o : Operand} (h : Exchange t .commitNext response u)
    (hwaiting : t.waiting? = some o) : response = .placed ⟨t.count⟩ := by
  cases h with
  | commit hcommit => rfl
  | noCommit hcommit =>
      rw [OperandTable.commit_eq_some_iff.mpr ⟨o, hwaiting, rfl⟩] at hcommit
      cases hcommit
  | aside haside hplaced => cases haside

end Exchange

/-!
# Instructions and their entries
-/

inductive Starts : Instruction → List Operand → Prop where
  | withSlots {n : Nat} {i : Instruction} : withSlots n = .ok i → Starts i []
  | ofLayout {l : Layout} {i : Instruction} : ofLayout l = .ok i → Starts i []
  | dupe {source copy : Instruction} {copies : List Operand} : Reachable source →
      source.dupe = .ok copy → source.operands.toList.map Operand.dupe = copies.map .ok →
      Starts copy copies

def entries (i : Instruction) : List Operand → List Operation → List Operand :=
  i.accumulate fun j => j.operands.enter

def largestCount (i : Instruction) : List Operation → Nat :=
  i.accumulate (fun j operation _ largest =>
    max largest (j.perform operation).2.operands.count) i.operands.count

/-- The operands are these entries. The next one is placed behind them, and a slot is made only
for one that is added when no slot is free. -/
structure AppendOnly (i : Instruction) (entries : List Operand) : Prop where
  toList_eq : i.operands.toList = entries
  count_eq : i.operands.count = entries.length
  placed : ∀ operation ref, (i.perform operation).1 = .placed ref →
    ref.index = entries.length ∧
      ∃ o, i.operands.enter operation (.placed ref) entries = entries ++ [o]
  added : ∀ o, i.operands.count < i.operands.slots.length ∨
      i.operands.slots.length + 1 < Storage.limit →
    (i.perform (.addOperand o)).1 = .placed ⟨entries.length⟩
  committed : ∀ o, i.operands.waiting? = some o →
    (i.perform .commitNext).1 = .placed ⟨entries.length⟩
  room : ∀ operation, (i.perform operation).2.operands.slots.length =
    i.operands.roomAfter operation (i.perform operation).1

theorem Starts.reachable {i : Instruction} {start : List Operand} (h : Starts i start) :
    Reachable i := by
  cases h with
  | withSlots hmake => exact .withSlots hmake
  | ofLayout hmake => exact .ofLayout hmake
  | dupe hsource hdupe _ => exact .dupe hsource hdupe

theorem Starts.toList_eq {i : Instruction} {start : List Operand} (h : Starts i start) :
    i.operands.toList = start := by
  cases h with
  | withSlots hmake =>
      rcases withSlots_eq_ok hmake with ⟨rfl, _⟩
      rfl
  | ofLayout hmake =>
      rw [ofLayout_eq_ok hmake]
      rfl
  | dupe hsource hdupe hcopies =>
      rcases hsource.wellFormed.operands_dupe hdupe with ⟨copies, hmap, _, _, htable⟩
      rw [htable, OperandTable.toList_full]
      rw [hmap] at hcopies
      exact (List.map_inj_right fun _ _ => Except.ok.inj).mp hcopies

/-!
# Runs
-/

theorem toList_run {i : Instruction} {start : List Operand} (hi : i.WellFormed)
    (hstart : i.operands.toList = start) (operations : List Operation) :
    (i.run operations).2.operands.toList = i.entries start operations := by
  -- an empty slot among the counted ones would make entries and operands part
  refine (accumulate_invariant (P := fun j entries =>
    j.WellFormed ∧ j.operands.toList = entries) ?_ ⟨hi, hstart⟩).2
  intro j entries operation _ ⟨hj, hentries⟩
  refine ⟨hj.perform operation, ?_⟩
  rw [← hentries]
  exact OperandTable.toList_exchange hj.operands.packed (exchange_perform j operation)

theorem length_slots_run {i : Instruction} (hi : i.WellFormed) (operations : List Operation) :
    (i.run operations).2.operands.slots.length =
      max i.operands.slots.length (i.largestCount operations) := by
  have hfirst : i.operands.slots.length = max i.operands.slots.length i.operands.count :=
    (Nat.max_eq_left hi.operands.packed.count_le).symm
  refine (accumulate_invariant (P := fun j largest => j.WellFormed ∧
    j.operands.slots.length = max i.operands.slots.length largest) ?_ ⟨hi, hfirst⟩).2
  intro j largest operation _ ⟨hj, hlargest⟩
  have hafter := hj.perform operation
  refine ⟨hafter, ?_⟩
  rw [OperandTable.length_eq_max hj.operands.packed hafter.operands.packed
    (exchange_perform j operation), hlargest, Nat.max_assoc]

theorem WellFormed.appendOnly {i : Instruction} (h : i.WellFormed) {entries : List Operand}
    (hentries : i.operands.toList = entries) : AppendOnly i entries := by
  have hcount : i.operands.count = entries.length := by
    rw [← hentries]
    exact h.operands.packed.length_toList.symm
  refine ⟨hentries, hcount, ?_, ?_, ?_, ?_⟩
  · intro operation ref hplaced
    have hexchange := exchange_perform i operation
    rw [hplaced] at hexchange
    rcases hexchange.placed with ⟨hindex, o, henter⟩
    exact ⟨hindex.trans hcount, o, henter entries⟩
  · intro o hroom
    rw [← hcount]
    exact (exchange_perform i (.addOperand o)).added hroom
  · intro o hwaiting
    rw [← hcount]
    exact (exchange_perform i .commitNext).committed hwaiting
  · intro operation
    exact OperandTable.length_exchange h.operands.packed (exchange_perform i operation)

/-- After every run on a new instruction or a copy, the operands are the entries of the run in their
order, and there are as many slots as at the start or as operands were ever counted. -/
theorem appendOnly_of_starts {i : Instruction} {start : List Operand} (h : Starts i start)
    (operations : List Operation) :
    let later := (i.run operations).2
    AppendOnly later (i.entries start operations) ∧
      later.operands.slots.length =
        max i.operands.slots.length (i.largestCount operations) := by
  intro later
  have hi := h.reachable.wellFormed
  have hlater : later.WellFormed := (h.reachable.run operations).wellFormed
  exact ⟨hlater.appendOnly (toList_run hi h.toList_eq operations),
    length_slots_run hi operations⟩

/-- A buffer whose only slot is committed again as it was left, before other operands are added. -/
theorem appendOnly_of_stale_slot :
    let i := blank ⟨8, 4, 1, 8⟩
    let operations : List Operation :=
      [.nextOperand [.setText "eax"], .commitNext, .addOperand .empty, .clear, .commitNext,
        .editOperand 0 [.setDataSize 4], .addOperand .empty, .addOperand .empty]
    Starts i [] ∧
      AppendOnly (i.run operations).2
        [⟨.bounded ⟨"eax", 8⟩, .empty, .none, 4⟩, .empty, .empty] ∧
      (i.run operations).2.operands.slots.length = 3 := by
  intro i operations
  have hstart : Starts i [] := .ofLayout (l := ⟨8, 4, 1, 8⟩) rfl
  have hentries : i.entries [] operations =
      [⟨.bounded ⟨"eax", 8⟩, .empty, .none, 4⟩, .empty, .empty] := by
    decide +kernel
  have hslots : max i.operands.slots.length (i.largestCount operations) = 3 := by decide
  rcases appendOnly_of_starts hstart operations with ⟨happend, hroom⟩
  rw [hentries] at happend
  rw [hslots] at hroom
  exact ⟨hstart, happend, hroom⟩

end Instruction
end Disassembly
