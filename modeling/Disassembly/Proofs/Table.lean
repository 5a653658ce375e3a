import Disassembly.Instruction.Run

/-!
# Packed tables of operands

A table is packed when every counted slot holds an operand. Then the list of operands,
the look-up by index and the count tell the same.
-/

namespace Disassembly
namespace OperandTable

open Instruction

def Packed (t : OperandTable) : Prop :=
  ∀ index, index < t.count → ∃ o, t.slots[index]? = some (some o)

theorem Packed.count_le {t : OperandTable} (h : t.Packed) : t.count ≤ t.slots.length := by
  cases hcount : t.count with
  | zero => exact Nat.zero_le _
  | succ last =>
      rcases h last (by omega) with ⟨o, hslot⟩
      rcases List.getElem?_eq_some_iff.mp hslot with ⟨hlast, _⟩
      exact hlast

theorem map_some_filterMap {slots : List (Option Operand)}
    (h : ∀ slot, slot ∈ slots → slot ≠ none) : (slots.filterMap id).map some = slots := by
  induction slots with
  | nil => rfl
  | cons slot rest ih =>
      have hrest := ih fun later hlater => h later (List.mem_cons_of_mem slot hlater)
      cases slot with
      | none => exact absurd rfl (h none List.mem_cons_self)
      | some o => simpa using hrest

theorem Packed.map_some_toList {t : OperandTable} (h : t.Packed) :
    t.toList.map some = t.slots.take t.count := by
  apply map_some_filterMap
  intro slot hslot hnone
  rcases List.mem_iff_getElem?.mp hslot with ⟨index, hindex⟩
  rw [List.getElem?_take] at hindex
  split at hindex
  · rename_i hcounted
    rcases h index hcounted with ⟨o, ho⟩
    rw [ho, hnone] at hindex
    cases hindex
  · cases hindex

theorem Packed.length_toList {t : OperandTable} (h : t.Packed) :
    t.toList.length = t.count := by
  have hlength := congrArg List.length h.map_some_toList
  rw [List.length_map, List.length_take] at hlength
  have hle := h.count_le
  omega

theorem Packed.getElem?_toList {t : OperandTable} (h : t.Packed) (index : Nat) :
    t.toList[index]? = t.get? index := by
  have hslot := congrArg (fun slots => slots[index]?.join) h.map_some_toList
  simp only [List.getElem?_map, List.getElem?_take] at hslot
  have hjoin : (t.toList[index]?.map some).join = t.toList[index]? := by
    cases t.toList[index]? <;> rfl
  rw [hjoin] at hslot
  rw [hslot, get?]
  by_cases hcounted : index < t.count
  · simp [hcounted]
  · simp [hcounted]

theorem Packed.isSome_get?_iff {t : OperandTable} (h : t.Packed) (index : Nat) :
    (t.get? index).isSome ↔ index < t.count := by
  unfold get?
  by_cases hcounted : index < t.count
  · rcases h index hcounted with ⟨o, ho⟩
    simp [hcounted, ho]
  · simp [hcounted]

theorem get?_eq_some_iff {t : OperandTable} {index : Nat} {o : Operand} :
    t.get? index = some o ↔ index < t.count ∧ t.slots[index]? = some (some o) := by
  unfold get?
  by_cases hcounted : index < t.count
  · simp [hcounted, Option.join_eq_some_iff]
  · simp [hcounted]

theorem waiting?_eq_some_iff {t : OperandTable} {o : Operand} :
    t.waiting? = some o ↔ t.slots[t.count]? = some (some o) :=
  Option.join_eq_some_iff

/-!
# Tables with one more operand
-/

/-- An operand is added in the next free slot, or in a new one when no slot is free. -/
theorem push_cases {t u : OperandTable} {o : Operand} (hpush : t.push? o = some u) :
    (t.count < t.slots.length ∧ u = { t.place t.count o with count := t.count + 1 }) ∨
    (t.slots.length ≤ t.count ∧ t.slots.length + 1 < Storage.limit ∧
      u = ⟨t.slots ++ [some o], t.count + 1⟩) := by
  unfold push? at hpush
  split at hpush
  · rename_i hfree
    exact Or.inl ⟨hfree, (Option.some.inj hpush).symm⟩
  · rename_i hfull
    split at hpush
    · rename_i hroom
      exact Or.inr ⟨Nat.le_of_not_lt hfull, hroom, (Option.some.inj hpush).symm⟩
    · cases hpush

theorem commit_eq_some_iff {t u : OperandTable} :
    t.commit? = some u ↔ ∃ o, t.waiting? = some o ∧ u = { t with count := t.count + 1 } := by
  unfold commit?
  cases t.waiting? with
  | none => simp
  | some o => simp [eq_comm]

/-!
# Slots after a change
-/

theorem getElem?_place (t : OperandTable) (index other : Nat) (o : Operand) :
    (t.place index o).slots[other]? =
      if other = index ∧ index < t.slots.length then some (some o) else t.slots[other]? := by
  simp only [place, List.getElem?_set]
  by_cases hsame : index = other
  · subst hsame
    by_cases hlt : index < t.slots.length
    · simp [hlt]
    · simp [hlt]
  · simp [hsame, Ne.symm hsame]

theorem getElem?_place_self {t : OperandTable} {index : Nat} {slot : Option Operand}
    (h : t.slots[index]? = some slot) (o : Operand) :
    (t.place index o).slots[index]? = some (some o) := by
  rcases List.getElem?_eq_some_iff.mp h with ⟨hlt, _⟩
  rw [getElem?_place, if_pos ⟨rfl, hlt⟩]

theorem getElem?_place_of_ne {t : OperandTable} {index other : Nat} (h : other ≠ index)
    (o : Operand) : (t.place index o).slots[other]? = t.slots[other]? := by
  simp [getElem?_place, h]

theorem get?_place_self {t : OperandTable} {index : Nat} {o : Operand}
    (h : t.get? index = some o) (p : Operand) : (t.place index p).get? index = some p := by
  rcases get?_eq_some_iff.mp h with ⟨hindex, hslot⟩
  exact get?_eq_some_iff.mpr ⟨hindex, getElem?_place_self hslot p⟩

theorem get?_place_of_ne {t : OperandTable} {index other : Nat} (h : other ≠ index)
    (o : Operand) : (t.place index o).get? other = t.get? other := by
  rw [get?, get?, count_place, getElem?_place_of_ne h]

theorem Packed.getElem?_push {t u : OperandTable} {o : Operand} (h : t.Packed)
    (hpush : t.push? o = some u) (index : Nat) :
    u.slots[index]? = if index = t.count then some (some o) else t.slots[index]? := by
  have hle := h.count_le
  rcases push_cases hpush with ⟨hfree, rfl⟩ | ⟨hfull, _, rfl⟩
  · simp [getElem?_place, hfree]
  · have hcount : t.slots.length = t.count := Nat.le_antisymm hfull hle
    by_cases hbelow : index < t.slots.length
    · have hne : index ≠ t.count := by omega
      simp [List.getElem?_append_left hbelow, hne]
    · rw [List.getElem?_append_right (by omega)]
      by_cases hlast : index = t.count
      · simp [hlast, hcount]
      · have hpast : index - t.slots.length = index - t.slots.length - 1 + 1 := by omega
        rw [hpast, if_neg hlast, List.getElem?_eq_none (by omega : t.slots.length ≤ index)]
        simp

structure Sound (t : OperandTable) : Prop where
  packed : t.Packed
  length_lt : t.slots.length < Storage.limit

theorem packed_of_count_eq_zero {t : OperandTable} (h : t.count = 0) : t.Packed := by
  intro index hindex
  omega

/-!
# Operations
-/

def afterOperation (t : OperandTable) : Operation → OperandTable
  | .addOperand o => (t.push? o).getD t
  | .nextOperand edits =>
      match t.waiting? with
      | some o => t.place t.count (o.clear.editAll edits).2
      | none => t
  | .commitNext => t.commit?.getD t
  | .editOperand index edits =>
      match t.get? index with
      | some o => t.place index (o.editAll edits).2
      | none => t
  | .clear => t.clear
  | _ => t

theorem place_place (t : OperandTable) (index : Nat) (o p : Operand) :
    (t.place index o).place index p = t.place index p := by
  simp [place]

theorem Packed.place {t : OperandTable} (h : t.Packed) (index : Nat) (o : Operand) :
    (t.place index o).Packed := by
  intro other hother
  rcases h other hother with ⟨p, hp⟩
  by_cases hsame : other = index
  · subst hsame
    exact ⟨o, getElem?_place_self hp o⟩
  · exact ⟨p, by rw [getElem?_place_of_ne hsame, hp]⟩

theorem Packed.push {t u : OperandTable} {o : Operand} (h : t.Packed)
    (hpush : t.push? o = some u) : u.Packed := by
  intro index hindex
  rw [h.getElem?_push hpush]
  by_cases hlast : index = t.count
  · exact ⟨o, by simp [hlast]⟩
  · rw [if_neg hlast]
    rw [count_push hpush] at hindex
    exact h index (by omega)

theorem Packed.commit {t u : OperandTable} (h : t.Packed) (hcommit : t.commit? = some u) :
    u.Packed := by
  rcases commit_eq_some_iff.mp hcommit with ⟨o, hwaiting, rfl⟩
  intro index hindex
  by_cases hlast : index = t.count
  · subst hlast
    exact ⟨o, waiting?_eq_some_iff.mp hwaiting⟩
  · exact h index (Nat.lt_of_le_of_ne (Nat.le_of_lt_succ hindex) hlast)

theorem length_push_lt {t u : OperandTable} {o : Operand} (h : t.slots.length < Storage.limit)
    (hpush : t.push? o = some u) : u.slots.length < Storage.limit := by
  rcases push_cases hpush with ⟨_, rfl⟩ | ⟨_, hroom, rfl⟩
  · simpa using h
  · simpa using hroom

theorem Sound.afterOperation {t : OperandTable} (h : t.Sound) (operation : Operation) :
    (t.afterOperation operation).Sound := by
  cases operation with
  | addOperand o =>
      simp only [OperandTable.afterOperation]
      cases hpush : t.push? o with
      | none => exact h
      | some u => exact ⟨h.packed.push hpush, length_push_lt h.length_lt hpush⟩
  | nextOperand edits =>
      simp only [OperandTable.afterOperation]
      cases t.waiting? with
      | none => exact h
      | some o => exact ⟨h.packed.place _ _, by simpa using h.length_lt⟩
  | commitNext =>
      simp only [OperandTable.afterOperation]
      cases hcommit : t.commit? with
      | none => exact h
      | some u =>
          refine ⟨h.packed.commit hcommit, ?_⟩
          rw [Option.getD_some, (count_commit hcommit).2]
          exact h.length_lt
  | editOperand index edits =>
      simp only [OperandTable.afterOperation]
      cases t.get? index with
      | none => exact h
      | some o => exact ⟨h.packed.place _ _, by simpa using h.length_lt⟩
  | clear => exact ⟨packed_of_count_eq_zero rfl, h.length_lt⟩
  | _ => exact h

end OperandTable
end Disassembly
