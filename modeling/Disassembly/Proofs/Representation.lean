import Disassembly.Proofs.Construction
import Disassembly.Proofs.Step

/-!
# The representation of instructions

An instruction keeps the same facts in several places. `WellFormed` says how they belong
together, and `Consistent` collects what a reader may rely on. Both hold of every new
instruction, pass to copies, and are kept by every operation, granted or refused.
-/

namespace Disassembly

open TextField

namespace OperandTable

open Instruction

theorem count_le_afterOperation {operation : Operation} (h : operation ≠ .clear)
    (t : OperandTable) : t.count ≤ (t.afterOperation operation).count := by
  cases operation with
  | addOperand o =>
      simp only [afterOperation]
      cases hpush : t.push? o with
      | none => exact Nat.le_refl _
      | some u =>
          rw [Option.getD_some, count_push hpush]
          exact Nat.le_succ _
  | nextOperand edits =>
      simp only [afterOperation]
      cases t.waiting? with
      | none => exact Nat.le_refl _
      | some o => exact Nat.le_refl _
  | commitNext =>
      simp only [afterOperation]
      cases hcommit : t.commit? with
      | none => exact Nat.le_refl _
      | some u =>
          rw [Option.getD_some, (count_commit hcommit).1]
          exact Nat.le_succ _
  | editOperand index edits =>
      simp only [afterOperation]
      cases t.get? index with
      | none => exact Nat.le_refl _
      | some o => exact Nat.le_refl _
  | clear => exact absurd rfl h
  | _ => exact Nat.le_refl _

theorem sound_full {operands : List Operand} (h : operands.length < Storage.limit) :
    (full operands).Sound := by
  constructor
  · intro index hindex
    have hlt : index < operands.length := hindex
    exact ⟨operands[index], by simp [full, hlt]⟩
  · simpa [full] using h

end OperandTable

namespace References

def Within (r : References) (count : Nat) : Prop :=
  ∀ role ref, r.get role = some ref → ref.index < count

theorem within_none (count : Nat) : Within {} count := by
  intro role ref h
  cases role <;> cases h

theorem Within.mono {r : References} {count later : Nat} (h : r.Within count)
    (hle : count ≤ later) : r.Within later := by
  intro role ref href
  exact Nat.lt_of_lt_of_le (h role ref href) hle

theorem Within.set {r : References} {count : Nat} (h : r.Within count) {ref : OperandRef}
    (hlt : ref.index < count) (role : Role) : (r.set role (some ref)).Within count := by
  intro other found hfound
  by_cases hsame : other = role
  · subst hsame
    rw [get_set_self] at hfound
    cases hfound
    exact hlt
  · rw [get_set_of_ne hsame] at hfound
    exact h other found hfound

theorem within_filter (r : References) (count : Nat) :
    (r.filter fun ref => ref.index < count).Within count := by
  intro role ref h
  rw [get_filter, Option.filter_eq_some_iff] at h
  simpa using h.2

theorem Within.filter_eq {r : References} {count : Nat} (h : r.Within count) :
    (r.filter fun ref => ref.index < count) = r := by
  have hkept : ∀ role, (r.get role).filter (fun ref => ref.index < count) = r.get role := by
    intro role
    cases href : r.get role with
    | none => rfl
    | some ref => simp [Option.filter, h role ref href]
  rcases r with ⟨target, destination, source⟩
  have htarget : target.filter (fun ref => ref.index < count) = target := hkept .target
  have hdestination : destination.filter (fun ref => ref.index < count) = destination :=
    hkept .destination
  have hsource : source.filter (fun ref => ref.index < count) = source := hkept .source
  rw [filter, htarget, hdestination, hsource]

end References

namespace Instruction

/-!
# Well-formed instructions
-/

structure WellFormed (i : Instruction) : Prop where
  operands : i.operands.Sound
  references : i.references.Within i.operands.count
  text : i.text.Sound
  prefixes : i.prefixes.Sound
  mnemonic : i.mnemonic.Sound
  comment : i.comment.Sound
  prefixCount_le : i.prefixCount ≤ i.prefixes.content.utf8ByteSize

theorem wellFormed_withSlots {n : Nat} {i : Instruction} (h : withSlots n = .ok i) :
    i.WellFormed := by
  rcases withSlots_eq_ok h with ⟨rfl, hlimit⟩
  exact
    { operands := ⟨OperandTable.packed_of_count_eq_zero rfl, by simpa using hlimit⟩
      references := References.within_none _
      text := sound_none
      prefixes := sound_none
      mnemonic := sound_none
      comment := sound_none
      prefixCount_le := Nat.zero_le _ }

theorem wellFormed_ofLayout {l : Layout} {i : Instruction} (h : ofLayout l = .ok i) :
    i.WellFormed := by
  rcases ofLayout_parts h with ⟨htext, hprefixes, hmnemonic, hcomment, hlimit, htable, hmade⟩
  have hreferences : i.references = {} := by rw [hmade]
  have hcount : i.prefixCount = 0 := by rw [hmade]
  refine
    { operands := ?_
      references := ?_
      text := sound_withCapacity htext
      prefixes := sound_withCapacity hprefixes
      mnemonic := sound_withCapacity hmnemonic
      comment := sound_withCapacity hcomment
      prefixCount_le := ?_ }
  · rw [htable]
    exact ⟨OperandTable.packed_of_count_eq_zero rfl, by simpa using hlimit⟩
  · rw [hreferences]
    exact References.within_none _
  · rw [hcount]
    exact Nat.zero_le _

/-!
# Copies
-/

theorem WellFormed.prefixes_isSome {i : Instruction} (h : i.WellFormed)
    (hcount : i.prefixCount ≠ 0) : i.prefixes.isSome := by
  cases hprefixes : i.prefixes with
  | some t => rfl
  | none =>
      have hle := h.prefixCount_le
      simp [hprefixes, content, content?] at hle
      exact absurd hle hcount

theorem WellFormed.operands_dupe {i copy : Instruction} (h : i.WellFormed)
    (hdupe : i.dupe = .ok copy) :
    ∃ copies : List Operand,
      i.operands.toList.map Operand.dupe = copies.map .ok ∧
      copies.length = i.operands.count ∧
      copies.length < Storage.limit ∧
      copy.operands = .full copies := by
  have hlist := h.operands.packed.length_toList
  rcases dupe_eq_ok hdupe with ⟨slots, hslots, hoperands, _⟩
  rcases OperandTable.fillCopies_eq_ok hslots hlist hoperands with ⟨copies, hmap, htable⟩
  have hlength : copies.length = i.operands.count := by
    have hlengths := congrArg List.length hmap
    rw [List.length_map, List.length_map] at hlengths
    rw [← hlengths, hlist]
  refine ⟨copies, hmap, hlength, ?_, htable⟩
  rw [hlength]
  exact (OperandTable.withSlots_eq_ok hslots).2

theorem WellFormed.dupe {i copy : Instruction} (h : i.WellFormed) (hdupe : i.dupe = .ok copy) :
    copy.WellFormed := by
  rcases h.operands_dupe hdupe with ⟨copies, _, _, hlimit, htable⟩
  rcases dupe_eq_ok hdupe with ⟨_, _, _, htext, hprefixes, hmnemonic, hcomment, hcopy⟩
  have hreferences :
      copy.references = i.references.filter fun ref => ref.index < copy.operands.count := by
    rw [hcopy]
  have hcount : copy.prefixCount ≤ i.prefixCount := by
    rw [hcopy]
    show (if i.prefixes.isSome then i.prefixCount else 0) ≤ i.prefixCount
    split
    · exact Nat.le_refl _
    · exact Nat.zero_le _
  refine
    { operands := ?_
      references := ?_
      text := sound_snapshot htext
      prefixes := sound_snapshot hprefixes
      mnemonic := sound_snapshot hmnemonic
      comment := sound_snapshot hcomment
      prefixCount_le := ?_ }
  · rw [htable]
    exact OperandTable.sound_full hlimit
  · rw [hreferences]
    exact References.within_filter _ _
  · have hcontent : copy.prefixes.content = i.prefixes.content := by
      rw [content, content, content?_snapshot hprefixes]
    rw [hcontent]
    exact Nat.le_trans hcount h.prefixCount_le

/-!
# Operations
-/

theorem prefixCount_addPrefix_of_ok {i : Instruction} {token : String} {stored : Nat}
    (h : (append i.prefixes " " token).result = .ok stored) :
    (i.addPrefix token).state.prefixCount =
      if stored = 0 then i.prefixCount else i.prefixCount + 1 := by
  simp only [addPrefix, h]
  rfl

theorem prefixCount_addPrefix_of_error {i : Instruction} {token : String} {e : StorageError}
    (h : (append i.prefixes " " token).result = .error e) :
    (i.addPrefix token).state.prefixCount = i.prefixCount := by
  simp only [addPrefix, h]
  rfl

theorem prefixCount_addPrefix_le {i : Instruction}
    (h : i.prefixCount ≤ i.prefixes.content.utf8ByteSize) (token : String) :
    (i.addPrefix token).state.prefixCount ≤
      (i.addPrefix token).state.prefixes.content.utf8ByteSize := by
  show (i.addPrefix token).state.prefixCount ≤
    (append i.prefixes " " token).state.content.utf8ByteSize
  cases hresult : (append i.prefixes " " token).result with
  | error e =>
      rw [prefixCount_addPrefix_of_error hresult, state_append_of_error hresult]
      exact h
  | ok stored =>
      rw [prefixCount_addPrefix_of_ok hresult, size_append_of_ok hresult]
      split
      · omega
      · omega

theorem WellFormed.references_perform {i : Instruction} (h : i.WellFormed)
    (operation : Operation) :
    (i.perform operation).2.references.Within (i.perform operation).2.operands.count := by
  rw [Instruction.references_perform, operands_perform]
  by_cases hclear : operation = .clear
  · subst hclear
    exact References.within_none _
  · have hkept := h.references.mono (OperandTable.count_le_afterOperation hclear i.operands)
    cases operation with
    | setReference role ref =>
        show References.Within
          (if i.isValid ref then i.references.set role (some ref) else i.references)
          i.operands.count
        split
        · rename_i hvalid
          exact h.references.set (of_decide_eq_true hvalid) role
        · exact h.references
    | clear => exact absurd rfl hclear
    | _ => exact hkept

theorem WellFormed.prefixCount_perform_le {i : Instruction} (h : i.WellFormed)
    (operation : Operation) :
    (i.perform operation).2.prefixCount ≤
      (i.perform operation).2.prefixes.content.utf8ByteSize := by
  cases operation with
  | addPrefix token => exact prefixCount_addPrefix_le h.prefixCount_le token
  | clear => exact Nat.zero_le _
  | _ =>
      rw [state_perform]
      exact h.prefixCount_le

theorem WellFormed.perform {i : Instruction} (h : i.WellFormed) (operation : Operation) :
    (i.perform operation).2.WellFormed where
  operands := by
    rw [operands_perform]
    exact h.operands.afterOperation operation
  references := h.references_perform operation
  text := h.text.write (write_text i operation)
  prefixes := h.prefixes.write (write_prefixes i operation)
  mnemonic := h.mnemonic.write (write_mnemonic i operation)
  comment := h.comment.write (write_comment i operation)
  prefixCount_le := h.prefixCount_perform_le operation

theorem Reachable.wellFormed {i : Instruction} (h : Reachable i) : i.WellFormed := by
  induction h with
  | empty => exact wellFormed_withSlots (n := 0) rfl
  | withSlots hmake => exact wellFormed_withSlots hmake
  | ofLayout hmake => exact wellFormed_ofLayout hmake
  | dupe _ hdupe ih => exact ih.dupe hdupe
  | perform operation _ ih => exact ih.perform operation

/-!
# What a reader may rely on
-/

/-- The counts, the slots, the references and the prefixes of an instruction agree, and no count
leaves a word. -/
structure Consistent (i : Instruction) : Prop where
  count_le : i.operands.count ≤ i.operands.slots.length
  occupied : ∀ index, index < i.operands.count → ∃ o, i.operands.slots[index]? = some (some o)
  isSome_get?_iff : ∀ index, (i.operands.get? index).isSome ↔ index < i.operands.count
  length_toList : i.operands.toList.length = i.operands.count
  getElem?_toList : ∀ index, i.operands.toList[index]? = i.operands.get? index
  reference_lt : ∀ role ref, i.references.get role = some ref → ref.index < i.operands.count
  reference?_eq : ∀ role, i.reference? role = i.references.get role
  isSome_referent?_iff : ∀ role, (i.referent? role).isSome ↔ (i.references.get role).isSome
  prefixes_set : 0 < i.prefixCount → ∃ t, i.prefixes = some t ∧ i.prefixCount ≤ t.size
  length_slots_lt : i.operands.slots.length < Storage.limit
  prefixCount_lt : i.prefixCount < Storage.limit

theorem WellFormed.reference?_eq {i : Instruction} (h : i.WellFormed) (role : Role) :
    i.reference? role = i.references.get role := by
  have hkept := congrArg (fun references => references.get role) h.references.filter_eq
  rw [References.get_filter] at hkept
  exact hkept

theorem WellFormed.isSome_referent?_iff {i : Instruction} (h : i.WellFormed) (role : Role) :
    (i.referent? role).isSome ↔ (i.references.get role).isSome := by
  unfold referent?
  cases href : i.references.get role with
  | none => simp
  | some ref =>
      have hlt := h.references role ref href
      simpa using (h.operands.packed.isSome_get?_iff ref.index).mpr hlt

theorem WellFormed.prefixes_set {i : Instruction} (h : i.WellFormed)
    (hcount : 0 < i.prefixCount) : ∃ t, i.prefixes = some t ∧ i.prefixCount ≤ t.size := by
  rcases Option.isSome_iff_exists.mp (h.prefixes_isSome (Nat.ne_of_gt hcount)) with ⟨t, ht⟩
  refine ⟨t, ht, ?_⟩
  have hle := h.prefixCount_le
  rw [ht] at hle
  exact hle

theorem WellFormed.prefixCount_lt {i : Instruction} (h : i.WellFormed) :
    i.prefixCount < Storage.limit := by
  cases hcount : i.prefixCount with
  | zero => decide
  | succ n =>
      rcases h.prefixes_set (by omega) with ⟨t, ht, hle⟩
      have hlt := (h.prefixes t ht).size_lt
      omega

theorem consistent_of_reachable {i : Instruction} (h : Reachable i) : i.Consistent := by
  have hi := h.wellFormed
  have hpacked := hi.operands.packed
  exact
    { count_le := hpacked.count_le
      occupied := hpacked
      isSome_get?_iff := hpacked.isSome_get?_iff
      length_toList := hpacked.length_toList
      getElem?_toList := hpacked.getElem?_toList
      reference_lt := hi.references
      reference?_eq := hi.reference?_eq
      isSome_referent?_iff := hi.isSome_referent?_iff
      prefixes_set := hi.prefixes_set
      length_slots_lt := hi.operands.length_lt
      prefixCount_lt := hi.prefixCount_lt }

/-- A buffer that has grown beyond its layout, after a prefix that was cut and a reference that was
refused. -/
theorem consistent_overfilled_buffer :
    let i := ((blank ⟨8, 1, 1, 8⟩).run
      [.addPrefix "lock", .nextOperand [.setText "eax"], .commitNext, .addOperand .empty,
        .setReference .source ⟨1⟩, .setReference .target ⟨2⟩]).2
    Reachable i ∧ i.Consistent := by
  have hmade : Reachable (blank ⟨8, 1, 1, 8⟩) := .ofLayout (l := ⟨8, 1, 1, 8⟩) rfl
  have hreachable := hmade.run
    [.addPrefix "lock", .nextOperand [.setText "eax"], .commitNext, .addOperand .empty,
      .setReference .source ⟨1⟩, .setReference .target ⟨2⟩]
  exact ⟨hreachable, consistent_of_reachable hreachable⟩

end Instruction
end Disassembly
