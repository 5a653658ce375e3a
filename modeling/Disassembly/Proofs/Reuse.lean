import Disassembly.Proofs.Alike
import Disassembly.Proofs.History
import Mathlib.Data.List.Induction

/-!
# Reusing a decode buffer

As long as the operands of a fixed instruction are taken from their slots and edited in
place, clearing it brings all of its storage back to what it was. It then answers every
further run as a new buffer does, provided that each commit follows a request for the
operand.
-/

namespace Disassembly

open Instruction

namespace Operand

theorem clear_clear (o : Operand) : o.clear.clear = o.clear := by
  rcases o with ⟨text, flags, value, dataSize⟩
  cases text <;> rfl

theorem clear_edit {o : Operand} {b : BoundedText} (hbounded : o.clear.text = .bounded b)
    {edit : Edit} (hplace : edit.isInPlace = true) : (o.edit edit).state.clear = o.clear := by
  cases edit with
  | setText s =>
      rcases o with ⟨text, flags, value, dataSize⟩
      cases text with
      | growable t => cases hbounded
      | bounded t => rfl
  | setFlags flags => rfl
  | setValue value => rfl
  | setDataSize dataSize => rfl
  | clear => exact clear_clear o
  | replace p => cases hplace

theorem clear_editAll {o : Operand} {b : BoundedText} (hbounded : o.clear.text = .bounded b)
    {edits : List Edit} (hplace : edits.all Edit.isInPlace = true) :
    (o.editAll edits).2.clear = o.clear := by
  induction edits generalizing o with
  | nil => rfl
  | cons first rest ih =>
      simp only [List.all_cons, Bool.and_eq_true] at hplace
      have hfirst := clear_edit hbounded hplace.1
      show ((o.edit first).state.editAll rest).2.clear = o.clear
      rw [ih (by rw [hfirst, hbounded]) hplace.2, hfirst]

end Operand

theorem TextField.Write.clear_eq {field after : TextField} (h : Write field after)
    {b : BoundedText} (hbounded : TextField.clear field = some (.bounded b)) :
    TextField.clear after = some (.bounded b) := by
  cases field with
  | none => cases hbounded
  | some text =>
      cases text with
      | growable t => cases hbounded
      | bounded t =>
          cases h with
          | keep => exact hbounded
          | assign s => exact hbounded
          | append separator token => exact hbounded
          | clear => exact hbounded

/-!
# The storage of a layout
-/

namespace Instruction

def Operation.reusesSlots : Operation → Bool
  | .addOperand _ => false
  | .nextOperand edits => edits.all Operand.Edit.isInPlace
  | .editOperand _ edits => edits.all Operand.Edit.isInPlace
  | _ => true

end Instruction

namespace OperandTable

def Furnished (n capacity : Nat) (t : OperandTable) : Prop :=
  t.slots.map (Option.map Operand.clear) =
    List.replicate n (some { text := .bounded { capacity } })

theorem Furnished.clear_eq {n capacity index : Nat} {t : OperandTable}
    (h : t.Furnished n capacity) {o : Operand} (hslot : t.slots[index]? = some (some o)) :
    o.clear = { text := .bounded { capacity } } := by
  have hindex := congrArg (fun slots => slots[index]?) h
  simp only [List.getElem?_map, hslot, List.getElem?_replicate] at hindex
  split at hindex
  · simpa using hindex
  · simp at hindex

theorem Furnished.place {n capacity : Nat} {t : OperandTable} (h : t.Furnished n capacity)
    {o : Operand} (ho : o.clear = { text := .bounded { capacity } }) (index : Nat) :
    (t.place index o).Furnished n capacity := by
  unfold Furnished at *
  simp only [OperandTable.place, List.map_set, h, Option.map_some, ho]
  exact List.set_replicate_self

theorem Furnished.afterOperation {n capacity : Nat} {t : OperandTable}
    (h : t.Furnished n capacity) {operation : Operation}
    (hreuses : operation.reusesSlots = true) :
    (t.afterOperation operation).Furnished n capacity := by
  cases operation with
  | addOperand o => cases hreuses
  | nextOperand edits =>
      simp only [OperandTable.afterOperation]
      cases hwaiting : t.waiting? with
      | none => exact h
      | some o =>
          have hclear := h.clear_eq (waiting?_eq_some_iff.mp hwaiting)
          have hbounded : o.clear.clear.text = .bounded { capacity } := by
            rw [Operand.clear_clear, hclear]
          apply h.place
          rw [Operand.clear_editAll hbounded hreuses, Operand.clear_clear, hclear]
  | commitNext =>
      simp only [OperandTable.afterOperation]
      cases hcommit : t.commit? with
      | none => exact h
      | some u =>
          rw [Option.getD_some, Furnished, (count_commit hcommit).2]
          exact h
  | editOperand index edits =>
      simp only [OperandTable.afterOperation]
      cases hget : t.get? index with
      | none => exact h
      | some o =>
          have hclear := h.clear_eq (get?_eq_some_iff.mp hget).2
          have hbounded : o.clear.text = .bounded { capacity } := by rw [hclear]
          apply h.place
          rw [Operand.clear_editAll hbounded hreuses, hclear]
  | _ => exact h

end OperandTable

namespace Instruction

structure Furnished (l : Layout) (i : Instruction) : Prop where
  layout : i.layout = some l
  text : i.text.clear = (blank l).text
  prefixes : i.prefixes.clear = (blank l).prefixes
  mnemonic : i.mnemonic.clear = (blank l).mnemonic
  comment : i.comment.clear = (blank l).comment
  operands : i.operands.Furnished l.operandCount.toNat l.operandTextSize.toNat

theorem furnished_blank (l : Layout) : Furnished l (blank l) where
  layout := rfl
  text := rfl
  prefixes := rfl
  mnemonic := rfl
  comment := rfl
  operands := by
    simp [OperandTable.Furnished, blank, Operand.clear, Text.clear, BoundedText.clear]

theorem Furnished.perform {l : Layout} {i : Instruction} (h : Furnished l i)
    {operation : Operation} (hreuses : operation.reusesSlots = true) :
    Furnished l (i.perform operation).2 where
  layout := by
    rw [layout_perform]
    exact h.layout
  text := (write_text i operation).clear_eq h.text
  prefixes := (write_prefixes i operation).clear_eq h.prefixes
  mnemonic := (write_mnemonic i operation).clear_eq h.mnemonic
  comment := (write_comment i operation).clear_eq h.comment
  operands := by
    rw [operands_perform]
    exact h.operands.afterOperation hreuses

theorem Furnished.run {l : Layout} {i : Instruction} (h : Furnished l i)
    {history : List Operation} (hreuses : ∀ operation ∈ history, operation.reusesSlots = true) :
    Furnished l (i.run history).2 := by
  refine run_invariant ?_ h
  intro j operation hmem hj
  exact hj.perform (hreuses operation hmem)

theorem Furnished.clear_alike {l : Layout} {i : Instruction} (h : Furnished l i) :
    Alike False i.clear (blank l) := by
  have htable : i.clear.operands.Alike False (blank l).operands := by
    refine ⟨rfl, ?_, fun hfalse => hfalse.elim, ?_⟩
    · intro index hindex
      exact absurd hindex (Nat.not_lt_zero index)
    · exact h.operands.trans (furnished_blank l).operands.symm
  have hblank : blank l =
      { i.clear with
        offset := 0
        address := 0
        size := 0
        bytes := []
        operands := (blank l).operands } := by
    simp only [Instruction.clear, h.layout, h.text, h.prefixes, h.mnemonic, h.comment]
    rfl
  rw [hblank]
  exact .mk htable

/-!
# Runs that request what they commit
-/

def Readied (operations : List Operation) : Prop :=
  ∃ before edits between, operations = before ++ .nextOperand edits :: between ∧
    ∀ operation ∈ between, operation.movesFreeSlot = false

/-- Every commit comes after a request for the operand that it commits. -/
def CommitsReadied (operations : List Operation) : Prop :=
  ∀ front, front ++ [.commitNext] <+: operations → Readied front

theorem not_readied_nil : ¬ Readied [] := by
  rintro ⟨before, edits, between, hsplit, _⟩
  cases before with
  | nil => cases hsplit
  | cons first rest => cases hsplit

theorem readies_of_readied_concat {front : List Operation} {last : Operation}
    (h : Readied (front ++ [last])) : last.Readies (Readied front) := by
  rcases h with ⟨before, edits, between, hsplit, hkeeps⟩
  -- the request is the last operation, or lies before it
  cases between using List.reverseRecOn with
  | nil =>
      rcases List.append_inj' hsplit rfl with ⟨_, hlast⟩
      cases hlast
      exact Or.inl ⟨edits, rfl⟩
  | append_singleton earlier final _ =>
      have hassoc : before ++ .nextOperand edits :: (earlier ++ [final]) =
          (before ++ .nextOperand edits :: earlier) ++ [final] := by simp
      rw [hassoc] at hsplit
      rcases List.append_inj' hsplit rfl with ⟨hfront, hlast⟩
      cases hlast
      refine Or.inr ⟨⟨before, edits, earlier, hfront, ?_⟩, ?_⟩
      · intro operation hoperation
        exact hkeeps operation (List.mem_append_left _ hoperation)
      · exact hkeeps last (by simp)

theorem commitsReadied_of_forall_ne {operations : List Operation}
    (h : ∀ operation ∈ operations, operation ≠ .commitNext) : CommitsReadied operations := by
  intro front hfront
  exact absurd rfl (h .commitNext (hfront.subset (by simp)))

theorem CommitsReadied.concat {operations : List Operation} (h : CommitsReadied operations)
    {last : Operation} (hlast : last = .commitNext → Readied operations) :
    CommitsReadied (operations ++ [last]) := by
  intro front hfront
  rcases List.prefix_concat_iff.mp hfront with hwhole | hearlier
  · rcases List.append_inj' hwhole rfl with ⟨hsame, hcommit⟩
    rw [hsame]
    exact hlast (List.singleton_inj.mp hcommit).symm
  · exact h front hearlier

theorem alike_run {i j : Instruction} (h : Alike False i j) {continuation : List Operation}
    (hcommits : CommitsReadied continuation) {front : List Operation}
    (hfront : front <+: continuation) :
    (i.run front).1 = (j.run front).1 ∧
      Alike (Readied front) (i.run front).2 (j.run front).2 := by
  induction front using List.reverseRecOn with
  | nil =>
      constructor
      · rfl
      · exact h.mono not_readied_nil
  | append_singleton earlier last ih =>
      rcases ih ((List.prefix_append earlier [last]).trans hfront) with ⟨hresponses, halike⟩
      have hcommit : last = .commitNext → Readied earlier := by
        intro hlast
        subst hlast
        exact hcommits earlier hfront
      rw [run_concat, run_concat, hresponses, halike.response_eq last hcommit]
      constructor
      · rfl
      · exact (halike.perform last hcommit).mono readies_of_readied_concat

theorem address_run_eq {front : List Operation} {address : UInt64}
    (h : .setAddress address ∈ front) (i j : Instruction) :
    (i.run front).2.address = (j.run front).2.address := by
  induction front using List.reverseRecOn with
  | nil => cases h
  | append_singleton earlier last ih =>
      rw [run_concat, run_concat, address_perform, address_perform]
      rcases List.mem_append.mp h with hearlier | hlast
      · cases last with
        | setAddress later => rfl
        | _ => exact ih hearlier
      · cases List.mem_singleton.mp hlast
        rfl

/-!
# Reuse
-/

/-- A buffer that was used and cleared answers a run as a new one does, and after each of its
steps shows the same, also when it is copied. The whole line is the same from the step that sets
the address. -/
theorem reused_run_eq_fresh_run {l : Layout} {fresh : Instruction} (hmade : ofLayout l = .ok fresh)
    {history : List Operation} (hreuses : ∀ operation ∈ history, operation.reusesSlots = true)
    {continuation : List Operation} (hcommits : CommitsReadied continuation)
    {front : List Operation} (hfront : front <+: continuation) :
    let reused := (fresh.run history).2.clear
    (reused.run front).1 = (fresh.run front).1 ∧
      (reused.run front).2.view = (fresh.run front).2.view ∧
      (reused.run front).2.dupe.map view = (fresh.run front).2.dupe.map view ∧
      ((∃ address, .setAddress address ∈ front) →
        (reused.run front).2.display = (fresh.run front).2.display ∧
        (reused.run front).2.dupe.map display = (fresh.run front).2.dupe.map display) := by
  intro reused
  cases ofLayout_eq_ok hmade
  have hcleared : Alike False reused (blank l) := ((furnished_blank l).run hreuses).clear_alike
  rcases alike_run hcleared hcommits hfront with ⟨hresponses, halike⟩
  refine ⟨hresponses, halike.view_eq, halike.dupe_view_eq, ?_⟩
  rintro ⟨address, hset⟩
  have haddress := address_run_eq hset reused (blank l)
  exact ⟨halike.display_eq haddress, halike.dupe_display_eq haddress⟩

/-- Two operands are decoded into a buffer that held two others. -/
theorem reused_buffer_shows_new_operands :
    let l : Layout := ⟨8, 4, 2, 8⟩
    let history : List Operation :=
      [.setAddress 5, .setText "mov ebx, 1", .nextOperand [.setText "ebx"], .commitNext,
        .nextOperand [.setText "1", .setDataSize 4], .commitNext, .setReference .source ⟨1⟩]
    let front : List Operation :=
      [.setOffset 0, .setAddress 7, .setSize 1, .setBytes [0x50],
        .nextOperand [.setText "eax"]] ++ [.commitNext]
    ((blank l).run history).2.clear.operands.slots ≠ (blank l).operands.slots ∧
      (((blank l).run history).2.clear.run front).2.view = ((blank l).run front).2.view ∧
      (((blank l).run history).2.clear.run front).2.display = ((blank l).run front).2.display := by
  intro l history front
  have hreuses : ∀ operation ∈ history, operation.reusesSlots = true := by decide
  have hcommits : CommitsReadied front := by
    apply CommitsReadied.concat
    · exact commitsReadied_of_forall_ne (by decide)
    · intro _
      exact ⟨[.setOffset 0, .setAddress 7, .setSize 1, .setBytes [0x50]], [.setText "eax"], [],
        rfl, by simp⟩
  rcases reused_run_eq_fresh_run (l := l) rfl hreuses hcommits (List.prefix_refl front) with
    ⟨_, hview, _, hdisplay⟩
  exact ⟨by decide, hview, (hdisplay ⟨7, by decide⟩).1⟩

/-- Until the run sets the address, the line starts with the old one. -/
theorem display_not_renewed :
    ¬ ∀ (l : Layout) (fresh : Instruction) (history rest front : List Operation)
        (offset address size : UInt64) (bytes : List UInt8),
        let continuation := .setOffset offset :: .setAddress address :: .setSize size ::
          .setBytes bytes :: rest
        ofLayout l = .ok fresh → (∀ operation ∈ history, operation.reusesSlots = true) →
          CommitsReadied continuation → front <+: continuation →
            ((fresh.run history).2.clear.run front).2.display = (fresh.run front).2.display := by
  intro hall
  have hsame := hall ⟨8, 4, 1, 8⟩ (blank ⟨8, 4, 1, 8⟩) [.setAddress 5] [] [.setOffset 16] 16 9 2
    [0xeb, 0] rfl (by decide) (commitsReadied_of_forall_ne (by decide)) ⟨_, rfl⟩
  exact absurd hsame (by decide)

end Instruction
end Disassembly
