import Disassembly.Proofs.History
import Disassembly.Proofs.Representation

/-!
# The regime of storage

With a layout all texts are bounded from the start, and every slot holds an operand.
Without one no text is bounded. The layout is not consulted when a text is written or a
slot is filled: the regime is recorded a second time in the texts and the slots
themselves, and both records agree.
-/

namespace Disassembly

open Instruction

/-!
# Text fields
-/

namespace TextField

def Bounded (capacity : Nat) (field : TextField) : Prop :=
  ∃ t : BoundedText, field = some (.bounded t) ∧ t.capacity = capacity ∧ t.size ≤ capacity - 1

variable {capacity : Nat} {field after : TextField}

theorem bounded_withCapacity {resource : Resource}
    (h : withCapacity resource capacity = .ok field) : Bounded capacity field :=
  ⟨{ capacity }, withCapacity_eq_ok h, rfl, Nat.zero_le _⟩

theorem Bounded.write (h : Bounded capacity field) (hwrite : Write field after)
    (hsound : Sound after) : Bounded capacity after := by
  rcases h with ⟨t, rfl, rfl, _⟩
  cases hwrite with
  | keep => exact ⟨t, rfl, rfl, (hsound _ rfl).1⟩
  | assign s => exact ⟨(t.set s).2, rfl, rfl, (hsound _ rfl).1⟩
  | append separator token => exact ⟨(t.append separator token).2, rfl, rfl, (hsound _ rfl).1⟩
  | clear => exact ⟨t.clear, rfl, rfl, (hsound _ rfl).1⟩

theorem growable_none : Growable none := by
  intro t ht
  cases ht

theorem growable_snapshot {resource : Resource} {copy : TextField}
    (h : snapshot resource field = .ok copy) : Growable copy := by
  intro t ht
  exact Text.capacity?_of_isBounded (isBounded_of_snapshot h t ht)

theorem isSome_of_write (hwrite : Write field after) (h : field.isSome) : after.isSome := by
  rcases Option.isSome_iff_exists.mp h with ⟨t, rfl⟩
  cases hwrite with
  | keep => rfl
  | assign s => rfl
  | append separator token => rfl
  | clear => rfl

end TextField

namespace OperandTable

def Occupied (t : OperandTable) : Prop := ∀ slot ∈ t.slots, ∃ o, slot = some o

variable {t u : OperandTable}

theorem Occupied.place (h : t.Occupied) (index : Nat) (o : Operand) :
    (t.place index o).Occupied := by
  intro slot hslot
  rcases List.mem_or_eq_of_mem_set hslot with hmem | rfl
  · exact h slot hmem
  · exact ⟨o, rfl⟩

theorem Occupied.push {o : Operand} (h : t.Occupied) (hpush : t.push? o = some u) :
    u.Occupied := by
  rcases push_cases hpush with ⟨_, rfl⟩ | ⟨_, _, rfl⟩
  · exact h.place t.count o
  · intro slot hslot
    rcases List.mem_append.mp hslot with hmem | hlast
    · exact h slot hmem
    · exact ⟨o, List.mem_singleton.mp hlast⟩

theorem Occupied.exchange {operation : Operation} {response : Response} (h : t.Occupied)
    (hexchange : Exchange t operation response u) : u.Occupied := by
  cases hexchange with
  | push hpush => exact h.push hpush
  | handOut hwaiting => exact h.place _ _
  | commit hcommit =>
      intro slot hslot
      rw [(count_commit hcommit).2] at hslot
      exact h slot hslot
  | edit hget => exact h.place _ _
  | _ => exact h

end OperandTable

/-!
# Instructions
-/

namespace Instruction

/-- The storage is that of a layout: each text is bounded by its capacity, and no slot is empty. -/
structure FollowsLayout (l : Layout) (i : Instruction) : Prop where
  text : i.text.Bounded l.textSize.toNat
  prefixes : i.prefixes.Bounded l.prefixesSize.toNat
  mnemonic : i.mnemonic.Bounded l.mnemonicSize.toNat
  comment : i.comment.Bounded l.textSize.toNat
  occupied : i.operands.Occupied

structure Unbounded (i : Instruction) : Prop where
  text : i.text.Growable
  prefixes : i.prefixes.Growable
  mnemonic : i.mnemonic.Growable
  comment : i.comment.Growable

structure Regime (i : Instruction) : Prop where
  fixed : ∀ l, i.layout = some l → FollowsLayout l i
  growable : i.layout = none → i.Unbounded

theorem regime_withSlots {n : Nat} {i : Instruction} (h : withSlots n = .ok i) : i.Regime := by
  rcases withSlots_eq_ok h with ⟨rfl, _⟩
  constructor
  · intro l hlayout
    cases hlayout
  · intro _
    exact ⟨TextField.growable_none, TextField.growable_none, TextField.growable_none,
      TextField.growable_none⟩

theorem regime_ofLayout {l : Layout} {i : Instruction} (h : ofLayout l = .ok i) : i.Regime := by
  rcases ofLayout_parts h with ⟨htext, hprefixes, hmnemonic, hcomment, _, htable, hmade⟩
  have hlayout : i.layout = some l := by rw [hmade]
  constructor
  · intro other hother
    rw [hlayout] at hother
    cases hother
    refine ⟨TextField.bounded_withCapacity htext, TextField.bounded_withCapacity hprefixes,
      TextField.bounded_withCapacity hmnemonic, TextField.bounded_withCapacity hcomment, ?_⟩
    rw [htable]
    intro slot hslot
    exact ⟨_, List.eq_of_mem_replicate hslot⟩
  · intro hnone
    rw [hlayout] at hnone
    cases hnone

theorem regime_dupe {i copy : Instruction} (h : i.dupe = .ok copy) : copy.Regime := by
  rcases dupe_eq_ok h with ⟨_, _, _, htext, hprefixes, hmnemonic, hcomment, hparts⟩
  constructor
  · intro l hlayout
    rw [hparts] at hlayout
    cases hlayout
  · intro _
    exact ⟨TextField.growable_snapshot htext, TextField.growable_snapshot hprefixes,
      TextField.growable_snapshot hmnemonic, TextField.growable_snapshot hcomment⟩

/-!
# Operations
-/

theorem FollowsLayout.perform {l : Layout} {i : Instruction} (h : FollowsLayout l i)
    {operation : Operation} (hafter : (i.perform operation).2.WellFormed) :
    FollowsLayout l (i.perform operation).2 where
  text := h.text.write (write_text i operation) hafter.text
  prefixes := h.prefixes.write (write_prefixes i operation) hafter.prefixes
  mnemonic := h.mnemonic.write (write_mnemonic i operation) hafter.mnemonic
  comment := h.comment.write (write_comment i operation) hafter.comment
  occupied := h.occupied.exchange (exchange_perform i operation)

theorem Unbounded.perform {i : Instruction} (h : i.Unbounded) (operation : Operation) :
    (i.perform operation).2.Unbounded where
  text := h.text.write (write_text i operation)
  prefixes := h.prefixes.write (write_prefixes i operation)
  mnemonic := h.mnemonic.write (write_mnemonic i operation)
  comment := h.comment.write (write_comment i operation)

theorem Regime.perform {i : Instruction} (h : i.Regime) {operation : Operation}
    (hafter : (i.perform operation).2.WellFormed) : (i.perform operation).2.Regime := by
  constructor
  · intro l hlayout
    rw [layout_perform] at hlayout
    exact (h.fixed l hlayout).perform hafter
  · intro hnone
    rw [layout_perform] at hnone
    exact (h.growable hnone).perform operation

theorem Reachable.regime {i : Instruction} (h : Reachable i) : i.Regime := by
  induction h with
  | empty => exact regime_withSlots (n := 0) rfl
  | withSlots hmake => exact regime_withSlots hmake
  | ofLayout hmake => exact regime_ofLayout hmake
  | dupe _ hdupe _ => exact regime_dupe hdupe
  | perform operation hbefore ih => exact ih.perform (hbefore.perform operation).wellFormed

/-!
# Runs
-/

theorem layout_run (i : Instruction) (operations : List Operation) :
    (i.run operations).2.layout = i.layout := by
  refine run_invariant (P := fun later => later.layout = i.layout) ?_ rfl
  intro later operation _ h
  exact (layout_perform later operation).trans h

theorem isSome_run {field : Instruction → TextField}
    (hwrite : ∀ i operation, (field i).Write (field (i.perform operation).2)) {i : Instruction}
    (h : (field i).isSome) (operations : List Operation) :
    (field (i.run operations).2).isSome := by
  refine run_invariant (P := fun later => (field later).isSome) ?_ h
  intro later operation _ hset
  exact TextField.isSome_of_write (hwrite later operation) hset

theorem Regime.commentSeparator_eq {i : Instruction} (h : i.Regime) :
    i.commentSeparator = if i.comment.any Text.isBounded then " " else ";" := by
  unfold commentSeparator isFixed
  cases hlayout : i.layout with
  | some l =>
      rcases (h.fixed l hlayout).comment with ⟨t, ht, _⟩
      rw [ht]
      rfl
  | none =>
      have hgrowable := (h.growable hlayout).comment
      cases hcomment : i.comment with
      | none => rfl
      | some t =>
          cases t with
          | growable t => rfl
          | bounded t => cases hgrowable _ hcomment

/-- Along every run the layout stays what it is, the texts and the slots agree with it, comments are
parted as suits their text, and a text that is set stays set. -/
theorem regime_of_run {i : Instruction} (h : Reachable i) (operations : List Operation) :
    let later := (i.run operations).2
    later.layout = i.layout ∧ later.Regime ∧
      later.commentSeparator = (if later.comment.any Text.isBounded then " " else ";") ∧
      (i.text.isSome → later.text.isSome) ∧ (i.prefixes.isSome → later.prefixes.isSome) ∧
      (i.mnemonic.isSome → later.mnemonic.isSome) ∧
      (i.comment.isSome → later.comment.isSome) := by
  intro later
  have hlater : Reachable later := h.run operations
  refine ⟨layout_run i operations, hlater.regime, hlater.regime.commentSeparator_eq, ?_⟩
  exact ⟨fun hset => isSome_run write_text hset operations,
    fun hset => isSome_run write_prefixes hset operations,
    fun hset => isSome_run write_mnemonic hset operations,
    fun hset => isSome_run write_comment hset operations⟩

/-- A buffer that has no room for any text, and whose only operand was exchanged and joined by
another. -/
theorem regime_of_roomless_buffer :
    let i := blank ⟨1, 0, 1, 1⟩
    let operations : List Operation :=
      [.setText "né", .setMnemonic "nop", .addPrefix "lock", .addComment "a", .addOperand .empty,
        .addOperand .empty, .clear]
    let later := (i.run operations).2
    Reachable i ∧ later.layout = some ⟨1, 0, 1, 1⟩ ∧ later.Regime ∧
      later.commentSeparator = " " := by
  intro i operations later
  have hmade : Reachable i := .ofLayout (l := ⟨1, 0, 1, 1⟩) rfl
  rcases regime_of_run hmade operations with ⟨hlayout, hregime, hseparator, _⟩
  exact ⟨hmade, hlayout, hregime, hseparator⟩

end Instruction
end Disassembly
