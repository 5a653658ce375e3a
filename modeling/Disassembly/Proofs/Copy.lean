import Disassembly.Proofs.Observation
import Disassembly.Proofs.Representation

/-!
# Copies of instructions

A copy is made part by part, and each part follows a rule of its own. For every
instruction that can arise these rules lose nothing of what it says. The layout, bounded
texts, spare room and free slots are not copied.
-/

namespace Disassembly

open TextField

/-!
# Copies of operands
-/

namespace Operand

theorem dupe_eq_ok {o copy : Operand} (h : o.dupe = .ok copy) :
    ∃ text : Text, o.text.snapshot = .ok text ∧ copy = { o with text } := by
  unfold dupe at h
  cases htext : o.text.snapshot with
  | error e => simp [htext] at h
  | ok text =>
      simp only [htext, Except.ok.injEq] at h
      exact ⟨text, rfl, h.symm⟩

theorem content_dupe {o copy : Operand} (h : o.dupe = .ok copy) :
    copy.text.content = o.text.content := by
  rcases dupe_eq_ok h with ⟨text, htext, rfl⟩
  exact Text.content_snapshot htext

theorem isBounded_dupe {o copy : Operand} (h : o.dupe = .ok copy) : copy.isBounded = false := by
  rcases dupe_eq_ok h with ⟨text, htext, rfl⟩
  exact Text.isBounded_snapshot htext

theorem dupe_dupe {o copy : Operand} (h : o.dupe = .ok copy) : copy.dupe = .ok copy := by
  rcases dupe_eq_ok h with ⟨text, htext, rfl⟩
  simp [dupe, Text.snapshot_of_snapshot htext]

variable {originals copies : List Operand}

theorem exists_original (h : originals.map dupe = copies.map .ok) {copy : Operand}
    (hcopy : copy ∈ copies) : ∃ o : Operand, o.dupe = .ok copy := by
  have hmem : (Except.ok copy : Except Error Operand) ∈ originals.map dupe := by
    rw [h]
    exact List.mem_map_of_mem hcopy
  rcases List.mem_map.mp hmem with ⟨o, _, ho⟩
  exact ⟨o, ho⟩

theorem map_dupe_copies (h : originals.map dupe = copies.map .ok) :
    copies.map dupe = copies.map .ok := by
  apply List.map_congr_left
  intro copy hcopy
  rcases exists_original h hcopy with ⟨o, ho⟩
  exact dupe_dupe ho

theorem map_content_copies (h : originals.map dupe = copies.map .ok) :
    copies.map (fun o => o.text.content) = originals.map fun o => o.text.content := by
  induction originals generalizing copies with
  | nil =>
      cases copies with
      | nil => rfl
      | cons copy rest => cases h
  | cons o others ih =>
      cases copies with
      | nil => cases h
      | cons copy rest =>
          rcases List.cons.inj h with ⟨hcopy, hrest⟩
          rw [List.map_cons, List.map_cons, content_dupe hcopy, ih hrest]

end Operand

/-!
# Tables that are full
-/

namespace OperandTable

theorem toList_full (operands : List Operand) : (full operands).toList = operands := by
  show ((operands.map some).take operands.length).filterMap id = operands
  rw [List.take_of_length_le (by simp), List.filterMap_map]
  exact List.filterMap_some

theorem get?_full (operands : List Operand) (index : Nat) :
    (full operands).get? index = operands[index]? := by
  unfold get? full
  by_cases hindex : index < operands.length
  · simp [hindex]
  · simp [hindex]

theorem fillCopies_full {operands : List Operand} {slots : OperandTable}
    (hslots : withSlots operands.length = .ok slots)
    (hcopies : operands.map Operand.dupe = operands.map .ok) :
    slots.fillCopies operands = .ok (full operands) := by
  rcases withSlots_eq_ok hslots with ⟨rfl, _⟩
  simp [fillCopies, mapM_eq_ok_iff.mpr hcopies, full]

end OperandTable

namespace Instruction

/-!
# The copy of a copy
-/

theorem dupe_of_parts {i : Instruction} {slots operands : OperandTable}
    (hslots : OperandTable.withSlots i.operands.count = .ok slots)
    (htext : TextField.snapshot .instructionText i.text = .ok i.text)
    (hprefixes : TextField.snapshot .prefixes i.prefixes = .ok i.prefixes)
    (hmnemonic : TextField.snapshot .mnemonic i.mnemonic = .ok i.mnemonic)
    (hcomment : TextField.snapshot .comment i.comment = .ok i.comment)
    (hoperands : slots.fillCopies i.operands.toList = .ok operands) :
    i.dupe = .ok
      { i with
        prefixCount := if i.prefixes.isSome then i.prefixCount else 0
        operands
        references := i.references.filter fun ref => ref.index < operands.count
        layout := none } := by
  unfold dupe
  rw [hslots, htext, hprefixes, hmnemonic, hcomment]
  simp only [bind, Except.bind, hoperands]
  rfl

theorem WellFormed.prefixCount_eq {i : Instruction} (h : i.WellFormed) :
    (if i.prefixes.isSome then i.prefixCount else 0) = i.prefixCount := by
  by_cases hcount : i.prefixCount = 0
  · simp [hcount]
  · rw [if_pos (h.prefixes_isSome hcount)]

theorem WellFormed.dupe_dupe {i copy : Instruction} (h : i.WellFormed)
    (hdupe : i.dupe = .ok copy) : copy.dupe = .ok copy := by
  have hcopy := h.dupe hdupe
  rcases h.operands_dupe hdupe with ⟨copies, hmap, _, hlimit, htable⟩
  rcases dupe_eq_ok hdupe with ⟨_, _, _, htext, hprefixes, hmnemonic, hcomment, hparts⟩
  have hslots : OperandTable.withSlots copy.operands.count =
      .ok { slots := List.replicate copies.length none } := by
    rw [htable]
    exact if_pos hlimit
  have hoperands : OperandTable.fillCopies { slots := List.replicate copies.length none }
      copy.operands.toList = .ok copy.operands := by
    have hlist : copy.operands.toList = copies := by
      rw [htable]
      exact OperandTable.toList_full copies
    rw [hlist, htable]
    exact OperandTable.fillCopies_full (if_pos hlimit) (Operand.map_dupe_copies hmap)
  have hlayout : copy.layout = none := by rw [hparts]
  rw [dupe_of_parts hslots (snapshot_of_snapshot htext) (snapshot_of_snapshot hprefixes)
    (snapshot_of_snapshot hmnemonic) (snapshot_of_snapshot hcomment) hoperands,
    hcopy.prefixCount_eq, hcopy.references.filter_eq, ← hlayout]

/-!
# What a copy says
-/

/-- The copy says what the instruction says, refers to the same operands, and keeps everything in
growable storage without free slots. -/
structure FaithfulCopy (i copy : Instruction) : Prop where
  status : copy.status = i.status
  offset : copy.offset = i.offset
  address : copy.address = i.address
  size : copy.size = i.size
  bytes : copy.bytes = i.bytes
  category : copy.category = i.category
  isa : copy.isa = i.isa
  prefixCount : copy.prefixCount = i.prefixCount
  count : copy.operands.count = i.operands.count
  text : copy.text.content? = i.text.content?
  prefixes : copy.prefixes.content? = i.prefixes.content?
  mnemonic : copy.mnemonic.content? = i.mnemonic.content?
  comment : copy.comment.content? = i.comment.content?
  operand : ∀ index, index < i.operands.count →
    ∃ o p, i.operands.get? index = some o ∧ o.dupe = .ok p ∧ copy.operands.get? index = some p
  references : copy.references = i.references
  reference? : copy.reference? = i.reference?
  display : copy.display = i.display
  layout : copy.layout = none
  growable : ∀ field, field ∈ [copy.text, copy.prefixes, copy.mnemonic, copy.comment] →
    ∀ t, field = some t → t.isBounded = false
  slotCount : copy.operands.slots.length = i.operands.count
  occupied : ∀ slot, slot ∈ copy.operands.slots → ∃ p, slot = some p ∧ p.isBounded = false
  dupe_eq : copy.dupe = .ok copy

theorem WellFormed.references_dupe {i copy : Instruction} (h : i.WellFormed)
    (hdupe : i.dupe = .ok copy) : copy.references = i.references := by
  rcases h.operands_dupe hdupe with ⟨copies, _, hlength, _, htable⟩
  rcases dupe_eq_ok hdupe with ⟨_, _, _, _, _, _, _, hparts⟩
  have hcount : copy.operands.count = i.operands.count := by
    rw [htable]
    exact hlength
  rw [hparts, hcount]
  exact h.references.filter_eq

theorem WellFormed.reference?_dupe {i copy : Instruction} (h : i.WellFormed)
    (hdupe : i.dupe = .ok copy) : copy.reference? = i.reference? := by
  funext role
  rw [(h.dupe hdupe).reference?_eq, h.reference?_eq, h.references_dupe hdupe]

theorem WellFormed.get?_dupe {i copy : Instruction} (h : i.WellFormed)
    (hdupe : i.dupe = .ok copy) {index : Nat} (hindex : index < i.operands.count) :
    ∃ o p, i.operands.get? index = some o ∧ o.dupe = .ok p ∧
      copy.operands.get? index = some p := by
  rcases h.operands_dupe hdupe with ⟨copies, hmap, _, _, htable⟩
  rcases Option.isSome_iff_exists.mp ((h.operands.packed.isSome_get?_iff index).mpr hindex) with
    ⟨o, ho⟩
  have hslot := congrArg (fun results => results[index]?) hmap
  simp only [List.getElem?_map, h.operands.packed.getElem?_toList, ho, Option.map_some] at hslot
  rcases Option.map_eq_some_iff.mp hslot.symm with ⟨p, hp, hcopy⟩
  refine ⟨o, p, ho, hcopy.symm, ?_⟩
  rw [htable, OperandTable.get?_full]
  exact hp

theorem WellFormed.display_dupe {i copy : Instruction} (h : i.WellFormed)
    (hdupe : i.dupe = .ok copy) : copy.display = i.display := by
  rcases h.operands_dupe hdupe with ⟨copies, hmap, _, _, htable⟩
  rcases dupe_eq_ok hdupe with ⟨_, _, _, htext, hprefixes, hmnemonic, _, hparts⟩
  apply display_eq_of_texts
  · rw [hparts]
  · rw [content, content, content?_snapshot htext]
  · rw [content, content, content?_snapshot hprefixes]
  · rw [content, content, content?_snapshot hmnemonic]
  · rw [htable, OperandTable.toList_full]
    exact Operand.map_content_copies hmap

theorem WellFormed.occupied_dupe {i copy : Instruction} (h : i.WellFormed)
    (hdupe : i.dupe = .ok copy) :
    ∀ slot, slot ∈ copy.operands.slots → ∃ p, slot = some p ∧ p.isBounded = false := by
  intro slot hslot
  rcases h.operands_dupe hdupe with ⟨copies, hmap, _, _, htable⟩
  rw [htable] at hslot
  rcases List.mem_map.mp hslot with ⟨p, hp, rfl⟩
  rcases Operand.exists_original hmap hp with ⟨o, ho⟩
  exact ⟨p, rfl, Operand.isBounded_dupe ho⟩

theorem faithfulCopy_of_reachable {i copy : Instruction} (h : Reachable i)
    (hdupe : i.dupe = .ok copy) : FaithfulCopy i copy := by
  have hi := h.wellFormed
  rcases hi.operands_dupe hdupe with ⟨copies, _, hlength, _, htable⟩
  rcases dupe_eq_ok hdupe with ⟨_, _, _, htext, hprefixes, hmnemonic, hcomment, hparts⟩
  have hbounded : ∀ field, field ∈ [copy.text, copy.prefixes, copy.mnemonic, copy.comment] →
      ∀ t, field = some t → t.isBounded = false := by
    simp only [List.forall_mem_cons]
    exact ⟨isBounded_of_snapshot htext, isBounded_of_snapshot hprefixes,
      isBounded_of_snapshot hmnemonic, isBounded_of_snapshot hcomment, by simp⟩
  exact
    { status := by rw [hparts]
      offset := by rw [hparts]
      address := by rw [hparts]
      size := by rw [hparts]
      bytes := by rw [hparts]
      category := by rw [hparts]
      isa := by rw [hparts]
      prefixCount := by
        rw [hparts]
        exact hi.prefixCount_eq
      count := by
        rw [htable]
        exact hlength
      text := content?_snapshot htext
      prefixes := content?_snapshot hprefixes
      mnemonic := content?_snapshot hmnemonic
      comment := content?_snapshot hcomment
      operand := fun _ => hi.get?_dupe hdupe
      references := hi.references_dupe hdupe
      reference? := hi.reference?_dupe hdupe
      display := hi.display_dupe hdupe
      layout := by rw [hparts]
      growable := hbounded
      slotCount := by
        rw [htable, ← hlength]
        exact List.length_map _
      occupied := hi.occupied_dupe hdupe
      dupe_eq := hi.dupe_dupe hdupe }

/-- The copy of a fixed instruction that has grown, was cleared and was filled in again. -/
theorem faithfulCopy_of_regrown_buffer :
    let i := ((blank ⟨8, 4, 1, 8⟩).run
      [.nextOperand [.setText "eax"], .commitNext, .addOperand .empty, .clear, .setText "ret",
        .addPrefix "rep", .nextOperand [.setText "ebx"], .commitNext,
        .setReference .source ⟨0⟩]).2
    ∃ copy, Reachable i ∧ i.dupe = .ok copy ∧ copy ≠ i ∧ FaithfulCopy i copy := by
  intro i
  have hmade : Reachable (blank ⟨8, 4, 1, 8⟩) := .ofLayout (l := ⟨8, 4, 1, 8⟩) rfl
  have hreachable : Reachable i := hmade.run _
  have hok : i.dupe.isOk = true := by decide
  cases hdupe : i.dupe with
  | error e =>
      rw [hdupe] at hok
      cases hok
  | ok copy =>
      refine ⟨copy, hreachable, rfl, ?_, faithfulCopy_of_reachable hreachable hdupe⟩
      intro hsame
      have hlayout := (faithfulCopy_of_reachable hreachable hdupe).layout
      rw [hsame] at hlayout
      cases hlayout

end Instruction
end Disassembly
