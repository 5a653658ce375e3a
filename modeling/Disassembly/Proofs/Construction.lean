import Disassembly.Proofs.Table
import Disassembly.Proofs.Text

/-!
# What the constructors make

Each way of making an instruction succeeds only when all of its reservations do. The
lemmas of this module say what the instruction is in that case.
-/

namespace Disassembly

/-!
# Computations that may fail
-/

theorem exists_of_bind_eq_ok {α β ε : Type} {x : Except ε α} {f : α → Except ε β} {b : β}
    (h : x >>= f = .ok b) : ∃ a, x = .ok a ∧ f a = .ok b := by
  cases x with
  | error e => cases h
  | ok a => exact ⟨a, rfl, h⟩

theorem map_bind_except {α β γ ε : Type} (f : β → γ) (x : Except ε α) (g : α → Except ε β) :
    (x >>= g).map f = x >>= fun a => (g a).map f := by
  cases x with
  | error e => rfl
  | ok a => rfl

theorem mapM_eq_ok_iff {α β ε : Type} {f : α → Except ε β} {xs : List α} {ys : List β} :
    xs.mapM f = .ok ys ↔ xs.map f = ys.map .ok := by
  induction xs generalizing ys with
  | nil => cases ys <;> simp [pure, Except.pure]
  | cons x rest ih =>
      rw [List.mapM_cons]
      cases hx : f x with
      | error e => cases ys <;> simp [bind, Except.bind, hx]
      | ok y =>
          cases hrest : rest.mapM f with
          | error e =>
              -- no list of results fits the rest, hence none fits the whole
              cases ys with
              | nil => simp [bind, Except.bind]
              | cons z zs =>
                  have hne : rest.map f ≠ zs.map .ok := by
                    intro hmap
                    rw [ih.mpr hmap] at hrest
                    cases hrest
                  simp [bind, Except.bind, hne]
          | ok tail =>
              have htail := ih.mp hrest
              cases ys with
              | nil => simp [bind, Except.bind, pure, Except.pure]
              | cons z zs =>
                  have hinj : tail.map (Except.ok (ε := ε)) = zs.map .ok ↔ tail = zs :=
                    List.map_inj_right fun a b hab => Except.ok.inj hab
                  simp [bind, Except.bind, pure, Except.pure, hx, htail, hinj]

/-!
# Operands and tables
-/

namespace Operand

theorem withCapacity_eq_ok {capacity : Nat} {o : Operand} (h : withCapacity capacity = .ok o) :
    o = { text := .bounded { capacity } } := by
  unfold withCapacity at h
  cases htext : Text.withCapacity capacity with
  | error e => simp [htext] at h
  | ok t =>
      simp only [htext, Except.ok.injEq] at h
      rw [← h, (Text.withCapacity_eq_ok htext).1]

end Operand

namespace OperandTable

theorem withSlots_eq_ok {n : Nat} {t : OperandTable} (h : withSlots n = .ok t) :
    t = { slots := List.replicate n none } ∧ n < Storage.limit := by
  unfold withSlots at h
  split at h
  · rename_i hlimit
    cases h
    exact ⟨rfl, hlimit⟩
  · cases h

theorem fillSlots_eq_ok {n capacity : Nat} {u : OperandTable}
    (h : fillSlots { slots := List.replicate n none } capacity = .ok u) :
    u = { slots := List.replicate n (some { text := .bounded { capacity } }) } := by
  unfold fillSlots at h
  split at h
  · rename_i hnone
    cases h
    have hn : n = 0 := by simpa using hnone
    simp [hn]
  · cases hblank : Operand.withCapacity capacity with
    | error e => simp [hblank] at h
    | ok blank =>
        simp only [hblank, Except.ok.injEq] at h
        rw [← h, Operand.withCapacity_eq_ok hblank]
        simp

def full (operands : List Operand) : OperandTable := ⟨operands.map some, operands.length⟩

theorem fillCopies_eq_ok {n : Nat} {slots u : OperandTable} {originals : List Operand}
    (hslots : withSlots n = .ok slots) (hn : originals.length = n)
    (h : slots.fillCopies originals = .ok u) :
    ∃ copies : List Operand, originals.map Operand.dupe = copies.map .ok ∧ u = full copies := by
  rcases withSlots_eq_ok hslots with ⟨rfl, _⟩
  unfold fillCopies at h
  simp only [List.length_replicate, ← hn, List.take_length] at h
  cases hcopies : originals.mapM Operand.dupe with
  | error e => simp [hcopies] at h
  | ok copies =>
      have hmap := mapM_eq_ok_iff.mp hcopies
      have hlength : originals.length = copies.length := by
        simpa using congrArg List.length hmap
      simp only [hcopies, Except.ok.injEq] at h
      refine ⟨copies, hmap, ?_⟩
      rw [← h, hlength]
      simp [full]

end OperandTable

/-!
# Instructions
-/

namespace Instruction

theorem withSlots_eq_ok {n : Nat} {i : Instruction} (h : withSlots n = .ok i) :
    i = { operands := { slots := List.replicate n none } } ∧ n < Storage.limit := by
  rcases exists_of_bind_eq_ok h with ⟨operands, hoperands, hmade⟩
  rcases OperandTable.withSlots_eq_ok hoperands with ⟨rfl, hlimit⟩
  cases hmade
  exact ⟨rfl, hlimit⟩

theorem ofLayout_parts {l : Layout} {i : Instruction} (h : ofLayout l = .ok i) :
    TextField.withCapacity .instructionText l.textSize.toNat = .ok i.text ∧
      TextField.withCapacity .prefixes l.prefixesSize.toNat = .ok i.prefixes ∧
      TextField.withCapacity .mnemonic l.mnemonicSize.toNat = .ok i.mnemonic ∧
      TextField.withCapacity .comment l.textSize.toNat = .ok i.comment ∧
      l.operandCount.toNat < Storage.limit ∧
      i.operands =
        { slots := List.replicate l.operandCount.toNat
            (some { text := .bounded { capacity := l.operandTextSize.toNat } }) } ∧
      i =
        { text := i.text
          prefixes := i.prefixes
          mnemonic := i.mnemonic
          comment := i.comment
          operands := i.operands
          layout := some l } := by
  rcases exists_of_bind_eq_ok h with ⟨slots, hslots, h⟩
  rcases exists_of_bind_eq_ok h with ⟨text, htext, h⟩
  rcases exists_of_bind_eq_ok h with ⟨prefixes, hprefixes, h⟩
  rcases exists_of_bind_eq_ok h with ⟨mnemonic, hmnemonic, h⟩
  rcases exists_of_bind_eq_ok h with ⟨comment, hcomment, h⟩
  rcases exists_of_bind_eq_ok h with ⟨operands, hoperands, hmade⟩
  rcases OperandTable.withSlots_eq_ok hslots with ⟨rfl, hlimit⟩
  cases hmade
  exact ⟨htext, hprefixes, hmnemonic, hcomment, hlimit,
    OperandTable.fillSlots_eq_ok hoperands, rfl⟩

def blank (l : Layout) : Instruction where
  text := some (.bounded { capacity := l.textSize.toNat })
  prefixes := some (.bounded { capacity := l.prefixesSize.toNat })
  mnemonic := some (.bounded { capacity := l.mnemonicSize.toNat })
  comment := some (.bounded { capacity := l.textSize.toNat })
  operands :=
    { slots := List.replicate l.operandCount.toNat
        (some { text := .bounded { capacity := l.operandTextSize.toNat } }) }
  layout := some l

theorem ofLayout_eq_ok {l : Layout} {i : Instruction} (h : ofLayout l = .ok i) : i = blank l := by
  rcases ofLayout_parts h with ⟨htext, hprefixes, hmnemonic, hcomment, _, htable, hmade⟩
  rw [hmade, TextField.withCapacity_eq_ok htext, TextField.withCapacity_eq_ok hprefixes,
    TextField.withCapacity_eq_ok hmnemonic, TextField.withCapacity_eq_ok hcomment, htable]
  rfl

theorem dupe_eq_ok {i copy : Instruction} (h : i.dupe = .ok copy) :
    ∃ slots : OperandTable,
      OperandTable.withSlots i.operands.count = .ok slots ∧
      slots.fillCopies i.operands.toList = .ok copy.operands ∧
      TextField.snapshot .instructionText i.text = .ok copy.text ∧
      TextField.snapshot .prefixes i.prefixes = .ok copy.prefixes ∧
      TextField.snapshot .mnemonic i.mnemonic = .ok copy.mnemonic ∧
      TextField.snapshot .comment i.comment = .ok copy.comment ∧
      copy =
        { i with
          text := copy.text
          prefixes := copy.prefixes
          mnemonic := copy.mnemonic
          comment := copy.comment
          operands := copy.operands
          prefixCount := if i.prefixes.isSome then i.prefixCount else 0
          references := i.references.filter fun ref => ref.index < copy.operands.count
          layout := none } := by
  rcases exists_of_bind_eq_ok h with ⟨slots, hslots, h⟩
  rcases exists_of_bind_eq_ok h with ⟨text, htext, h⟩
  rcases exists_of_bind_eq_ok h with ⟨prefixes, hprefixes, h⟩
  rcases exists_of_bind_eq_ok h with ⟨mnemonic, hmnemonic, h⟩
  rcases exists_of_bind_eq_ok h with ⟨comment, hcomment, h⟩
  rcases exists_of_bind_eq_ok h with ⟨operands, hoperands, hmade⟩
  cases hmade
  exact ⟨slots, hslots, hoperands, htext, hprefixes, hmnemonic, hcomment, rfl⟩

end Instruction
end Disassembly
