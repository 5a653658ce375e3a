import Disassembly.Proofs.Table
import Disassembly.Proofs.Text

/-!
# What an operation does to each part

`state_perform` says once what every operation leaves behind, and `Exchange` what the
operations on operands answer. What this means for the parts of an instruction is read
off.
-/

namespace Disassembly

/-!
# Writes
-/

namespace TextField

inductive Write (field : TextField) : TextField → Prop where
  | keep : Write field field
  | assign (s : String) : Write field (assign field s).state
  | append (separator token : String) : Write field (append field separator token).state
  | clear : Write field (clear field)

theorem Sound.write {field after : TextField} (h : Sound field) (hwrite : Write field after) :
    Sound after := by
  cases hwrite with
  | keep => exact h
  | assign s => exact h.assign s
  | append separator token => exact h.append separator token
  | clear => exact h.clear

def Growable (field : TextField) : Prop := ∀ t, field = some t → t.capacity? = none

namespace Growable

variable {field : TextField}

theorem create (s : String) : Growable (create s).state := by
  unfold TextField.create
  intro t ht
  cases hcopy : Text.copyOf s with
  | error e =>
      rw [hcopy] at ht
      cases ht
  | ok copy =>
      rw [hcopy] at ht
      cases ht
      exact Text.capacity?_of_isBounded (Text.copyOf_eq_ok hcopy).2

theorem write {after : TextField} (h : Growable field) (hwrite : Write field after) :
    Growable after := by
  cases hwrite with
  | keep => exact h
  | assign s =>
      cases field with
      | none => exact create s
      | some t =>
          intro u hu
          cases hu
          rw [Text.capacity?_set]
          exact h t rfl
  | append separator token =>
      cases field with
      | none =>
          by_cases htoken : token = ""
          · simpa [append, htoken] using h
          · simpa [append, htoken] using create token
      | some t =>
          intro u hu
          cases hu
          rw [Text.capacity?_append]
          exact h t rfl
  | clear =>
      cases field with
      | none => exact h
      | some t =>
          intro u hu
          cases hu
          rw [Text.capacity?_clear]
          exact h t rfl

end Growable
end TextField

namespace Instruction

open TextField

/-!
# The instruction after an operation
-/

theorem state_perform (i : Instruction) (operation : Operation) :
    (i.perform operation).2 =
      match operation with
      | .setStatus status => { i with status }
      | .mark stages => { i with status := i.status ∪ stages }
      | .setText s => { i with text := (assign i.text s).state }
      | .setOffset offset => { i with offset }
      | .setAddress address => { i with address }
      | .setSize size => { i with size }
      | .setBytes bytes => { i with bytes }
      | .addPrefix token => (i.addPrefix token).state
      | .setMnemonic s => { i with mnemonic := (assign i.mnemonic s).state }
      | .setCategory category => { i with category }
      | .setIsa isa => { i with isa }
      | .addComment entry =>
          { i with comment := (append i.comment i.commentSeparator entry).state }
      | .setReference role ref =>
          { i with
            references := if i.isValid ref then i.references.set role (some ref)
              else i.references }
      | .clear => i.clear
      | _ => { i with operands := i.operands.afterOperation operation } := by
  cases operation with
  | addOperand o =>
      simp only [perform, addOperand, OperandTable.afterOperation]
      cases i.operands.push? o with
      | none => rfl
      | some u => rfl
  | nextOperand edits =>
      simp only [perform, Instruction.nextOperand, OperandTable.afterOperation]
      cases i.operands.waiting? with
      | none => rfl
      | some o =>
          simp only [putNext, OperandTable.count_place, OperandTable.place_place]
  | commitNext =>
      simp only [perform, Instruction.commitNext, OperandTable.afterOperation]
      cases i.operands.commit? with
      | none => rfl
      | some u => rfl
  | editOperand index edits =>
      simp only [perform, OperandTable.afterOperation]
      cases i.operands.get? index with
      | none => rfl
      | some o => rfl
  | setReference role ref =>
      simp only [perform, answer, setReference]
      cases i.isValid ref with
      | false => rfl
      | true => rfl
  | _ => rfl

/-!
# The parts of the instruction
-/

theorem operands_perform (i : Instruction) (operation : Operation) :
    (i.perform operation).2.operands = i.operands.afterOperation operation := by
  rw [state_perform]
  cases operation <;> rfl

theorem references_perform (i : Instruction) (operation : Operation) :
    (i.perform operation).2.references =
      match operation with
      | .setReference role ref =>
          if i.isValid ref then i.references.set role (some ref) else i.references
      | .clear => {}
      | _ => i.references := by
  rw [state_perform]
  cases operation <;> rfl

theorem layout_perform (i : Instruction) (operation : Operation) :
    (i.perform operation).2.layout = i.layout := by
  rw [state_perform]
  cases operation <;> rfl

theorem address_perform (i : Instruction) (operation : Operation) :
    (i.perform operation).2.address =
      match operation with
      | .setAddress address => address
      | _ => i.address := by
  rw [state_perform]
  cases operation <;> rfl

theorem write_text (i : Instruction) (operation : Operation) :
    Write i.text (i.perform operation).2.text := by
  rw [state_perform]
  cases operation with
  | setText s => exact .assign s
  | clear => exact .clear
  | _ => exact .keep

theorem write_prefixes (i : Instruction) (operation : Operation) :
    Write i.prefixes (i.perform operation).2.prefixes := by
  rw [state_perform]
  cases operation with
  | addPrefix token => exact .append " " token
  | clear => exact .clear
  | _ => exact .keep

theorem write_mnemonic (i : Instruction) (operation : Operation) :
    Write i.mnemonic (i.perform operation).2.mnemonic := by
  rw [state_perform]
  cases operation with
  | setMnemonic s => exact .assign s
  | clear => exact .clear
  | _ => exact .keep

theorem write_comment (i : Instruction) (operation : Operation) :
    Write i.comment (i.perform operation).2.comment := by
  rw [state_perform]
  cases operation with
  | addComment entry => exact .append i.commentSeparator entry
  | clear => exact .clear
  | _ => exact .keep

/-!
# Requests and answers
-/

def Operation.concernsOperands : Operation → Bool
  | .addOperand _ => true
  | .nextOperand _ => true
  | .commitNext => true
  | .editOperand _ _ => true
  | .clear => true
  | _ => false

/-- What an operation on an instruction with the table `t` answers, and the table after it. -/
inductive Exchange (t : OperandTable) : Operation → Response → OperandTable → Prop where
  | push {o : Operand} {u : OperandTable} (hpush : t.push? o = some u) :
      Exchange t (.addOperand o) (.placed ⟨t.count⟩) u
  | noStorage {o : Operand} {e : AddOperandError} (hpush : t.push? o = none) :
      Exchange t (.addOperand o) (.notAdded e) t
  | handOut {edits : List Operand.Edit} {o : Operand} (hwaiting : t.waiting? = some o) :
      Exchange t (.nextOperand edits) (.handedOut o.clear (o.clear.editAll edits).1)
        (t.place t.count (o.clear.editAll edits).2)
  | noneWaits {edits : List Operand.Edit} (hwaiting : t.waiting? = none) :
      Exchange t (.nextOperand edits) .noOperand t
  | commit {u : OperandTable} (hcommit : t.commit? = some u) :
      Exchange t .commitNext (.placed ⟨t.count⟩) u
  | noCommit (hcommit : t.commit? = none) : Exchange t .commitNext .noOperand t
  | edit {index : Nat} {edits : List Operand.Edit} {o : Operand} (hget : t.get? index = some o) :
      Exchange t (.editOperand index edits) (.edited (o.editAll edits).1)
        (t.place index (o.editAll edits).2)
  | noEdit {index : Nat} {edits : List Operand.Edit} (hget : t.get? index = none) :
      Exchange t (.editOperand index edits) .noOperand t
  | clear : Exchange t .clear .done t.clear
  | aside {operation : Operation} {response : Response}
      (haside : operation.concernsOperands = false) (hplaced : ∀ ref, response ≠ .placed ref) :
      Exchange t operation response t

theorem Response.ofResult_ne_placed (result : Except Error Unit) (ref : OperandRef) :
    Response.ofResult result ≠ .placed ref := by
  cases result <;> simp [Response.ofResult]

theorem exchange_perform (i : Instruction) (operation : Operation) :
    Exchange i.operands operation (i.perform operation).1 (i.perform operation).2.operands := by
  rw [operands_perform]
  cases operation with
  | addOperand o =>
      simp only [perform, addOperand, OperandTable.afterOperation]
      cases hpush : i.operands.push? o with
      | none => exact .noStorage hpush
      | some u => exact .push hpush
  | nextOperand edits =>
      simp only [perform, Instruction.nextOperand, OperandTable.afterOperation]
      cases hwaiting : i.operands.waiting? with
      | none => exact .noneWaits hwaiting
      | some o => exact .handOut hwaiting
  | commitNext =>
      simp only [perform, Instruction.commitNext, OperandTable.afterOperation]
      cases hcommit : i.operands.commit? with
      | none => exact .noCommit hcommit
      | some u => exact .commit hcommit
  | editOperand index edits =>
      simp only [perform, OperandTable.afterOperation]
      cases hget : i.operands.get? index with
      | none => exact .noEdit hget
      | some o => exact .edit hget
  | clear => exact .clear
  | setText s => exact .aside rfl (Response.ofResult_ne_placed _)
  | addPrefix token => exact .aside rfl (Response.ofResult_ne_placed _)
  | setMnemonic s => exact .aside rfl (Response.ofResult_ne_placed _)
  | addComment entry => exact .aside rfl (Response.ofResult_ne_placed _)
  | setReference role ref => exact .aside rfl (Response.ofResult_ne_placed _)
  | _ =>
      refine .aside rfl ?_
      intro ref hplaced
      cases hplaced

end Instruction
end Disassembly
