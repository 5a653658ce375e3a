import Disassembly.Proofs.Collection
import Disassembly.Proofs.Regime
import Disassembly.Proofs.Reuse

/-!
# Clearing is as good as making anew

A growable instruction that was used keeps more storage than a new one: its texts are
set, and its slots hold operands that are no longer counted. None of this shows as long
as operands are added from outside, apart from where the instruction lies.
-/

namespace Disassembly

open Instruction

/-!
# Growable writes
-/

/-- A write that is to change the content from `kept` to `wanted` by storing `added`. It is refused
only if there is no storage for the wanted content. -/
structure Stores (kept wanted added : String) (result : Except StorageError Nat)
    (content : String) : Prop where
  result_eq : result =
    if wanted.utf8ByteSize < Storage.limit then .ok added.utf8ByteSize
    else .error ⟨added.utf8ByteSize⟩
  content_eq : content = if wanted.utf8ByteSize < Storage.limit then wanted else kept

theorem Stores.unique {kept wanted added content other : String}
    {result otherResult : Except StorageError Nat} (h : Stores kept wanted added result content)
    (hother : Stores kept wanted added otherResult other) :
    result = otherResult ∧ content = other :=
  ⟨h.result_eq.trans hother.result_eq.symm, h.content_eq.trans hother.content_eq.symm⟩

namespace GrowableText

theorem stores_set (t : GrowableText) (s : String) :
    Stores t.content s s (t.set s).result (t.set s).state.content := by
  rw [set, copyOf_eq]
  rcases Nat.lt_or_ge s.utf8ByteSize Storage.limit with hfits | hover
  · rw [if_pos hfits]
    exact ⟨(if_pos hfits).symm, (if_pos hfits).symm⟩
  · rw [if_neg (Nat.not_lt.mpr hover)]
    exact ⟨(if_neg (Nat.not_lt.mpr hover)).symm, (if_neg (Nat.not_lt.mpr hover)).symm⟩

theorem stores_push {t : GrowableText} (h : t.Sound) (s : String) :
    Stores t.content (t.content ++ s) s (t.push s).result (t.push s).state.content := by
  have hgrow : Storage.grow? t.capacity t.size s.utf8ByteSize = none ↔
      ¬(t.content ++ s).utf8ByteSize < Storage.limit := by
    rw [Storage.grow?_eq_none_iff, String.utf8ByteSize_append, Nat.not_lt]
    constructor
    · exact And.right
    · intro hlimit
      exact ⟨Nat.lt_of_lt_of_le h.2 hlimit, hlimit⟩
  unfold push
  cases hroom : Storage.grow? t.capacity t.size s.utf8ByteSize with
  | none =>
      rw [hroom] at hgrow
      have hover := hgrow.mp rfl
      exact ⟨(if_neg hover).symm, (if_neg hover).symm⟩
  | some room =>
      rw [hroom] at hgrow
      have hfits := not_not.mp fun hover => Option.some_ne_none room (hgrow.mpr hover)
      exact ⟨(if_pos hfits).symm, (if_pos hfits).symm⟩

theorem stores_append {t : GrowableText} (h : t.Sound) (separator token : String) :
    Stores t.content (t.content ++ piece t.content separator token)
      (piece t.content separator token) (t.append separator token).result
      (t.append separator token).state.content := by
  unfold append piece
  by_cases htoken : token = ""
  · have hfits : (t.content ++ "").utf8ByteSize < Storage.limit := by
      rw [String.append_empty]
      exact Nat.lt_of_le_of_lt h.1 h.2
    rw [if_pos htoken, if_pos htoken]
    exact ⟨(if_pos hfits).symm, by rw [if_pos hfits, String.append_empty]; rfl⟩
  · rw [if_neg htoken, if_neg htoken]
    split
    · exact stores_push h token
    · exact stores_push h (separator ++ token)

end GrowableText

/-!
# Similar text fields
-/

namespace TextField

theorem stores_create (s : String) :
    Stores "" s s (create s).result (content (create s).state) := by
  rw [create, Text.copyOf, GrowableText.copyOf_eq]
  rcases Nat.lt_or_ge s.utf8ByteSize Storage.limit with hfits | hover
  · rw [if_pos hfits]
    exact ⟨(if_pos hfits).symm, (if_pos hfits).symm⟩
  · rw [if_neg (Nat.not_lt.mpr hover)]
    exact ⟨(if_neg (Nat.not_lt.mpr hover)).symm, (if_neg (Nat.not_lt.mpr hover)).symm⟩

theorem Growable.stores_assign {field : TextField} (h : Growable field) (s : String) :
    Stores (content field) s s (assign field s).result (content (assign field s).state) := by
  cases field with
  | none => exact stores_create s
  | some t =>
      cases t with
      | growable t => exact t.stores_set s
      | bounded t => cases h _ rfl

theorem Growable.stores_append {field : TextField} (h : Growable field) (hsound : Sound field)
    (separator token : String) :
    Stores (content field) (content field ++ GrowableText.piece (content field) separator token)
      (GrowableText.piece (content field) separator token) (append field separator token).result
      (content (append field separator token).state) := by
  cases field with
  | none =>
      by_cases htoken : token = ""
      · subst htoken
        exact ⟨rfl, rfl⟩
      · have hpiece : GrowableText.piece (content none) separator token = token := by
          simp [GrowableText.piece, htoken, content, content?]
        have happend : append none separator token = TextField.create token := if_neg htoken
        rw [hpiece, happend]
        have hstores := stores_create token
        simpa [content, content?] using hstores
  | some t =>
      cases t with
      | growable t => exact GrowableText.stores_append (hsound _ rfl) separator token
      | bounded t => cases h _ rfl

def capacity? (field : TextField) : Option Nat := field.bind Text.capacity?

theorem growable_iff {field : TextField} : Growable field ↔ capacity? field = none := by
  cases field with
  | none => simp [Growable, capacity?]
  | some t => simp [Growable, capacity?]

theorem Write.capacity?_eq {field after : TextField} (h : Write field after) :
    capacity? after = capacity? field := by
  cases hcapacity : capacity? field with
  | none => exact growable_iff.mp ((growable_iff.mpr hcapacity).write h)
  | some n =>
      cases field with
      | none => cases hcapacity
      | some t =>
          rw [← hcapacity]
          cases h with
          | keep => rfl
          | assign s => exact Text.capacity?_set t s
          | append separator token => exact Text.capacity?_append t separator token
          | clear => exact Text.capacity?_clear t

/-- Fields that no write tells apart: they say the same, and a field that is bounded is bounded
alike. -/
structure Similar (f g : TextField) : Prop where
  content_eq : content f = content g
  capacity?_eq : capacity? f = capacity? g
  left : Sound f
  right : Sound g

namespace Similar

variable {f g : TextField}

theorem bounded_or_growable (h : Similar f g) :
    (f = g ∧ ∃ t, f = some (.bounded t)) ∨ (Growable f ∧ Growable g) := by
  cases hcapacity : capacity? f with
  | none =>
      apply Or.inr
      exact ⟨growable_iff.mpr hcapacity, growable_iff.mpr (h.capacity?_eq ▸ hcapacity)⟩
  | some n =>
      apply Or.inl
      have hother := h.capacity?_eq ▸ hcapacity
      rcases Option.bind_eq_some_iff.mp hcapacity with ⟨t, rfl, ht⟩
      rcases Option.bind_eq_some_iff.mp hother with ⟨u, rfl, hu⟩
      cases t with
      | growable t => cases ht
      | bounded t =>
          cases u with
          | growable u => cases hu
          | bounded u =>
              have hcontent : t.content = u.content := h.content_eq
              have hroom : t.capacity = u.capacity := Option.some.inj (ht.trans hu.symm)
              cases t
              cases u
              cases hcontent
              cases hroom
              exact ⟨rfl, _, rfl⟩

theorem write (h : Similar f g) {f' g' : TextField} (hf : Write f f') (hg : Write g g')
    (hcontent : content f' = content g') : Similar f' g' where
  content_eq := hcontent
  capacity?_eq := hf.capacity?_eq.trans (h.capacity?_eq.trans hg.capacity?_eq.symm)
  left := h.left.write hf
  right := h.right.write hg

theorem assign (h : Similar f g) (s : String) :
    (TextField.assign f s).result = (TextField.assign g s).result ∧
      Similar (TextField.assign f s).state (TextField.assign g s).state := by
  rcases h.bounded_or_growable with ⟨rfl, _⟩ | ⟨hf, hg⟩
  · exact ⟨rfl, h.write (.assign s) (.assign s) rfl⟩
  · have hstores := hf.stores_assign s
    rw [h.content_eq] at hstores
    rcases hstores.unique (hg.stores_assign s) with ⟨hresult, hcontent⟩
    exact ⟨hresult, h.write (.assign s) (.assign s) hcontent⟩

theorem append (h : Similar f g) (separator token : String) :
    (TextField.append f separator token).result = (TextField.append g separator token).result ∧
      Similar (TextField.append f separator token).state
        (TextField.append g separator token).state := by
  rcases h.bounded_or_growable with ⟨rfl, _⟩ | ⟨hf, hg⟩
  · exact ⟨rfl, h.write (.append separator token) (.append separator token) rfl⟩
  · have hstores := hf.stores_append h.left separator token
    rw [h.content_eq] at hstores
    rcases hstores.unique (hg.stores_append h.right separator token) with ⟨hresult, hcontent⟩
    exact ⟨hresult, h.write (.append separator token) (.append separator token) hcontent⟩

theorem clear (h : Similar f g) : Similar (TextField.clear f) (TextField.clear g) := by
  apply h.write .clear .clear
  rw [content_clear, content_clear]

end Similar
end TextField

/-!
# Tables with more slots
-/

namespace OperandTable

/-- The tables have the same operands. The first one may have more slots, and anything in those that
are not counted. -/
structure Covers (s t : OperandTable) : Prop where
  count : s.count = t.count
  decoded : ∀ index, index < s.count → s.slots[index]? = t.slots[index]?
  length_le : t.slots.length ≤ s.slots.length
  left : s.Sound
  right : t.Sound

theorem Sound.push_eq_none_iff {t : OperandTable} (h : t.Sound) (o : Operand) :
    t.push? o = none ↔ t.count + 1 = Storage.limit := by
  have hcount := h.packed.count_le
  have hlength := h.length_lt
  constructor
  · intro hnone
    have hfull := limit_le_of_push_eq_none hnone
    omega
  · intro hlimit
    unfold push?
    rw [if_neg (by omega), if_neg (by omega)]

theorem Sound.length_of_count {t : OperandTable} (h : t.Sound)
    (hcount : t.count + 1 = Storage.limit) : t.slots.length = t.count := by
  have hle := h.packed.count_le
  have hlength := h.length_lt
  omega

namespace Covers

variable {s t : OperandTable}

theorem get?_eq (h : Covers s t) (index : Nat) : s.get? index = t.get? index := by
  unfold get?
  rw [← h.count]
  split
  · rename_i hindex
    rw [h.decoded index hindex]
  · rfl

theorem toList_eq (h : Covers s t) : s.toList = t.toList := by
  apply List.ext_getElem?
  intro index
  rw [h.left.packed.getElem?_toList, h.right.packed.getElem?_toList, h.get?_eq]

theorem pushed (h : Covers s t) {o : Operand} {u v : OperandTable} (hs : s.push? o = some u)
    (ht : t.push? o = some v) : Covers u v where
  count := by rw [count_push hs, count_push ht, h.count]
  decoded := by
    intro index hindex
    rw [h.left.packed.getElem?_push hs, h.right.packed.getElem?_push ht, h.count]
    split
    · rfl
    · rename_i hne
      rw [count_push hs, h.count] at hindex
      apply h.decoded
      rw [h.count]
      exact Nat.lt_of_le_of_ne (Nat.le_of_lt_succ hindex) hne
  length_le := by
    have hle := h.length_le
    have hcounted := h.left.packed.count_le
    have hother := h.right.packed.count_le
    rw [length_push hs h.left.packed, length_push ht h.right.packed, h.count]
    rw [h.count] at hcounted
    split
    · split
      · omega
      · omega
    · split
      · omega
      · omega
  left := ⟨h.left.packed.push hs, length_push_lt h.left.length_lt hs⟩
  right := ⟨h.right.packed.push ht, length_push_lt h.right.length_lt ht⟩

theorem push (h : Covers s t) (o : Operand) :
    (s.push? o = none ∧ t.push? o = none ∧ s.slots.length = t.slots.length) ∨
      ∃ u v, s.push? o = some u ∧ t.push? o = some v ∧ Covers u v := by
  have hsame : s.push? o = none ↔ t.push? o = none := by
    rw [h.left.push_eq_none_iff, h.right.push_eq_none_iff, h.count]
  cases hs : s.push? o with
  | none =>
      have hfull := (h.left.push_eq_none_iff o).mp hs
      apply Or.inl
      refine ⟨rfl, hsame.mp hs, ?_⟩
      rw [h.left.length_of_count hfull, h.count]
      rw [h.count] at hfull
      exact (h.right.length_of_count hfull).symm
  | some u =>
      cases ht : t.push? o with
      | none =>
          rw [hsame.mpr ht] at hs
          cases hs
      | some v => exact Or.inr ⟨u, v, rfl, rfl, h.pushed hs ht⟩

theorem place (h : Covers s t) (index : Nat) (hindex : index < s.count) (o : Operand) :
    Covers (s.place index o) (t.place index o) where
  count := h.count
  decoded := by
    intro other hother
    have hlt := Nat.lt_of_lt_of_le hindex h.left.packed.count_le
    have hlt' := Nat.lt_of_lt_of_le (h.count ▸ hindex) h.right.packed.count_le
    rw [getElem?_place, getElem?_place, h.decoded other hother]
    simp only [hlt, hlt', and_true]
  length_le := by
    rw [length_place, length_place]
    exact h.length_le
  left := ⟨h.left.packed.place index o, by simpa using h.left.length_lt⟩
  right := ⟨h.right.packed.place index o, by simpa using h.right.length_lt⟩

theorem clear (h : Covers s t) : Covers s.clear t.clear where
  count := rfl
  decoded := by
    intro index hindex
    exact absurd hindex (Nat.not_lt_zero index)
  length_le := h.length_le
  left := ⟨packed_of_count_eq_zero rfl, h.left.length_lt⟩
  right := ⟨packed_of_count_eq_zero rfl, h.right.length_lt⟩

end Covers
end OperandTable

/-!
# Operations
-/

namespace Instruction

def Operation.takesWaiting : Operation → Bool
  | .nextOperand _ => true
  | .commitNext => true
  | _ => false

/-- The instructions agree but for where they lie and how they are stored, and the first one has no
less storage. -/
structure Renews (i j : Instruction) : Prop where
  status : i.status = j.status
  text : TextField.Similar i.text j.text
  prefixCount : i.prefixCount = j.prefixCount
  prefixes : TextField.Similar i.prefixes j.prefixes
  mnemonic : TextField.Similar i.mnemonic j.mnemonic
  category : i.category = j.category
  isa : i.isa = j.isa
  comment : TextField.Similar i.comment j.comment
  operands : i.operands.Covers j.operands
  references : i.references = j.references
  layout : i.layout = j.layout

theorem answer_ofField (resource : Resource) (put : TextField → Instruction)
    (o : Outcome TextField StorageError Nat) :
    answer (ofField resource put o) =
      (.ofResult ((o.result.mapError (.ofStorage resource)).map fun _ => ()), put o.state) := rfl

namespace Renews

variable {i j : Instruction}

theorem perform (h : Renews i j) {operation : Operation}
    (hdirect : operation.takesWaiting = false) :
    (i.perform operation).1 = (j.perform operation).1 ∧
      Renews (i.perform operation).2 (j.perform operation).2 := by
  have hvalid : i.isValid = j.isValid := by
    funext ref
    rw [isValid, isValid, h.operands.count]
  cases operation with
  | setStatus status => exact ⟨rfl, { h with status := rfl }⟩
  | mark stages => exact ⟨rfl, { h with status := congrArg (· ∪ stages) h.status }⟩
  | setText s =>
      rcases h.text.assign s with ⟨hresult, hafter⟩
      simp only [Instruction.perform, setText, answer_ofField, hresult]
      exact ⟨trivial, { h with text := hafter }⟩
  | addPrefix token =>
      rcases h.prefixes.append " " token with ⟨hresult, hafter⟩
      simp only [Instruction.perform, addPrefix, answer_ofField, hresult, h.prefixCount]
      exact ⟨trivial, { h with prefixCount := rfl, prefixes := hafter }⟩
  | setMnemonic s =>
      rcases h.mnemonic.assign s with ⟨hresult, hafter⟩
      simp only [Instruction.perform, setMnemonic, answer_ofField, hresult]
      exact ⟨trivial, { h with mnemonic := hafter }⟩
  | setCategory category => exact ⟨rfl, { h with category := rfl }⟩
  | setIsa isa => exact ⟨rfl, { h with isa := rfl }⟩
  | addComment entry =>
      have hseparator : i.commentSeparator = j.commentSeparator := by
        rw [commentSeparator, commentSeparator, isFixed, isFixed, h.layout]
      rcases h.comment.append i.commentSeparator entry with ⟨hresult, hafter⟩
      rw [hseparator] at hresult hafter
      simp only [Instruction.perform, addComment, answer_ofField, hseparator, hresult]
      exact ⟨trivial, { h with comment := hafter }⟩
  | addOperand o =>
      simp only [Instruction.perform, addOperand]
      rcases h.operands.push o with ⟨hs, ht, hlength⟩ | ⟨u, v, hs, ht, hafter⟩
      · rw [hs, ht, hlength]
        exact ⟨rfl, h⟩
      · rw [hs, ht, h.operands.count]
        exact ⟨rfl, { h with operands := hafter }⟩
  | nextOperand edits => cases hdirect
  | commitNext => cases hdirect
  | editOperand index edits =>
      simp only [Instruction.perform, ← h.operands.get?_eq index]
      cases hget : i.operands.get? index with
      | none => exact ⟨rfl, h⟩
      | some o =>
          have hindex := (OperandTable.get?_eq_some_iff.mp hget).1
          exact ⟨rfl, { h with operands := h.operands.place index hindex _ }⟩
  | setReference role ref =>
      simp only [Instruction.perform, answer, setReference, hvalid, h.references,
        h.operands.count]
      cases j.isValid ref with
      | false => exact ⟨rfl, h⟩
      | true => exact ⟨rfl, { h with references := rfl }⟩
  | clear =>
      exact ⟨rfl,
        { status := rfl
          text := h.text.clear
          prefixCount := rfl
          prefixes := h.prefixes.clear
          mnemonic := h.mnemonic.clear
          category := rfl
          isa := rfl
          comment := h.comment.clear
          operands := h.operands.clear
          references := rfl
          layout := h.layout }⟩
  | _ => exact ⟨rfl, { h with }⟩

theorem run (h : Renews i j) {operations : List Operation}
    (hdirect : ∀ operation ∈ operations, operation.takesWaiting = false) :
    (i.run operations).1 = (j.run operations).1 ∧
      Renews (i.run operations).2 (j.run operations).2 := by
  induction operations generalizing i j with
  | nil => exact ⟨rfl, h⟩
  | cons first rest ih =>
      rcases List.forall_mem_cons.mp hdirect with ⟨hfirst, hrest⟩
      rcases h.perform hfirst with ⟨hresponse, hafter⟩
      rcases ih hafter hrest with ⟨hresponses, hlast⟩
      constructor
      · show (i.perform first).1 :: ((i.perform first).2.run rest).1 = _
        rw [hresponse, hresponses]
        rfl
      · exact hlast

theorem reference?_eq (h : Renews i j) : i.reference? = j.reference? := by
  funext role
  unfold reference? isValid
  rw [h.references, h.operands.count]

theorem referent?_eq (h : Renews i j) : i.referent? = j.referent? := by
  funext role
  unfold referent?
  rw [h.references]
  cases j.references.get role with
  | none => rfl
  | some ref => exact h.operands.get?_eq ref.index

theorem description?_eq (h : Renews i j) : i.description? = j.description? := by
  simp only [description?, displayParts, displayOperands, h.text.content_eq,
    h.prefixes.content_eq, h.mnemonic.content_eq, h.operands.toList_eq]

theorem display_eq (h : Renews i j) (haddress : i.address = j.address) :
    i.display = j.display :=
  display_eq_of_address_eq haddress h.description?_eq

end Renews

def Contents.unplaced (c : Contents) : Contents :=
  { c with offset := 0, address := 0, size := 0, bytes := [], display := "" }

namespace Renews

variable {i j : Instruction}

theorem unplaced_eq (h : Renews i j) : i.contents.unplaced = j.contents.unplaced := by
  simp only [contents, Contents.unplaced, h.status, h.text.content_eq, h.prefixCount,
    h.prefixes.content_eq, h.mnemonic.content_eq, h.comment.content_eq, h.category, h.isa,
    h.operands.count, h.operands.toList_eq, h.operands.get?_eq, h.reference?_eq, h.referent?_eq]

theorem contents_eq (h : Renews i j) (hoffset : i.offset = j.offset)
    (haddress : i.address = j.address) (hsize : i.size = j.size) (hbytes : i.bytes = j.bytes) :
    i.contents = j.contents := by
  simp only [contents, h.status, h.text.content_eq, hoffset, haddress, hsize, hbytes,
    h.prefixCount, h.prefixes.content_eq, h.mnemonic.content_eq, h.comment.content_eq,
    h.category, h.isa, h.operands.count, h.operands.toList_eq, h.operands.get?_eq,
    h.reference?_eq, h.referent?_eq, h.display_eq haddress]

end Renews

/-!
# Cleared and new instructions
-/

inductive IsNew : Instruction → Prop where
  | withSlots {n : Nat} {i : Instruction} : withSlots n = .ok i → IsNew i
  | ofLayout {l : Layout} {i : Instruction} : ofLayout l = .ok i → IsNew i

theorem IsNew.reachable {i : Instruction} (h : IsNew i) : Reachable i := by
  cases h with
  | withSlots hmade => exact .withSlots hmade
  | ofLayout hmade => exact .ofLayout hmade

theorem IsNew.clear_eq {i : Instruction} (h : IsNew i) : i.clear = i := by
  cases h with
  | withSlots hmade =>
      rcases withSlots_eq_ok hmade with ⟨rfl, _⟩
      rfl
  | ofLayout hmade =>
      cases ofLayout_eq_ok hmade
      rfl

theorem similar_clear_run {field : Instruction → TextField}
    (hwrite : ∀ i operation, (field i).Write (field (i.perform operation).2)) {i : Instruction}
    (hclear : TextField.clear (field i) = field i) (hsound : (field i).Sound)
    (history : List Operation) :
    TextField.Similar (TextField.clear (field (i.run history).2)) (field i) := by
  have hkept : (field (i.run history).2).capacity? = (field i).capacity? ∧
      (field (i.run history).2).Sound := by
    refine run_invariant (P := fun later =>
      (field later).capacity? = (field i).capacity? ∧ (field later).Sound) ?_ ⟨rfl, hsound⟩
    intro later operation _ ⟨hcapacity, hlater⟩
    constructor
    · exact (hwrite later operation).capacity?_eq.trans hcapacity
    · exact hlater.write (hwrite later operation)
  exact
    { content_eq := by
        rw [← hclear, TextField.content_clear, TextField.content_clear]
      capacity?_eq := TextField.Write.clear.capacity?_eq.trans hkept.1
      left := hkept.2.clear
      right := hsound }

theorem renews_of_clear_run {i : Instruction} (h : Reachable i) (hclear : i.clear = i)
    (history : List Operation) : Renews (i.run history).2.clear i := by
  have hi := h.wellFormed
  have hlater := ((h.run history).wellFormed.perform .clear).operands
  have hpart : ∀ {α : Type} (part : Instruction → α),
      part (i.run history).2.clear = part i.clear → part (i.run history).2.clear = part i :=
    fun part hsame => hsame.trans (congrArg part hclear)
  have htable : (i.run history).2.clear.operands.Covers i.operands := by
    refine ⟨hpart (fun new => new.operands.count) rfl, ?_, ?_, hlater, hi.operands⟩
    · intro index hindex
      exact absurd hindex (Nat.not_lt_zero index)
    · show i.operands.slots.length ≤ (i.run history).2.operands.slots.length
      rw [length_slots_run hi history]
      exact Nat.le_max_left _ _
  exact
    { status := hpart Instruction.status rfl
      text := similar_clear_run write_text (congrArg Instruction.text hclear) hi.text history
      prefixCount := hpart Instruction.prefixCount rfl
      prefixes :=
        similar_clear_run write_prefixes (congrArg Instruction.prefixes hclear) hi.prefixes history
      mnemonic :=
        similar_clear_run write_mnemonic (congrArg Instruction.mnemonic hclear) hi.mnemonic history
      category := hpart Instruction.category rfl
      isa := hpart Instruction.isa rfl
      comment :=
        similar_clear_run write_comment (congrArg Instruction.comment hclear) hi.comment history
      operands := htable
      references := hpart Instruction.references rfl
      layout := layout_run i history }

/-!
# Where an instruction lies
-/

/-- A part that one kind of request sets, and nothing else changes, does not depend on what was
before once it is set. -/
theorem part_run_eq {α : Type} (part : Instruction → α) {request : α → Operation}
    (hset : ∀ (i : Instruction) value, part (i.perform (request value)).2 = value)
    (hkeep : ∀ (i : Instruction) operation, (∀ value, operation ≠ request value) →
      part (i.perform operation).2 = part i)
    {front : List Operation} {value : α} (h : request value ∈ front) (i j : Instruction) :
    part (i.run front).2 = part (j.run front).2 := by
  induction front using List.reverseRecOn with
  | nil => cases h
  | append_singleton earlier last ih =>
      rw [run_concat, run_concat]
      rcases Classical.em (∃ later, last = request later) with ⟨later, rfl⟩ | hother
      · rw [hset, hset]
      · have hkept : ∀ later, last ≠ request later := fun later hlast => hother ⟨later, hlast⟩
        rw [hkeep _ _ hkept, hkeep _ _ hkept]
        rcases List.mem_append.mp h with hearlier | hlast
        · exact ih hearlier
        · exact absurd (List.mem_singleton.mp hlast).symm (hkept value)

structure Located (operations : List Operation) : Prop where
  offset : ∃ offset, .setOffset offset ∈ operations
  address : ∃ address, .setAddress address ∈ operations
  size : ∃ size, .setSize size ∈ operations
  bytes : ∃ bytes, .setBytes bytes ∈ operations

theorem Renews.contents_run_eq {front : List Operation} (hlocated : Located front)
    {i j : Instruction} (h : Renews (i.run front).2 (j.run front).2) :
    (i.run front).2.contents = (j.run front).2.contents := by
  rcases hlocated with ⟨⟨offset, hoffset⟩, ⟨address, haddress⟩, ⟨size, hsize⟩, ⟨bytes, hbytes⟩⟩
  apply h.contents_eq
  · refine part_run_eq Instruction.offset (fun _ _ => rfl) ?_ hoffset i j
    intro later operation hother
    rw [state_perform]
    cases operation with
    | setOffset value => exact absurd rfl (hother value)
    | _ => rfl
  · exact address_run_eq haddress i j
  · refine part_run_eq Instruction.size (fun _ _ => rfl) ?_ hsize i j
    intro later operation hother
    rw [state_perform]
    cases operation with
    | setSize value => exact absurd rfl (hother value)
    | _ => rfl
  · refine part_run_eq Instruction.bytes (fun _ _ => rfl) ?_ hbytes i j
    intro later operation hother
    rw [state_perform]
    cases operation with
    | setBytes value => exact absurd rfl (hother value)
    | _ => rfl

/-- An instruction that was used in any way and cleared answers a run that takes no operand from its
slots as a new one does, and says the same after each step. It has no fewer slots. The line is the
same from the step that sets the address, and everything is once it is said again where the
instruction lies. -/
theorem cleared_run_eq_new_run {new : Instruction} (hnew : IsNew new) (history : List Operation)
    {continuation : List Operation}
    (hdirect : ∀ operation ∈ continuation, operation.takesWaiting = false)
    {front : List Operation} (hfront : front <+: continuation) :
    let reused := (new.run history).2.clear
    (reused.run front).1 = (new.run front).1 ∧
      (reused.run front).2.contents.unplaced = (new.run front).2.contents.unplaced ∧
      (reused.run front).2.description? = (new.run front).2.description? ∧
      (new.run front).2.operands.slots.length ≤ (reused.run front).2.operands.slots.length ∧
      ((∃ address, .setAddress address ∈ front) →
        (reused.run front).2.display = (new.run front).2.display) ∧
      (Located front → (reused.run front).2.contents = (new.run front).2.contents) := by
  intro reused
  have hcleared : Renews reused new := renews_of_clear_run hnew.reachable hnew.clear_eq history
  rcases hcleared.run fun operation hmem => hdirect operation (hfront.subset hmem) with
    ⟨hresponses, hrenews⟩
  refine ⟨hresponses, hrenews.unplaced_eq, hrenews.description?_eq, hrenews.operands.length_le,
    ?_, hrenews.contents_run_eq⟩
  rintro ⟨address, hset⟩
  exact hrenews.display_eq (address_run_eq hset reused new)

/-- A growable instruction that has grown, with texts that were set, is filled in again. -/
theorem cleared_buffer_says_new_contents :
    let new : Instruction := { operands := { slots := [none] } }
    let history : List Operation :=
      [.setAddress 5, .setText "rep movsb", .addPrefix "rep", .addComment "string",
        .addOperand { text := .growable ⟨"[edi]", 5⟩, dataSize := 1 }, .addOperand .empty,
        .setReference .source ⟨1⟩]
    let front : List Operation :=
      [.setOffset 16, .setAddress 9, .setSize 2, .setBytes [0xf0, 0x40], .addPrefix "",
        .addPrefix "lock", .addComment "a", .addComment "b", .setReference .target ⟨0⟩,
        .addOperand { text := .growable ⟨"eax", 3⟩ }, .setReference .target ⟨0⟩]
    let reused := (new.run history).2.clear
    reused.operands.slots.length = 2 ∧ reused.prefixes = some (.growable ⟨"", 3⟩) ∧
      (reused.run front).2.contents = (new.run front).2.contents := by
  intro new history front reused
  have hdirect : ∀ operation ∈ front, operation.takesWaiting = false := by decide
  have hlocated : Located front :=
    ⟨⟨16, by decide⟩, ⟨9, by decide⟩, ⟨2, by decide⟩, ⟨[0xf0, 0x40], by decide⟩⟩
  rcases cleared_run_eq_new_run (.withSlots (n := 1) rfl) history hdirect
    (List.prefix_refl front) with ⟨_, _, _, _, _, hcontents⟩
  exact ⟨by decide, by decide, hcontents hlocated⟩

/-- Until the run sets the address, the line of a cleared instruction starts with the old one. -/
theorem display_keeps_old_address :
    ¬ ∀ (new : Instruction) (history rest front : List Operation) (offset address size : UInt64)
        (bytes : List UInt8),
        let continuation := .setOffset offset :: .setAddress address :: .setSize size ::
          .setBytes bytes :: rest
        IsNew new → (∀ operation ∈ continuation, operation.takesWaiting = false) →
          front <+: continuation →
            ((new.run history).2.clear.run front).2.display = (new.run front).2.display := by
  intro hall
  have hsame := hall { operands := { slots := [none] } } [.setAddress 5] [] [.setOffset 16] 16 9 2
    [0xeb, 0] (.withSlots (n := 1) rfl) (by decide) ⟨_, rfl⟩
  exact absurd hsame (by decide)

end Instruction
end Disassembly
