import Disassembly.Proofs.Construction
import Disassembly.Proofs.Decoding
import Disassembly.Proofs.Step
import Mathlib.Data.List.Infix

/-!
# Growable and fixed instructions agree

A growable instruction stores everything or refuses, a fixed one stores what fits. As
long as nothing is refused and everything fits, a decoder cannot tell which of the two
it fills in. The slots of the one are empty at first, those of the other hold operands
that wait for their text.
-/

namespace Disassembly

open Instruction

/-!
# Texts
-/

namespace Text

theorem set_of_lt_limit {t : Text} (hgrowable : t.capacity? = none) {s : String}
    (hlimit : s.utf8ByteSize < Storage.limit) :
    t.set s = .done (.growable ⟨s, s.utf8ByteSize⟩) s.utf8ByteSize := by
  cases t with
  | bounded t => cases hgrowable
  | growable t =>
      simp only [set, GrowableText.set, GrowableText.copyOf_eq, if_pos hlimit]
      rfl

theorem lt_limit_of_set {t : Text} (hgrowable : t.capacity? = none) {s : String} {n : Nat}
    (h : (t.set s).result = .ok n) : s.utf8ByteSize < Storage.limit := by
  cases t with
  | bounded t => cases hgrowable
  | growable t =>
      by_cases hlimit : s.utf8ByteSize < Storage.limit
      · exact hlimit
      · simp [set, GrowableText.set, GrowableText.copyOf_eq, hlimit] at h

theorem set_of_fits {t : Text} {capacity : Nat}
    (hcapacity : ∀ n, t.capacity? = some n → n = capacity) {s : String}
    (hlimit : s.utf8ByteSize < Storage.limit) (hfits : s.utf8ByteSize ≤ capacity - 1) :
    (t.set s).result = .ok s.utf8ByteSize ∧ (t.set s).state.content = s := by
  cases t with
  | growable t =>
      rw [set_of_lt_limit rfl hlimit]
      exact ⟨rfl, rfl⟩
  | bounded t =>
      have hroom : s.utf8ByteSize ≤ t.limit := by
        rw [BoundedText.limit, hcapacity t.capacity rfl]
        exact hfits
      show Except.ok (t.set s).1 = _ ∧ (t.set s).2.content = s
      rw [BoundedText.set_of_size_le hroom]
      exact ⟨rfl, rfl⟩

end Text

/-!
# Text fields
-/

namespace TextField

namespace Growable

variable {field : TextField}

theorem assign_of_ok (h : Growable field) {s : String} {n : Nat}
    (hok : (assign field s).result = .ok n) :
    content (assign field s).state = s ∧ n = s.utf8ByteSize := by
  cases field with
  | none =>
      rcases create_of_ok hok with ⟨t, hstate, hcontent, hsize⟩
      refine ⟨?_, hsize⟩
      show content (TextField.create s).state = s
      rw [hstate]
      exact hcontent
  | some t =>
      have hset : (t.set s).result = .ok n := hok
      have hdone := Text.set_of_lt_limit (h t rfl) (Text.lt_limit_of_set (h t rfl) hset)
      rw [hdone] at hset
      cases hset
      show content ((t.set s).within some).state = s ∧ _
      rw [hdone]
      exact ⟨rfl, rfl⟩

theorem append_of_ok (h : Growable field) {separator token : String} {n : Nat}
    (hok : (append field separator token).result = .ok n) :
    content (append field separator token).state =
        content field ++ GrowableText.piece (content field) separator token ∧
      n = (GrowableText.piece (content field) separator token).utf8ByteSize := by
  cases field with
  | none =>
      by_cases htoken : token = ""
      · subst htoken
        cases hok
        exact ⟨rfl, rfl⟩
      · have hpiece : GrowableText.piece "" separator token = token := by
          simp [GrowableText.piece, htoken]
        have happend : append none separator token = TextField.create token := if_neg htoken
        rw [happend] at hok ⊢
        rcases create_of_ok hok with ⟨t, hstate, hcontent, hsize⟩
        rw [hstate]
        show t.content = "" ++ GrowableText.piece "" separator token ∧
          n = (GrowableText.piece "" separator token).utf8ByteSize
        rw [hpiece]
        exact ⟨by simp [hcontent], hsize⟩
  | some t =>
      cases t with
      | bounded t => cases h _ rfl
      | growable t => exact GrowableText.append_of_ok hok

end Growable

structure Agree (capacity : Nat) (g f : TextField) : Prop where
  growable : Growable g
  bounded : f = some (.bounded { content := content g, capacity })

namespace Agree

variable {capacity : Nat} {g f : TextField}

theorem content_eq (h : Agree capacity g f) : content f = content g := by
  rw [h.bounded]
  rfl

theorem assign (h : Agree capacity g f) {s : String} {n : Nat}
    (hok : (TextField.assign g s).result = .ok n)
    (hfits : (content (TextField.assign g s).state).utf8ByteSize ≤ capacity - 1) :
    (TextField.assign f s).result = .ok n ∧
      Agree capacity (TextField.assign g s).state (TextField.assign f s).state := by
  rcases h.growable.assign_of_ok hok with ⟨hcontent, rfl⟩
  rw [hcontent] at hfits
  have hset := BoundedText.set_of_size_le (t := { content := content g, capacity }) hfits
  rw [h.bounded]
  constructor
  · exact congrArg (fun write => Except.ok (Prod.fst write)) hset
  · refine ⟨h.growable.write (.assign s), ?_⟩
    rw [hcontent]
    exact congrArg (fun write => some (Text.bounded (Prod.snd write))) hset

theorem append (h : Agree capacity g f) {separator token : String} {n : Nat}
    (hok : (TextField.append g separator token).result = .ok n)
    (hfits : (content (TextField.append g separator token).state).utf8ByteSize ≤ capacity - 1) :
    (TextField.append f separator token).result = .ok n ∧
      Agree capacity (TextField.append g separator token).state
        (TextField.append f separator token).state := by
  rcases h.growable.append_of_ok hok with ⟨hcontent, rfl⟩
  rw [hcontent] at hfits
  have hentry := BoundedText.entry_eq_piece (t := { content := content g, capacity }) hfits
  rw [h.bounded]
  constructor
  · exact congrArg (fun entry => Except.ok (String.utf8ByteSize entry)) hentry
  · refine ⟨h.growable.write (.append separator token), ?_⟩
    rw [hcontent]
    exact congrArg (fun entry => some (Text.bounded ⟨content g ++ entry, capacity⟩)) hentry

theorem clear (h : Agree capacity g f) :
    Agree capacity (TextField.clear g) (TextField.clear f) := by
  refine ⟨h.growable.write .clear, ?_⟩
  rw [h.bounded, content_clear]
  rfl

end Agree
end TextField

/-!
# Operands
-/

namespace Operand

def Serves (capacity : Nat) (o : Operand) : Prop :=
  ∀ n, o.text.capacity? = some n → n = capacity

theorem serves_of_growable {o : Operand} (h : o.text.capacity? = none) (capacity : Nat) :
    o.Serves capacity := by
  intro n hn
  rw [h] at hn
  cases hn

theorem Serves.of_capacity?_eq {capacity : Nat} {o p : Operand} (h : o.Serves capacity)
    (heq : p.text.capacity? = o.text.capacity?) : p.Serves capacity := by
  intro n hn
  rw [heq] at hn
  exact h n hn

theorem capacity?_fill {o : Operand} {c : Contents} (h : (o.fill c).result = .ok ()) :
    (o.fill c).state.text.capacity? = o.text.capacity? := by
  rcases set_of_fill h with ⟨n, hset⟩
  rw [fill_of_set hset]
  exact Text.capacity?_set _ _

theorem fill_of_growable {o : Operand} (h : o.text.capacity? = none) {c : Contents}
    (hok : (o.fill c).result = .ok ()) :
    c.text.utf8ByteSize < Storage.limit ∧ (o.fill c).state.contents = c := by
  rcases set_of_fill hok with ⟨n, hset⟩
  have hlimit := Text.lt_limit_of_set h hset
  refine ⟨hlimit, ?_⟩
  rw [fill_of_set hset, Text.set_of_lt_limit h hlimit]
  rfl

theorem fill_of_fits {o : Operand} {capacity : Nat} (h : o.Serves capacity) {c : Contents}
    (hlimit : c.text.utf8ByteSize < Storage.limit)
    (hfits : c.text.utf8ByteSize ≤ capacity - 1) :
    (o.fill c).result = .ok () ∧ (o.fill c).state.contents = c := by
  rcases Text.set_of_fits h hlimit hfits with ⟨hset, hcontent⟩
  rw [fill_of_set hset]
  constructor
  · rfl
  · show Contents.mk (o.text.set c.text).state.content c.flags c.value c.dataSize = c
    rw [hcontent]

end Operand

/-!
# Tables
-/

namespace OperandTable

/-- Tables with operands of the same contents. In the first table no text is bounded; in the
second every slot holds an operand, with a text that is growable or of the given capacity. -/
structure Agree (capacity : Nat) (g f : OperandTable) : Prop where
  length_lt : g.slots.length < Storage.limit
  count : f.count = g.count
  decoded : ∀ index, index < g.count →
    ∃ o p, g.slots[index]? = some (some o) ∧ f.slots[index]? = some (some p) ∧
      p.contents = o.contents
  growable : ∀ (index : Nat) (o : Operand), g.slots[index]? = some (some o) →
    o.text.capacity? = none
  serves : ∀ (index : Nat) (slot : Option Operand), f.slots[index]? = some slot →
    ∃ p : Operand, slot = some p ∧ p.Serves capacity

namespace Agree

variable {capacity : Nat} {g f : OperandTable}

theorem packed_left (h : Agree capacity g f) : g.Packed := by
  intro index hindex
  rcases h.decoded index hindex with ⟨o, p, ho, hp, hsame⟩
  exact ⟨o, ho⟩

theorem packed_right (h : Agree capacity g f) : f.Packed := by
  intro index hindex
  rw [h.count] at hindex
  rcases h.decoded index hindex with ⟨o, p, ho, hp, hsame⟩
  exact ⟨p, hp⟩

theorem get?_contents (h : Agree capacity g f) (index : Nat) :
    (f.get? index).map Operand.contents = (g.get? index).map Operand.contents := by
  unfold get?
  rw [h.count]
  by_cases hindex : index < g.count
  · rcases h.decoded index hindex with ⟨o, p, ho, hp, hsame⟩
    rw [if_pos hindex, if_pos hindex, ho, hp]
    exact congrArg some hsame
  · rw [if_neg hindex, if_neg hindex]

theorem toList_contents (h : Agree capacity g f) :
    f.toList.map Operand.contents = g.toList.map Operand.contents := by
  apply List.ext_getElem?
  intro index
  rw [List.getElem?_map, List.getElem?_map, h.packed_right.getElem?_toList,
    h.packed_left.getElem?_toList, h.get?_contents]

theorem clear (h : Agree capacity g f) : Agree capacity g.clear f.clear where
  length_lt := h.length_lt
  count := rfl
  decoded := by
    intro index hindex
    exact absurd hindex (Nat.not_lt_zero index)
  growable := h.growable
  serves := h.serves

theorem nextBlank_left (h : Agree capacity g f) : g.nextBlank.text.capacity? = none := by
  unfold nextBlank
  cases hwaiting : g.waiting? with
  | none => rfl
  | some o =>
      have hgrowable := h.growable g.count o (waiting?_eq_some_iff.mp hwaiting)
      simpa using hgrowable

theorem nextBlank_right (h : Agree capacity g f) : f.nextBlank.Serves capacity := by
  unfold nextBlank
  cases hwaiting : f.waiting? with
  | none => exact Operand.serves_of_growable rfl capacity
  | some p =>
      rcases h.serves f.count (some p) (waiting?_eq_some_iff.mp hwaiting) with ⟨q, hq, hserves⟩
      cases hq
      exact hserves.of_capacity?_eq (Operand.capacity?_text_clear p)

theorem lt_limit_of_pushed (h : Agree capacity g f) {o : Operand} {u : OperandTable}
    (hpushed : Pushed g o u) : f.count + 1 < Storage.limit := by
  have hlast : u.slots[g.count]? = some (some o) := by
    rw [hpushed.getElem?, if_pos rfl]
  rcases List.getElem?_eq_some_iff.mp hlast with ⟨hlt, _⟩
  have hlength := hpushed.length_lt h.length_lt
  rw [h.count]
  omega

theorem pushed (h : Agree capacity g f) {o p : Operand} {u v : OperandTable}
    (hg : Pushed g o u) (hf : Pushed f p v) (hgrowable : o.text.capacity? = none)
    (hserves : p.Serves capacity) (hsame : p.contents = o.contents) : Agree capacity u v where
  length_lt := hg.length_lt h.length_lt
  count := by rw [hg.count, hf.count, h.count]
  decoded := by
    intro index hindex
    rw [hg.getElem?, hf.getElem?, h.count]
    rw [hg.count] at hindex
    by_cases hlast : index = g.count
    · exact ⟨o, p, if_pos hlast, if_pos hlast, hsame⟩
    · rw [if_neg hlast, if_neg hlast]
      exact h.decoded index (by omega)
  growable := by
    intro index q hq
    rw [hg.getElem?] at hq
    split at hq
    · cases hq
      exact hgrowable
    · exact h.growable index q hq
  serves := by
    intro index slot hslot
    rw [hf.getElem?] at hslot
    split at hslot
    · cases hslot
      exact ⟨p, rfl, hserves⟩
    · exact h.serves index slot hslot

end Agree
end OperandTable

/-!
# Instructions
-/

namespace Instruction

theorem answer_ofField_of_ok {resource : Resource} {put : TextField → Instruction}
    {o : Outcome TextField StorageError Nat} {n : Nat} (h : o.result = .ok n) :
    answer (ofField resource put o) = (.done, put o.state) := by
  simp only [answer, ofField, Outcome.result_map, Outcome.result_mapError, Outcome.result_within,
    Outcome.state_map, Outcome.state_mapError, Outcome.state_within, h]
  rfl

theorem answer_ofField_of_error {resource : Resource} {put : TextField → Instruction}
    {o : Outcome TextField StorageError Nat} {e : StorageError} (h : o.result = .error e) :
    answer (ofField resource put o) = (.refused (.ofStorage resource e), put o.state) := by
  simp only [answer, ofField, Outcome.result_map, Outcome.result_mapError, Outcome.result_within,
    Outcome.state_map, Outcome.state_mapError, Outcome.state_within, h]
  rfl

theorem ok_of_answer_ofField {resource : Resource} {put : TextField → Instruction}
    {o : Outcome TextField StorageError Nat}
    (h : (answer (ofField resource put o)).1.isAllocationFailure = false) :
    ∃ n, o.result = .ok n := by
  cases hresult : o.result with
  | ok n => exact ⟨n, rfl⟩
  | error e =>
      simp only [answer, ofField, Outcome.result_map, Outcome.result_mapError,
        Outcome.result_within, hresult] at h
      cases h

/-- A growable instruction, and one with bounded texts and slots for a layout, that say the
same. -/
inductive Agree (l : Layout) (g : Instruction) : Instruction → Prop where
  | mk {text prefixes mnemonic comment : TextField} {table : OperandTable}
      {layout : Option Layout}
      (htext : TextField.Agree l.textSize.toNat g.text text)
      (hprefixes : TextField.Agree l.prefixesSize.toNat g.prefixes prefixes)
      (hmnemonic : TextField.Agree l.mnemonicSize.toNat g.mnemonic mnemonic)
      (hcomment : TextField.Agree l.textSize.toNat g.comment comment)
      (htable : OperandTable.Agree l.operandTextSize.toNat g.operands table) :
      Agree l g { g with text, prefixes, mnemonic, comment, operands := table, layout }

namespace Agree

variable {l : Layout} {g f : Instruction}

theorem change (h : Agree l g f) {operation : Operation} (hdirect : operation.isDirect = true)
    (hok : (g.perform operation).1.isAllocationFailure = false)
    (hfits : Fits l (g.perform operation).2) :
    (f.perform operation).1 = (g.perform operation).1 ∧
      Agree l (g.perform operation).2 (f.perform operation).2 := by
  cases h with
  | mk htext hprefixes hmnemonic hcomment htable =>
      cases operation with
      | setText s =>
          rcases ok_of_answer_ofField hok with ⟨n, hn⟩
          rcases htext.assign hn hfits.text with ⟨hsame, hafter⟩
          simp only [perform, setText, answer_ofField_of_ok hn, answer_ofField_of_ok hsame]
          exact ⟨trivial, .mk hafter hprefixes hmnemonic hcomment htable⟩
      | setMnemonic s =>
          rcases ok_of_answer_ofField hok with ⟨n, hn⟩
          rcases hmnemonic.assign hn hfits.mnemonic with ⟨hsame, hafter⟩
          simp only [perform, setMnemonic, answer_ofField_of_ok hn, answer_ofField_of_ok hsame]
          exact ⟨trivial, .mk htext hprefixes hafter hcomment htable⟩
      | addPrefix token =>
          rcases ok_of_answer_ofField hok with ⟨n, hn⟩
          rcases hprefixes.append hn hfits.prefixes with ⟨hsame, hafter⟩
          simp only [perform, addPrefix, answer_ofField_of_ok hn, answer_ofField_of_ok hsame,
            hn, hsame]
          exact ⟨trivial, .mk htext hafter hmnemonic hcomment htable⟩
      | setReference role ref =>
          simp only [perform, setReference, isValid, htable.count]
          by_cases hvalid : ref.index < g.operands.count
          · simp only [hvalid, decide_true, if_true]
            exact ⟨rfl, .mk htext hprefixes hmnemonic hcomment htable⟩
          · simp only [hvalid, decide_false, Bool.false_eq_true, if_false]
            exact ⟨rfl, .mk htext hprefixes hmnemonic hcomment htable⟩
      | clear =>
          exact ⟨rfl, .mk htext.clear hprefixes.clear hmnemonic.clear hcomment.clear htable.clear⟩
      | addComment entry => cases hdirect
      | addOperand o => cases hdirect
      | nextOperand edits => cases hdirect
      | commitNext => cases hdirect
      | editOperand index edits => cases hdirect
      | _ => exact ⟨rfl, .mk htext hprefixes hmnemonic hcomment htable⟩

theorem pushOperand (h : Agree l g f) {c : Operand.Contents}
    (hok : (g.pushOperand c).1.isAllocationFailure = false)
    (hfits : Fits l (g.pushOperand c).2) :
    (f.pushOperand c).1 = (g.pushOperand c).1 ∧
      Agree l (g.pushOperand c).2 (f.pushOperand c).2 := by
  cases h with
  | @mk text prefixes mnemonic comment table layout htext hprefixes hmnemonic hcomment htable =>
      rcases exists_pushed_of_granted htable.packed_left hok with ⟨u, hfill, hu, hg⟩
      rcases Operand.fill_of_growable htable.nextBlank_left hfill with ⟨hlimit, hcontents⟩
      rw [hg] at hfits ⊢
      -- the text has to fit because the operand is decoded after the step
      have hroom : c.text.utf8ByteSize ≤ l.operandTextSize.toNat - 1 := by
        have hle := hfits.operands _ hu.mem_toList
        have hfilled := congrArg Operand.Contents.text hcontents
        rw [← hfilled]
        exact hle
      rcases Operand.fill_of_fits htable.nextBlank_right hlimit hroom with ⟨hdone, hsame⟩
      rcases exists_pushed_of_room
          (i := { g with text, prefixes, mnemonic, comment, operands := table, layout })
          htable.packed_right hdone (htable.lt_limit_of_pushed hu) with ⟨v, hv, hf⟩
      have hgrowable := (Operand.capacity?_fill hfill).trans htable.nextBlank_left
      have hserves := htable.nextBlank_right.of_capacity?_eq (Operand.capacity?_fill hdone)
      rw [hf]
      constructor
      · show Response.placed ⟨table.count⟩ = .placed ⟨g.operands.count⟩
        rw [htable.count]
      · exact .mk htext hprefixes hmnemonic hcomment
          (htable.pushed hu hv hgrowable hserves (hsame.trans hcontents.symm))

theorem decode (h : Agree l g f) {step : DecodeStep}
    (hok : (g.decode step).1.isAllocationFailure = false) (hfits : Fits l (g.decode step).2) :
    (f.decode step).1 = (g.decode step).1 ∧ Agree l (g.decode step).2 (f.decode step).2 := by
  cases step with
  | change operation direct => exact h.change direct hok hfits
  | push contents => exact h.pushOperand hok hfits

theorem decodeAll (h : Agree l g f) {steps : List DecodeStep}
    (hok : ∀ response ∈ (g.decodeAll steps).1, response.isAllocationFailure = false)
    (hfits : ∀ front, front <+: steps → Fits l (g.decodeAll front).2) :
    (f.decodeAll steps).1 = (g.decodeAll steps).1 ∧
      Agree l (g.decodeAll steps).2 (f.decodeAll steps).2 := by
  induction steps generalizing g f with
  | nil => exact ⟨rfl, h⟩
  | cons first rest ih =>
      have hfirst := hfits [first] ⟨rest, rfl⟩
      rcases h.decode (hok _ List.mem_cons_self) hfirst with ⟨hresponse, hnext⟩
      have hrest : ∀ front, front <+: rest → Fits l ((g.decode first).2.decodeAll front).2 := by
        intro front hfront
        exact hfits (first :: front) (List.cons_prefix_cons.mpr ⟨rfl, hfront⟩)
      rcases ih hnext (fun response hlater => hok response (List.mem_cons_of_mem _ hlater)) hrest
        with ⟨hresponses, hlast⟩
      constructor
      · show (f.decode first).1 :: ((f.decode first).2.decodeAll rest).1 = _
        rw [hresponse, hresponses]
        rfl
      · exact hlast

theorem reference?_eq (h : Agree l g f) : f.reference? = g.reference? := by
  cases h with
  | mk htext hprefixes hmnemonic hcomment htable =>
      funext role
      unfold reference? isValid
      rw [htable.count]

theorem referent?_eq (h : Agree l g f) (role : Role) :
    (f.referent? role).map Operand.contents = (g.referent? role).map Operand.contents := by
  cases h with
  | mk htext hprefixes hmnemonic hcomment htable =>
      unfold referent?
      cases g.references.get role with
      | none => rfl
      | some ref => exact htable.get?_contents ref.index

theorem display_eq (h : Agree l g f) : f.display = g.display := by
  cases h with
  | mk htext hprefixes hmnemonic hcomment htable =>
      refine display_eq_of_texts rfl htext.content_eq hprefixes.content_eq
        hmnemonic.content_eq ?_
      have htexts := congrArg (List.map Operand.Contents.text) htable.toList_contents
      rw [List.map_map, List.map_map] at htexts
      exact htexts

theorem contents_eq (h : Agree l g f) : f.contents = g.contents := by
  have hreference := h.reference?_eq
  have hreferent := h.referent?_eq
  have hdisplay := h.display_eq
  cases h with
  | mk htext hprefixes hmnemonic hcomment htable =>
      simp only [contents, htext.content_eq, hprefixes.content_eq, hmnemonic.content_eq,
        hcomment.content_eq, htable.count, htable.toList_contents, htable.get?_contents,
        hreference, hreferent, hdisplay]

end Agree

theorem table_agree_of_new {n : Nat} (hlimit : n < Storage.limit) (slots capacity : Nat) :
    OperandTable.Agree capacity { slots := List.replicate n none }
      { slots := List.replicate slots (some { text := .bounded { capacity } }) } where
  length_lt := by simpa using hlimit
  count := rfl
  decoded := by
    intro index hindex
    exact absurd hindex (Nat.not_lt_zero index)
  growable := by
    intro index o ho
    simp [List.getElem?_replicate] at ho
  serves := by
    intro index slot hslot
    simp only [List.getElem?_replicate, Option.ite_none_right_eq_some, Option.some.injEq] at hslot
    refine ⟨_, hslot.2.symm, ?_⟩
    intro m hm
    exact (Option.some.inj hm).symm

theorem agree_of_new {n : Nat} {l : Layout} {g f : Instruction} (hg : withSlots n = .ok g)
    (hf : ofLayout l = .ok f) : Agree l g f := by
  rcases withSlots_eq_ok hg with ⟨rfl, hlimit⟩
  cases ofLayout_eq_ok hf
  have hunset : ∀ capacity, TextField.Agree capacity none (some (.bounded { capacity })) := by
    intro capacity
    constructor
    · intro t ht
      cases ht
    · rfl
  exact .mk (hunset _) (hunset _) (hunset _) (hunset _)
    (table_agree_of_new hlimit l.operandCount.toNat _)

/-- A decoder that fills in a new growable instruction and a new fixed one gets the same answers
from both and leaves the same contents in them after every step, as long as the growable one
refuses nothing for want of storage and its texts fit in the layout. -/
theorem decodeAll_agree {n : Nat} {l : Layout} {g f : Instruction} (hg : withSlots n = .ok g)
    (hf : ofLayout l = .ok f) {steps : List DecodeStep}
    (hok : ∀ response ∈ (g.decodeAll steps).1, response.isAllocationFailure = false)
    (hfits : ∀ front, front <+: steps → Fits l (g.decodeAll front).2) :
    ∀ front, front <+: steps →
      (f.decodeAll front).1 = (g.decodeAll front).1 ∧
        (f.decodeAll front).2.contents = (g.decodeAll front).2.contents := by
  intro front hfront
  have hearlier : ∀ response ∈ (g.decodeAll front).1, response.isAllocationFailure = false := by
    rcases hfront with ⟨back, rfl⟩
    intro response hresponse
    apply hok response
    rw [decodeAll_append]
    exact List.mem_append_left _ hresponse
  have hshorter : ∀ first, first <+: front → Fits l (g.decodeAll first).2 := by
    intro first hfirst
    exact hfits first (hfirst.trans hfront)
  rcases (agree_of_new hg hf).decodeAll hearlier hshorter with ⟨hresponses, hafter⟩
  exact ⟨hresponses, hafter.contents_eq⟩

/-- Two instructions are decoded into the same buffers. The first grows both tables, and the second
reuses the slots. -/
theorem decodeAll_agree_twice :
    let g : Instruction := { operands := { slots := [none] } }
    let steps : List DecodeStep :=
      [.change (.setText "rep movsb") rfl, .change (.addPrefix "rep") rfl,
        .change (.setMnemonic "movsb") rfl, .push ⟨"es:[edi]", .empty, .none, 1⟩,
        .push ⟨"ds:[esi]", .empty, .none, 1⟩, .change (.setReference .source ⟨1⟩) rfl,
        .change (.setReference .target ⟨2⟩) rfl, .change .clear rfl,
        .change (.setAddress 2) rfl, .push ⟨"eax", .empty, .none, 4⟩]
    ((blank ⟨10, 6, 1, 9⟩).decodeAll steps).1 = (g.decodeAll steps).1 ∧
      ((blank ⟨10, 6, 1, 9⟩).decodeAll steps).2.contents = (g.decodeAll steps).2.contents := by
  intro g steps
  have hok : ∀ response ∈ (g.decodeAll steps).1, response.isAllocationFailure = false := by decide
  have hfits : ∀ front ∈ steps.inits, Fits ⟨10, 6, 1, 9⟩ (g.decodeAll front).2 := by decide
  exact decodeAll_agree (n := 1) (l := ⟨10, 6, 1, 9⟩) rfl rfl hok
    (fun front hfront => hfits front (List.mem_inits front steps |>.mpr hfront)) steps
    (List.prefix_refl steps)

end Instruction
end Disassembly
