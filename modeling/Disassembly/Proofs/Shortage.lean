import Disassembly.Proofs.Bounded
import Disassembly.Proofs.Regime

/-!
# Writing when storage is short

To write a text takes several steps, and if one is refused, what the steps before it
have changed stays changed. The first step asks for all the room that is needed, so a
write is refused before anything has been changed, or carried out as if there were no
shortage.
-/

namespace Disassembly

open Instruction

/-!
# Steps
-/

namespace Outcome

variable {σ τ ε δ α β : Type}

/-- Goes on with the next step unless this one was refused. Nothing is taken back if it was. -/
def andThen (o : Outcome σ ε α) (next : α → σ → Outcome σ ε β) : Outcome σ ε β :=
  match o.result with
  | .ok value => next value o.state
  | .error e => .refused o.state e

def replacing (old : τ) (put : σ → τ) (value : β) (o : Outcome σ ε α) : Outcome τ ε β :=
  match o.result with
  | .ok _ => .done (put o.state) value
  | .error e => .refused old e

/-- The outcomes of a request that may meet with a shortage of storage, where `full` is the outcome
without one. It is granted in full, or refused with all as it was `before`. -/
inductive AllOrNothing (short : Prop) (before : σ) (full : Outcome σ ε α) :
    Outcome σ ε α → Prop where
  | all {value : α} (h : full.result = .ok value) : AllOrNothing short before full full
  | nothing {e : ε} (h : ¬ short → full = .refused before e) :
      AllOrNothing short before full (.refused before e)

namespace AllOrNothing

variable {short : Prop} {before : σ} {full o : Outcome σ ε α}

theorem eq_of_not_short (h : AllOrNothing short before full o) (hshort : ¬ short) : o = full := by
  cases h with
  | all _ => rfl
  | nothing hfull => exact (hfull hshort).symm

theorem cases (h : AllOrNothing short before full o) :
    (∃ value, o.result = .ok value ∧ o = full) ∨ ∃ e, o = .refused before e := by
  cases h with
  | all hvalue => exact .inl ⟨_, hvalue, rfl⟩
  | nothing _ => exact .inr ⟨_, rfl⟩

theorem cases_of_allocation {full o : Outcome σ Error Unit} {resource : Resource}
    (h : AllOrNothing short before full o)
    (hreason : ∀ e, o.result = .error e → ∃ requested, e = .allocation resource requested) :
    (o.result = .ok () ∧ o = full) ∨
      ∃ requested, o = .refused before (.allocation resource requested) := by
  rcases h.cases with ⟨_, hgranted, hfull⟩ | ⟨e, hrefused⟩
  · exact .inl ⟨hgranted, hfull⟩
  · have hresult : o.result = .error e := by rw [hrefused, result_refused]
    rcases hreason e hresult with ⟨requested, rfl⟩
    exact .inr ⟨requested, hrefused⟩

theorem lift {after : τ} (h : AllOrNothing short before full o)
    (f : Outcome σ ε α → Outcome τ δ β)
    (hrefused : ∀ e, ∃ reason, f (.refused before e) = .refused after reason)
    (hgranted : ∀ value, full.result = .ok value → ∃ later, (f full).result = .ok later) :
    AllOrNothing short after (f full) (f o) := by
  cases h with
  | @all value hvalue =>
      rcases hgranted value hvalue with ⟨_, hlater⟩
      exact .all hlater
  | @nothing e hfull =>
      rcases hrefused e with ⟨reason, hreason⟩
      rw [hreason]
      refine .nothing ?_
      intro hshort
      rw [hfull hshort, hreason]

theorem within (h : AllOrNothing short before full o) (put : σ → τ) :
    AllOrNothing short (put before) (full.within put) (o.within put) := by
  refine h.lift (fun o => o.within put) (fun e => ⟨e, rfl⟩) ?_
  intro value hvalue
  exact ⟨value, hvalue⟩

theorem mapError (h : AllOrNothing short before full o) (f : ε → δ) :
    AllOrNothing short before (full.mapError f) (o.mapError f) := by
  refine h.lift (fun o => o.mapError f) (fun e => ⟨f e, rfl⟩) ?_
  intro value hvalue
  rw [result_mapError, hvalue]
  exact ⟨value, rfl⟩

theorem map (h : AllOrNothing short before full o) (f : α → β) :
    AllOrNothing short before (full.map f) (o.map f) := by
  refine h.lift (fun o => o.map f) (fun e => ⟨e, rfl⟩) ?_
  intro value hvalue
  rw [result_map, hvalue]
  exact ⟨f value, rfl⟩

theorem replacing (h : AllOrNothing short before full o) (old : τ) (put : σ → τ) (value : β) :
    AllOrNothing short old (full.replacing old put value) (o.replacing old put value) := by
  refine h.lift (fun o => o.replacing old put value) (fun e => ⟨e, rfl⟩) ?_
  intro stored hstored
  rw [Outcome.replacing, hstored]
  exact ⟨value, rfl⟩

theorem andThen (h : AllOrNothing short before full o) {next : α → σ → Outcome σ ε β}
    (hnext : ∀ value state, ∃ later, (next value state).result = .ok later) :
    AllOrNothing short before (full.andThen next) (o.andThen next) := by
  refine h.lift (fun o => o.andThen next) (fun e => ⟨e, rfl⟩) ?_
  intro value hvalue
  rw [Outcome.andThen, hvalue]
  exact hnext value full.state

end AllOrNothing
end Outcome

open Outcome

namespace Storage

/-- Which requests for room are refused although the limit allows them: by the capacity that there
is, the bytes in use and the bytes asked for. -/
structure Shortage where
  refuses : (capacity used extra : Nat) → Bool

def ample : Shortage := ⟨fun _ _ _ => false⟩

namespace Shortage

def grow? (shortage : Shortage) (capacity used extra : Nat) : Option Nat :=
  if shortage.refuses capacity used extra then none else Storage.grow? capacity used extra

def Felt (shortage : Shortage) : Prop :=
  ∃ capacity used extra, shortage.refuses capacity used extra = true

theorem not_felt_ample : ¬ ample.Felt := by
  rintro ⟨_, _, _, hrefused⟩
  cases hrefused

end Shortage
end Storage

variable {shortage : Storage.Shortage}

/-!
# Growable text
-/

namespace GrowableText

def reserve (shortage : Storage.Shortage) (t : GrowableText) (extra : Nat) :
    Outcome GrowableText StorageError Unit :=
  match shortage.grow? t.capacity t.size extra with
  | some capacity => .done { t with capacity } ()
  | none => .refused t ⟨extra⟩

def fill (t : GrowableText) : List String → Outcome GrowableText StorageError Unit
  | [] => .done t ()
  | first :: rest =>
      if t.size + first.utf8ByteSize ≤ t.capacity then
        { t with content := t.content ++ first }.fill rest
      else .refused t ⟨first.utf8ByteSize⟩

/-- Reserves room for all the pieces, and then puts them behind the content. -/
def storeFrom (shortage : Storage.Shortage) (t : GrowableText) (pieces : List String) :
    Outcome GrowableText StorageError Nat :=
  let needed := (String.join pieces).utf8ByteSize
  ((t.reserve shortage needed).andThen fun _ roomy => roomy.fill pieces).map fun _ => needed

def setFrom (shortage : Storage.Shortage) (t : GrowableText) (s : String) :
    Outcome GrowableText StorageError Nat :=
  (empty.storeFrom shortage [s]).replacing t id s.utf8ByteSize

def pushFrom (shortage : Storage.Shortage) (t : GrowableText) (s : String) :
    Outcome GrowableText StorageError Nat :=
  t.storeFrom shortage [s]

def appendFrom (shortage : Storage.Shortage) (t : GrowableText) (separator token : String) :
    Outcome GrowableText StorageError Nat :=
  if token = "" then .done t 0
  else t.storeFrom shortage [if t.content = "" then "" else separator, token]

theorem fill_of_room {t : GrowableText} {pieces : List String}
    (h : t.size + (String.join pieces).utf8ByteSize ≤ t.capacity) :
    t.fill pieces = .done { t with content := t.content ++ String.join pieces } () := by
  induction pieces generalizing t with
  | nil => simp [fill]
  | cons first rest ih =>
      rw [String.join_cons, String.utf8ByteSize_append, ← Nat.add_assoc] at h
      have hrest : ({ t with content := t.content ++ first } : GrowableText).size +
          (String.join rest).utf8ByteSize ≤ t.capacity := by
        rw [size, String.utf8ByteSize_append]
        exact h
      rw [fill, if_pos (Nat.le_of_add_right_le h), ih hrest, String.join_cons,
        String.append_assoc]

theorem allOrNothing_storeFrom (shortage : Storage.Shortage) (t : GrowableText)
    (pieces : List String) :
    AllOrNothing shortage.Felt t (t.push (String.join pieces)) (t.storeFrom shortage pieces) := by
  rw [storeFrom, push, reserve, Storage.Shortage.grow?]
  cases hrefused : shortage.refuses t.capacity t.size (String.join pieces).utf8ByteSize with
  | true =>
      have hfelt : shortage.Felt := ⟨_, _, _, hrefused⟩
      exact .nothing fun hshort => absurd hfelt hshort
  | false =>
      cases hroom : Storage.grow? t.capacity t.size (String.join pieces).utf8ByteSize with
      | none => exact .nothing fun _ => rfl
      | some room =>
          have hfill := fill_of_room (t := { t with capacity := room })
            (Storage.le_of_grow? hroom)
          simp only [Bool.false_eq_true, if_false, Outcome.andThen, result_done, state_done, hfill]
          exact .all rfl

theorem push_empty (s : String) :
    empty.push s =
      match copyOf s with
      | .ok copy => .done copy s.utf8ByteSize
      | .error e => .refused empty e := by
  have hroom : Storage.grow? empty.capacity empty.size s.utf8ByteSize =
      Storage.grow? 0 0 s.utf8ByteSize := rfl
  rw [push, copyOf, hroom]
  cases Storage.grow? 0 0 s.utf8ByteSize with
  | none => rfl
  | some room => simp [empty]

theorem set_eq_replacing (t : GrowableText) (s : String) :
    t.set s = (empty.push s).replacing t id s.utf8ByteSize := by
  rw [set, push_empty]
  cases copyOf s with
  | error e => rfl
  | ok copy => rfl

theorem allOrNothing_pushFrom (shortage : Storage.Shortage) (t : GrowableText) (s : String) :
    AllOrNothing shortage.Felt t (t.push s) (t.pushFrom shortage s) := by
  have hstore := allOrNothing_storeFrom shortage t [s]
  rwa [String.join_cons, String.join_nil, String.append_empty] at hstore

theorem allOrNothing_setFrom (shortage : Storage.Shortage) (t : GrowableText) (s : String) :
    AllOrNothing shortage.Felt t (t.set s) (t.setFrom shortage s) := by
  rw [set_eq_replacing]
  exact (allOrNothing_pushFrom shortage empty s).replacing t id s.utf8ByteSize

theorem allOrNothing_appendFrom (shortage : Storage.Shortage) (t : GrowableText)
    (separator token : String) :
    AllOrNothing shortage.Felt t (t.append separator token)
      (t.appendFrom shortage separator token) := by
  rw [append, appendFrom]
  by_cases htoken : token = ""
  · rw [if_pos htoken, if_pos htoken]
    exact .all rfl
  · rw [if_neg htoken, if_neg htoken]
    by_cases hcontent : t.content = ""
    · have hstore := allOrNothing_storeFrom shortage t ["", token]
      simpa [hcontent] using hstore
    · have hstore := allOrNothing_storeFrom shortage t [separator, token]
      simpa [hcontent] using hstore

end GrowableText

/-!
# Bounded text
-/

namespace BoundedText

def put (t : BoundedText) (piece : String) : Outcome BoundedText StorageError Nat :=
  if t.size + piece.utf8ByteSize ≤ t.capacity then .done (t.store piece) piece.utf8ByteSize
  else .refused t ⟨piece.utf8ByteSize⟩

def pushInSteps (t : BoundedText) (s : String) : Outcome BoundedText StorageError Nat :=
  t.put (t.fit s)

def setInSteps (t : BoundedText) (s : String) : Outcome BoundedText StorageError Nat :=
  t.clear.pushInSteps s

def appendInSteps (t : BoundedText) (separator token : String) :
    Outcome BoundedText StorageError Nat :=
  if token = "" then .done t 0
  else if t.content = "" then t.pushInSteps token
  else if Utf8.takeBytes (t.remaining - separator.utf8ByteSize) token = "" then .done t 0
  else (t.put separator).andThen fun stored parted =>
    (parted.pushInSteps token).map fun more => stored + more

variable {t : BoundedText}

theorem Sound.put_eq (h : t.Sound) {piece : String} (hfits : piece.utf8ByteSize ≤ t.remaining) :
    t.put piece = .done (t.store piece) piece.utf8ByteSize := by
  have hsize := h.1
  rw [put, if_pos]
  simp only [remaining, limit] at hfits hsize
  omega

theorem Sound.pushInSteps_eq (h : t.Sound) (s : String) :
    t.pushInSteps s = .done (t.push s).2 (t.push s).1 :=
  h.put_eq (size_fit_le t s)

theorem Sound.setInSteps_eq (h : t.Sound) (s : String) :
    t.setInSteps s = .done (t.set s).2 (t.set s).1 :=
  h.clear.pushInSteps_eq s

theorem Sound.appendInSteps_eq (h : t.Sound) (separator token : String) :
    t.appendInSteps separator token =
      .done (t.append separator token).2 (t.append separator token).1 := by
  rw [appendInSteps]
  by_cases htoken : token = ""
  · rw [if_pos htoken, htoken, BoundedText.append, entry_empty, BoundedText.store,
      String.append_empty]
    rfl
  by_cases hcontent : t.content = ""
  · rw [if_neg htoken, if_pos hcontent, append_of_content_eq_empty hcontent]
    exact h.pushInSteps_eq token
  rw [if_neg htoken, if_neg hcontent]
  by_cases hadmits : t.Admits separator token
  · have hfit : t.fit separator = separator := Utf8.takeBytes_of_size_le hadmits.size_le
    have hfirst := h.pushInSteps_eq separator
    rw [pushInSteps, hfit] at hfirst
    have hsecond := (h.push separator).pushInSteps_eq token
    rw [if_neg (admits_iff.mp hadmits), hfirst, append_eq_push_push hcontent hadmits]
    show ((t.push separator).2.pushInSteps token).map _ = _
    rw [hsecond]
    rfl
  · rw [if_pos (Decidable.not_not.mp fun hcut => hadmits (admits_iff.mpr hcut)),
      append_of_not_admits hcontent hadmits]

end BoundedText

/-!
# Text of either kind
-/

namespace Text

def setFrom (shortage : Storage.Shortage) (t : Text) (s : String) :
    Outcome Text StorageError Nat :=
  match t with
  | .growable t => (t.setFrom shortage s).within .growable
  | .bounded t => (t.setInSteps s).within .bounded

def pushFrom (shortage : Storage.Shortage) (t : Text) (s : String) :
    Outcome Text StorageError Nat :=
  match t with
  | .growable t => (t.pushFrom shortage s).within .growable
  | .bounded t => (t.pushInSteps s).within .bounded

def appendFrom (shortage : Storage.Shortage) (t : Text) (separator token : String) :
    Outcome Text StorageError Nat :=
  match t with
  | .growable t => (t.appendFrom shortage separator token).within .growable
  | .bounded t => (t.appendInSteps separator token).within .bounded

def performFrom (shortage : Storage.Shortage) (t : Text) : Request → Outcome Text StorageError Nat
  | .set s => t.setFrom shortage s
  | .push s => t.pushFrom shortage s
  | .append separator token => t.appendFrom shortage separator token
  | .clear => .done t.clear 0

theorem performFrom_bounded {t : BoundedText} (h : t.Sound) (shortage : Storage.Shortage)
    (request : Request) :
    performFrom shortage (.bounded t) request = Text.perform (.bounded t) request := by
  cases request with
  | set s =>
      show (t.setInSteps s).within Text.bounded = ofBounded (t.set s)
      rw [h.setInSteps_eq]
      rfl
  | push s =>
      show (t.pushInSteps s).within Text.bounded = ofBounded (t.push s)
      rw [h.pushInSteps_eq]
      rfl
  | append separator token =>
      show (t.appendInSteps separator token).within Text.bounded =
        ofBounded (t.append separator token)
      rw [h.appendInSteps_eq]
      rfl
  | clear => rfl

theorem allOrNothing_performFrom {t : Text} (h : t.Sound) (shortage : Storage.Shortage)
    (request : Request) :
    AllOrNothing shortage.Felt t (t.perform request) (t.performFrom shortage request) := by
  cases t with
  | bounded t =>
      rcases BoundedText.Sound.perform h request with ⟨stored, after, hdone, _⟩
      have hgranted : (Text.perform (.bounded t) request).result = .ok stored := by
        rw [hdone]
        rfl
      rw [performFrom_bounded h]
      exact .all hgranted
  | growable t =>
      cases request with
      | set s => exact (GrowableText.allOrNothing_setFrom shortage t s).within Text.growable
      | push s => exact (GrowableText.allOrNothing_pushFrom shortage t s).within Text.growable
      | append separator token =>
          exact (GrowableText.allOrNothing_appendFrom shortage t separator token).within
            Text.growable
      | clear => exact .all rfl

theorem performFrom_cases {t : Text} (h : t.Sound) (shortage : Storage.Shortage)
    (request : Request) :
    (∃ stored, (t.performFrom shortage request).result = .ok stored ∧
        t.performFrom shortage request = t.perform request) ∨
      ∃ requested, t.performFrom shortage request = .refused t ⟨requested⟩ := by
  rcases (allOrNothing_performFrom h shortage request).cases with hgranted | ⟨e, hrefused⟩
  · exact .inl hgranted
  · exact .inr ⟨e.requested, hrefused⟩

theorem Sound.perform {t : Text} (h : t.Sound) (request : Request) :
    (t.perform request).state.Sound := by
  cases request with
  | set s => exact h.set s
  | push s =>
      cases t with
      | growable t => exact GrowableText.Sound.push h s
      | bounded t => exact BoundedText.Sound.push h s
  | append separator token => exact h.append separator token
  | clear => exact h.clear

inductive Arises : Text → Prop where
  | empty : Arises empty
  | withCapacity {capacity : Nat} {t : Text} : withCapacity capacity = .ok t → Arises t
  | copyOf {s : String} {t : Text} : copyOf s = .ok t → Arises t
  | performFrom {t : Text} (shortage : Storage.Shortage) (request : Request) :
      Arises t → Arises (t.performFrom shortage request).state

theorem Arises.sound {t : Text} (h : t.Arises) : t.Sound := by
  induction h with
  | empty => exact ⟨Nat.le_refl _, by decide⟩
  | withCapacity hmake => exact sound_withCapacity hmake
  | copyOf hmake => exact sound_copyOf hmake
  | performFrom shortage request _ ih =>
      rcases performFrom_cases ih shortage request with ⟨_, _, hfull⟩ | ⟨_, hrefused⟩
      · rw [hfull]
        exact ih.perform request
      · rw [hrefused]
        exact ih

theorem result_performFrom_of_isBounded {t : Text} (h : t.Sound) (hbounded : t.isBounded = true)
    (shortage : Storage.Shortage) (request : Request) :
    ∃ stored, (t.performFrom shortage request).result = .ok stored := by
  cases t with
  | growable t => cases hbounded
  | bounded t =>
      rcases BoundedText.Sound.perform h request with ⟨stored, after, hdone, _⟩
      rw [performFrom_bounded h, hdone]
      exact ⟨stored, rfl⟩

end Text

/-!
# Text fields
-/

namespace TextField

def createFrom (shortage : Storage.Shortage) (s : String) :
    Outcome TextField StorageError Nat :=
  (GrowableText.empty.storeFrom shortage [s]).replacing none (fun t => some (.growable t))
    s.utf8ByteSize

def assignFrom (shortage : Storage.Shortage) (field : TextField) (s : String) :
    Outcome TextField StorageError Nat :=
  match field with
  | some text => (text.setFrom shortage s).within some
  | none => createFrom shortage s

def appendFrom (shortage : Storage.Shortage) (field : TextField) (separator token : String) :
    Outcome TextField StorageError Nat :=
  match field with
  | some text => (text.appendFrom shortage separator token).within some
  | none => if token = "" then .done none 0 else createFrom shortage token

theorem create_eq_replacing (s : String) :
    create s = (GrowableText.empty.push s).replacing none (fun t => some (.growable t))
      s.utf8ByteSize := by
  rw [create, Text.copyOf, GrowableText.push_empty]
  cases GrowableText.copyOf s with
  | error e => rfl
  | ok copy => rfl

theorem allOrNothing_createFrom (shortage : Storage.Shortage) (s : String) :
    AllOrNothing shortage.Felt none (create s) (createFrom shortage s) := by
  rw [create_eq_replacing]
  exact (GrowableText.allOrNothing_pushFrom shortage .empty s).replacing none _ s.utf8ByteSize

theorem allOrNothing_assignFrom {field : TextField} (h : Sound field)
    (shortage : Storage.Shortage) (s : String) :
    AllOrNothing shortage.Felt field (assign field s) (assignFrom shortage field s) := by
  cases field with
  | none => exact allOrNothing_createFrom shortage s
  | some t => exact (Text.allOrNothing_performFrom (h t rfl) shortage (.set s)).within some

theorem allOrNothing_appendFrom {field : TextField} (h : Sound field)
    (shortage : Storage.Shortage) (separator token : String) :
    AllOrNothing shortage.Felt field (append field separator token)
      (appendFrom shortage field separator token) := by
  cases field with
  | some t =>
      exact (Text.allOrNothing_performFrom (h t rfl) shortage (.append separator token)).within
        some
  | none =>
      rw [append, appendFrom]
      by_cases htoken : token = ""
      · rw [if_pos htoken, if_pos htoken]
        exact .all rfl
      · rw [if_neg htoken, if_neg htoken]
        exact allOrNothing_createFrom shortage token

theorem result_assignFrom_of_bounded {field : TextField} {capacity : Nat} (h : Sound field)
    (hbounded : Bounded capacity field) (shortage : Storage.Shortage) (s : String) :
    ∃ stored, (assignFrom shortage field s).result = .ok stored := by
  rcases hbounded with ⟨t, rfl, _⟩
  exact Text.result_performFrom_of_isBounded (h _ rfl) rfl shortage (.set s)

theorem result_appendFrom_of_bounded {field : TextField} {capacity : Nat} (h : Sound field)
    (hbounded : Bounded capacity field) (shortage : Storage.Shortage)
    (separator token : String) :
    ∃ stored, (appendFrom shortage field separator token).result = .ok stored := by
  rcases hbounded with ⟨t, rfl, _⟩
  exact Text.result_performFrom_of_isBounded (h _ rfl) rfl shortage (.append separator token)

end TextField

/-!
# Operands
-/

namespace Error

theorem allocation_of_ofStorage {α β : Type} {result : Except StorageError α} {f : α → β}
    {resource : Resource} {e : Error}
    (h : (result.mapError (.ofStorage resource)).map f = .error e) :
    ∃ requested, e = .allocation resource requested := by
  cases result with
  | ok value => cases h
  | error reason =>
      cases h
      exact ⟨reason.requested, rfl⟩

end Error

namespace Operand

def setTextFrom (shortage : Storage.Shortage) (o : Operand) (s : String) :
    Outcome Operand Error Unit :=
  (((o.text.setFrom shortage s).within fun text => { o with text }).mapError
    (.ofStorage .operandText)).map fun _ => ()

theorem allOrNothing_setTextFrom {o : Operand} (h : o.text.Sound) (shortage : Storage.Shortage)
    (s : String) :
    AllOrNothing shortage.Felt o (o.setText s) (o.setTextFrom shortage s) :=
  (((Text.allOrNothing_performFrom h shortage (.set s)).within
    fun text => { o with text }).mapError (Error.ofStorage .operandText)).map fun _ => ()

theorem setTextFrom_cases {o : Operand} (h : o.text.Sound) (shortage : Storage.Shortage)
    (s : String) :
    ((o.setTextFrom shortage s).result = .ok () ∧ o.setTextFrom shortage s = o.setText s) ∨
      ∃ requested,
        o.setTextFrom shortage s = .refused o (.allocation .operandText requested) :=
  (allOrNothing_setTextFrom h shortage s).cases_of_allocation
    fun _ hresult => Error.allocation_of_ofStorage hresult

theorem result_setTextFrom_of_isBounded {o : Operand} (h : o.text.Sound)
    (hbounded : o.isBounded = true) (shortage : Storage.Shortage) (s : String) :
    (o.setTextFrom shortage s).result = .ok () := by
  rcases Text.result_performFrom_of_isBounded h hbounded shortage (.set s) with ⟨stored, hstored⟩
  have htext : (o.text.setFrom shortage s).result = .ok stored := hstored
  rw [setTextFrom, result_map, result_mapError, result_within, htext]
  rfl

end Operand

/-!
# Instructions
-/

namespace Instruction

open TextField

inductive TextWrite where
  | setText (s : String)
  | setMnemonic (s : String)
  | addPrefix (token : String)
  | addComment (entry : String)
deriving DecidableEq, Repr

namespace TextWrite

def operation : TextWrite → Operation
  | .setText s => .setText s
  | .setMnemonic s => .setMnemonic s
  | .addPrefix token => .addPrefix token
  | .addComment entry => .addComment entry

def resource : TextWrite → Resource
  | .setText _ => .instructionText
  | .setMnemonic _ => .mnemonic
  | .addPrefix _ => .prefixes
  | .addComment _ => .comment

end TextWrite

def countPrefix (i : Instruction) (stored : Nat) : Instruction :=
  if stored = 0 then i else { i with prefixCount := i.prefixCount + 1 }

def writeFrom (shortage : Storage.Shortage) (i : Instruction) :
    TextWrite → Outcome Instruction Error Unit
  | .setText s =>
      ofField .instructionText (fun text => { i with text }) (assignFrom shortage i.text s)
  | .setMnemonic s =>
      ofField .mnemonic (fun mnemonic => { i with mnemonic }) (assignFrom shortage i.mnemonic s)
  | .addPrefix token =>
      (((appendFrom shortage i.prefixes " " token).within
        fun prefixes => { i with prefixes }).mapError (.ofStorage .prefixes)).andThen
          fun stored appended => .done (appended.countPrefix stored) ()
  | .addComment entry =>
      ofField .comment (fun comment => { i with comment })
        (appendFrom shortage i.comment i.commentSeparator entry)

/-- The write as the library carries it out. -/
def write (i : Instruction) : TextWrite → Outcome Instruction Error Unit
  | .setText s => i.setText s
  | .setMnemonic s => i.setMnemonic s
  | .addPrefix token => i.addPrefix token
  | .addComment entry => i.addComment entry

theorem answer_write (i : Instruction) (write : TextWrite) :
    answer (i.write write) = i.perform write.operation := by
  cases write with
  | _ => rfl

theorem addPrefix_eq_andThen (i : Instruction) (token : String) :
    i.addPrefix token =
      (((append i.prefixes " " token).within
        fun prefixes => { i with prefixes }).mapError (.ofStorage .prefixes)).andThen
          fun stored appended => .done (appended.countPrefix stored) () := by
  unfold addPrefix
  generalize append i.prefixes " " token = outcome
  rcases outcome with ⟨result, prefixes⟩
  cases result with
  | error e => rfl
  | ok stored =>
      by_cases hstored : stored = 0
      · subst hstored
        rfl
      · show Outcome.done { i with
            prefixes, prefixCount := if stored = 0 then i.prefixCount else i.prefixCount + 1 } () =
          Outcome.done (countPrefix { i with prefixes } stored) ()
        rw [countPrefix, if_neg hstored, if_neg hstored]

theorem allOrNothing_ofField {field : TextField} {full o : Outcome TextField StorageError Nat}
    (h : AllOrNothing shortage.Felt field full o) (resource : Resource)
    (put : TextField → Instruction) :
    AllOrNothing shortage.Felt (put field) (ofField resource put full) (ofField resource put o) :=
  ((h.within put).mapError (Error.ofStorage resource)).map fun _ => ()

theorem allOrNothing_writeFrom {i : Instruction} (h : i.WellFormed) (shortage : Storage.Shortage)
    (write : TextWrite) :
    AllOrNothing shortage.Felt i (i.write write) (i.writeFrom shortage write) := by
  cases write with
  | setText s =>
      exact allOrNothing_ofField (allOrNothing_assignFrom h.text shortage s) .instructionText
        fun text => { i with text }
  | setMnemonic s =>
      exact allOrNothing_ofField (allOrNothing_assignFrom h.mnemonic shortage s) .mnemonic
        fun mnemonic => { i with mnemonic }
  | addPrefix token =>
      have hfield := allOrNothing_appendFrom h.prefixes shortage " " token
      have hput := (hfield.within fun prefixes => { i with prefixes }).mapError
        (Error.ofStorage .prefixes)
      rw [Instruction.write, addPrefix_eq_andThen]
      -- the count is raised after the last step that can be refused
      exact hput.andThen fun _ _ => ⟨(), rfl⟩
  | addComment entry =>
      exact allOrNothing_ofField
        (allOrNothing_appendFrom h.comment shortage i.commentSeparator entry) .comment
        fun comment => { i with comment }

theorem result_writeFrom_addPrefix (i : Instruction) (token : String) :
    (i.writeFrom shortage (.addPrefix token)).result =
      ((appendFrom shortage i.prefixes " " token).result.mapError (.ofStorage .prefixes)).map
        fun _ => () := by
  rw [writeFrom, Outcome.andThen, result_mapError, result_within]
  cases (appendFrom shortage i.prefixes " " token).result with
  | error e => rfl
  | ok stored => rfl

theorem allocation_of_writeFrom {i : Instruction} {write : TextWrite} {e : Error}
    (h : (i.writeFrom shortage write).result = .error e) :
    ∃ requested, e = .allocation write.resource requested := by
  cases write with
  | addPrefix token =>
      rw [result_writeFrom_addPrefix] at h
      exact Error.allocation_of_ofStorage h
  | _ => exact Error.allocation_of_ofStorage h

theorem result_ofField_of_ok {resource : Resource} {put : TextField → Instruction}
    {o : Outcome TextField StorageError Nat} {stored : Nat} (h : o.result = .ok stored) :
    (ofField resource put o).result = .ok () := by
  rw [ofField, result_map, result_mapError, result_within, h]
  rfl

theorem FollowsLayout.result_writeFrom {l : Layout} {i : Instruction} (h : FollowsLayout l i)
    (hi : i.WellFormed) (shortage : Storage.Shortage) (write : TextWrite) :
    (i.writeFrom shortage write).result = .ok () := by
  cases write with
  | setText s =>
      rcases result_assignFrom_of_bounded hi.text h.text shortage s with ⟨_, hstored⟩
      exact result_ofField_of_ok hstored
  | setMnemonic s =>
      rcases result_assignFrom_of_bounded hi.mnemonic h.mnemonic shortage s with ⟨_, hstored⟩
      exact result_ofField_of_ok hstored
  | addPrefix token =>
      rcases result_appendFrom_of_bounded hi.prefixes h.prefixes shortage " " token with
        ⟨_, hstored⟩
      rw [result_writeFrom_addPrefix, hstored]
      rfl
  | addComment entry =>
      rcases result_appendFrom_of_bounded hi.comment h.comment shortage i.commentSeparator
        entry with ⟨_, hstored⟩
      exact result_ofField_of_ok hstored

/-!
# All or nothing
-/

theorem writeFrom_cases {i : Instruction} (h : i.WellFormed) (shortage : Storage.Shortage)
    (write : TextWrite) :
    ((i.writeFrom shortage write).result = .ok () ∧
        answer (i.writeFrom shortage write) = i.perform write.operation) ∨
      ∃ requested,
        i.writeFrom shortage write = .refused i (.allocation write.resource requested) := by
  rw [← answer_write]
  rcases (allOrNothing_writeFrom h shortage write).cases_of_allocation
    fun _ hresult => allocation_of_writeFrom hresult with ⟨hgranted, hfull⟩ | hrefused
  · exact .inl ⟨hgranted, congrArg answer hfull⟩
  · exact .inr hrefused

def writeAll (i : Instruction) : List (Storage.Shortage × TextWrite) → Instruction
  | [] => i
  | (shortage, write) :: rest => (i.writeFrom shortage write).state.writeAll rest

/-- Writes on storage that is short now and then leave what those of them leave that are granted. -/
theorem exists_run_of_writes {i : Instruction} (h : i.WellFormed)
    (writes : List (Storage.Shortage × TextWrite)) :
    ∃ granted : List Operation,
      granted.Sublist (writes.map fun w => w.2.operation) ∧
        i.writeAll writes = (i.run granted).2 := by
  induction writes generalizing i with
  | nil => exact ⟨[], List.Sublist.refl _, rfl⟩
  | cons first rest ih =>
      rcases first with ⟨shortage, write⟩
      rw [writeAll]
      rcases writeFrom_cases h shortage write with ⟨_, hfull⟩ | ⟨_, hrefused⟩
      · have hstate : (i.writeFrom shortage write).state = (i.perform write.operation).2 :=
          congrArg Prod.snd hfull
        rcases ih (h.perform write.operation) with ⟨granted, hsublist, hrun⟩
        refine ⟨write.operation :: granted, hsublist.cons_cons _, ?_⟩
        rw [hstate, hrun]
        rfl
      · rcases ih h with ⟨granted, hsublist, hrun⟩
        refine ⟨granted, hsublist.cons _, ?_⟩
        rw [hrefused]
        exact hrun

/-- A text, an operand or an instruction that is written to on storage that may refuse any request
for room is afterwards as after the write without a shortage, or the write is refused for want of
storage and all is as it was. Bounded texts and fixed instructions refuse no write. On ample storage
the steps of a write are the operation of the library. -/
theorem write_all_or_nothing (shortage : Storage.Shortage) :
    (∀ (t : Text) (request : Text.Request), t.Arises →
      let o := t.performFrom shortage request
      ((∃ stored, o.result = .ok stored ∧ o = t.perform request) ∨
        ∃ requested, o = .refused t ⟨requested⟩) ∧
      (t.isBounded = true → ∃ stored, o.result = .ok stored) ∧
      t.performFrom Storage.ample request = t.perform request) ∧
    (∀ (p : Operand) (s : String), p.text.Arises →
      let o := p.setTextFrom shortage s
      ((o.result = .ok () ∧ o = p.setText s) ∨
        ∃ requested, o = .refused p (.allocation .operandText requested)) ∧
      (p.isBounded = true → o.result = .ok ()) ∧
      p.setTextFrom Storage.ample s = p.setText s) ∧
    (∀ (i : Instruction) (write : TextWrite), Reachable i →
      let o := i.writeFrom shortage write
      ((o.result = .ok () ∧ answer o = i.perform write.operation) ∨
        ∃ requested, o = .refused i (.allocation write.resource requested)) ∧
      (i.isFixed = true → o.result = .ok ()) ∧
      answer (i.writeFrom Storage.ample write) = i.perform write.operation) := by
  refine ⟨?_, ?_, ?_⟩
  · intro t request harises o
    have hsound := harises.sound
    exact ⟨Text.performFrom_cases hsound shortage request,
      fun hbounded => Text.result_performFrom_of_isBounded hsound hbounded shortage request,
      (Text.allOrNothing_performFrom hsound Storage.ample request).eq_of_not_short
        Storage.Shortage.not_felt_ample⟩
  · intro p s harises o
    have hsound := harises.sound
    exact ⟨Operand.setTextFrom_cases hsound shortage s,
      fun hbounded => Operand.result_setTextFrom_of_isBounded hsound hbounded shortage s,
      (Operand.allOrNothing_setTextFrom hsound Storage.ample s).eq_of_not_short
        Storage.Shortage.not_felt_ample⟩
  · intro i write hreachable o
    have hi := hreachable.wellFormed
    refine ⟨writeFrom_cases hi shortage write, ?_, ?_⟩
    · intro hfixed
      rcases Option.isSome_iff_exists.mp hfixed with ⟨l, hlayout⟩
      exact (hreachable.regime.fixed l hlayout).result_writeFrom hi shortage write
    · rw [(allOrNothing_writeFrom hi Storage.ample write).eq_of_not_short
        Storage.Shortage.not_felt_ample, answer_write]

/-- Storage that grants nothing more: a bounded text is still written to, and of two instructions
with a prefix the fixed one takes another. -/
theorem write_all_or_nothing_on_exhausted_storage :
    let exhausted : Storage.Shortage := ⟨fun _ _ _ => true⟩
    let bounded : Text := .bounded { capacity := 8 }
    let growable := (empty.run [.addPrefix "lock"]).2
    let fixed := ((blank ⟨8, 2, 0, 0⟩).run [.addPrefix "lock"]).2
    bounded.Arises ∧ Reachable growable ∧ Reachable fixed ∧
      (∃ stored, (bounded.performFrom exhausted (.push "rep movsb")).result = .ok stored) ∧
      (∃ requested, growable.writeFrom exhausted (.addPrefix "rep") =
        .refused growable (.allocation .prefixes requested)) ∧
      (fixed.writeFrom exhausted (.addPrefix "rep")).result = .ok () := by
  intro exhausted bounded growable fixed
  have hmade : Text.withCapacity 8 = .ok bounded := rfl
  have hbounded : bounded.Arises := .withCapacity hmade
  have hgrowable : Reachable growable := Reachable.empty.run _
  have hfixed : Reachable fixed := (Reachable.ofLayout (l := ⟨8, 2, 0, 0⟩) rfl).run _
  rcases write_all_or_nothing exhausted with ⟨htext, _, hinstruction⟩
  refine ⟨hbounded, hgrowable, hfixed, (htext bounded (.push "rep movsb") hbounded).2.1 rfl, ?_,
    (hinstruction fixed (.addPrefix "rep") hfixed).2.1 rfl⟩
  rcases (hinstruction growable (.addPrefix "rep") hgrowable).1 with ⟨hgranted, _⟩ | hrefused
  · have hresult : (growable.writeFrom exhausted (.addPrefix "rep")).result =
        .error (.allocation .prefixes 4) := rfl
    rw [hresult] at hgranted
    cases hgranted
  · exact hrefused

end Instruction
end Disassembly
