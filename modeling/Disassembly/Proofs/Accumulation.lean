import Disassembly.Proofs.Prefixes
import Mathlib.Algebra.GroupWithZero.Nat

/-!
# Texts that collect tokens

The first token makes the text, a token behind a clearing finds an empty one, and every
other one follows a separator. An empty token does none of this. What the text says
depends on the tokens behind the last clearing, and whether it is set depends on all of
them.
-/

namespace Disassembly

open Instruction GrowableText

/-!
# Growable text
-/

namespace Text

structure Joined (separator : String) (tokens : List String)
    (answers : List (Except StorageError Nat)) (t : Text) : Prop where
  isBounded_eq : t.isBounded = false
  content_eq : t.content = joinTexts separator tokens
  counts : ∃ counts : List Nat, answers = counts.map .ok ∧
    counts.sum = (joinTexts separator tokens).utf8ByteSize

theorem run_appends_of_content_eq_empty {t : GrowableText} (hempty : t.content = "")
    {separator : String} {tokens : List String}
    (hok : ∀ answer ∈ ((growable t).run (appends separator tokens)).1, answer.isOk = true) :
    Joined separator tokens ((growable t).run (appends separator tokens)).1
      ((growable t).run (appends separator tokens)).2 := by
  induction tokens using List.reverseRecOn with
  | nil => exact ⟨rfl, hempty, [], rfl, rfl⟩
  | append_singleton earlier last ih =>
      rw [run_appends_concat] at hok ⊢
      rw [List.forall_mem_append] at hok
      rcases ih hok.1 with ⟨hgrowable, hcontent, counts, hanswers, hsum⟩
      cases hstate : ((growable t).run (appends separator earlier)).2 with
      | bounded b =>
          rw [hstate] at hgrowable
          cases hgrowable
      | growable u =>
          rw [hstate] at hok hcontent
          have hlast := hok.2 _ List.mem_cons_self
          cases hresult : (u.append separator last).result with
          | error e =>
              rw [append, Outcome.result_within, hresult] at hlast
              cases hlast
          | ok n =>
              rcases GrowableText.append_of_ok hresult with ⟨hafter, hn⟩
              rw [show u.content = _ from hcontent] at hafter hn
              refine ⟨rfl, hafter.trans (joinTexts_concat ..).symm, counts ++ [n], ?_, ?_⟩
              · rw [hanswers, List.map_append]
                exact congrArg (fun answer => counts.map Except.ok ++ [answer]) hresult
              · rw [List.sum_append, hsum, hn, joinTexts_concat, String.utf8ByteSize_append]
                rfl

end Text

/-!
# Text fields that collect tokens
-/

namespace TextField

variable {field : TextField} {separator token : String} {recent all : List String}

theorem state_append_eq_none_iff {n : Nat}
    (hok : (append field separator token).result = .ok n) :
    (append field separator token).state = none ↔ field = none ∧ token = "" := by
  cases field with
  | some t => simp [append]
  | none =>
      by_cases htoken : token = ""
      · simp [append, htoken]
      · simp only [append, htoken, if_false, create] at hok ⊢
        cases hcopy : Text.copyOf token with
        | ok t => simp
        | error e =>
            rw [hcopy] at hok
            cases hok

/-- The field holds the join of the tokens since it was last cleared. It is unset as long as all
tokens were empty. -/
structure Collected (separator : String) (recent all : List String) (field : TextField) :
    Prop where
  growable : field.Growable
  content_eq : field.content = joinTexts separator recent
  eq_none_iff : field = none ↔ ∀ token ∈ all, token = ""

theorem collected_none (separator : String) : Collected separator [] [] none where
  growable := growable_none
  content_eq := rfl
  eq_none_iff := by simp

theorem Collected.clear (h : Collected separator recent all field) :
    Collected separator [] all field.clear where
  growable := h.growable.write .clear
  content_eq := content_clear field
  eq_none_iff := by
    rw [← h.eq_none_iff, TextField.clear, Option.map_eq_none_iff]

theorem Collected.append (h : Collected separator recent all field) {n : Nat}
    (hok : (append field separator token).result = .ok n) :
    Collected separator (recent ++ [token]) (all ++ [token])
      (append field separator token).state where
  growable := h.growable.write (.append separator token)
  content_eq := by
    rw [(h.growable.append_of_ok hok).1, h.content_eq, joinTexts_concat]
  eq_none_iff := by
    rw [state_append_eq_none_iff hok, h.eq_none_iff, List.forall_mem_append,
      List.forall_mem_singleton]

end TextField

namespace Instruction

/-!
# Texts of an instruction
-/

inductive Ledger where
  | prefixes
  | comment
deriving DecidableEq

namespace Ledger

def separator : Ledger → String
  | .prefixes => " "
  | .comment => ";"

def field : Ledger → Instruction → TextField
  | .prefixes, i => i.prefixes
  | .comment, i => i.comment

def token? : Ledger → Operation → Option String
  | .prefixes, .addPrefix token => some token
  | .comment, .addComment entry => some entry
  | _, _ => none

def tokens (ledger : Ledger) (operations : List Operation) : List String :=
  operations.filterMap ledger.token?

end Ledger

def sinceClear (operations : List Operation) : List Operation :=
  (operations.reverse.takeWhile fun operation => operation ≠ .clear).reverse

theorem sinceClear_concat (operations : List Operation) (last : Operation) :
    sinceClear (operations ++ [last]) =
      if last = .clear then [] else sinceClear operations ++ [last] := by
  by_cases hclear : last = .clear
  · simp [sinceClear, hclear]
  · simp [sinceClear, hclear]

example : sinceClear [.addPrefix "rep", .clear, .commitNext, .addPrefix "lock"] =
    [.commitNext, .addPrefix "lock"] := by decide

variable {i : Instruction} {operation : Operation} {ledger : Ledger} {token : String}

namespace Ledger

theorem field_perform (hlayout : i.layout = none) (ledger : Ledger) (operation : Operation) :
    ledger.field (i.perform operation).2 =
      match ledger.token? operation with
      | some token => (TextField.append (ledger.field i) ledger.separator token).state
      | none => if operation = .clear then (ledger.field i).clear else ledger.field i := by
  have hseparator : i.commentSeparator = ";" := by simp [commentSeparator, isFixed, hlayout]
  rw [state_perform]
  cases ledger with
  | prefixes => cases operation <;> rfl
  | comment =>
      cases operation with
      | addComment entry =>
          rw [hseparator]
          rfl
      | _ => rfl

theorem ok_of_perform (hlayout : i.layout = none) (htoken : ledger.token? operation = some token)
    (hok : (i.perform operation).1.isAllocationFailure = false) :
    ∃ n, (TextField.append (ledger.field i) ledger.separator token).result = .ok n := by
  cases ledger with
  | prefixes =>
      cases operation with
      | addPrefix token =>
          cases htoken
          exact ok_of_answer_ofField hok
      | _ => cases htoken
  | comment =>
      cases operation with
      | addComment entry =>
          cases htoken
          have hseparator : i.commentSeparator = ";" := by
            simp [commentSeparator, isFixed, hlayout]
          have hcomment := ok_of_answer_ofField hok
          rwa [hseparator] at hcomment
      | _ => cases htoken

theorem tokens_concat (ledger : Ledger) (operations : List Operation) (last : Operation) :
    ledger.tokens (operations ++ [last]) =
      ledger.tokens operations ++ (ledger.token? last).toList := by
  rw [tokens, tokens, List.filterMap_append]
  cases htoken : ledger.token? last with
  | none => simp [htoken]
  | some token => simp [htoken]

theorem tokens_sinceClear_concat (ledger : Ledger) (operations : List Operation)
    (last : Operation) :
    ledger.tokens (sinceClear (operations ++ [last])) =
      if last = .clear then []
      else ledger.tokens (sinceClear operations) ++ (ledger.token? last).toList := by
  rw [sinceClear_concat]
  split
  · rfl
  · exact tokens_concat ledger (sinceClear operations) last

theorem ne_clear_of_token? (htoken : ledger.token? operation = some token) :
    operation ≠ .clear := by
  rintro rfl
  cases ledger <;> cases htoken

theorem collected_perform (hlayout : i.layout = none)
    (hok : (i.perform operation).1.isAllocationFailure = false) {operations : List Operation}
    (h : TextField.Collected ledger.separator (ledger.tokens (sinceClear operations))
      (ledger.tokens operations) (ledger.field i)) :
    TextField.Collected ledger.separator (ledger.tokens (sinceClear (operations ++ [operation])))
      (ledger.tokens (operations ++ [operation])) (ledger.field (i.perform operation).2) := by
  rw [field_perform hlayout, tokens_concat, tokens_sinceClear_concat]
  cases htoken : ledger.token? operation with
  | some token =>
      rcases ok_of_perform hlayout htoken hok with ⟨n, hn⟩
      rw [if_neg (ne_clear_of_token? htoken)]
      exact h.append hn
  | none =>
      rw [Option.toList_none, List.append_nil, List.append_nil]
      by_cases hclear : operation = .clear
      · simp only [hclear, if_true]
        exact h.clear
      · simp only [hclear, if_false]
        exact h

theorem collected_run (ledger : Ledger) (hlayout : i.layout = none)
    (hunset : ledger.field i = none) {operations : List Operation}
    (hok : ∀ response ∈ (i.run operations).1, response.isAllocationFailure = false) :
    TextField.Collected ledger.separator (ledger.tokens (sinceClear operations))
      (ledger.tokens operations) (ledger.field (i.run operations).2) := by
  induction operations using List.reverseRecOn with
  | nil =>
      rw [run_nil, hunset]
      exact TextField.collected_none ledger.separator
  | append_singleton earlier last ih =>
      rw [run_concat] at hok ⊢
      rw [List.forall_mem_append, List.forall_mem_singleton] at hok
      exact collected_perform ((layout_run i earlier).trans hlayout) hok.2 (ih hok.1)

end Ledger

theorem prefixCount_perform (hgrowable : i.prefixes.Growable)
    (hok : (i.perform operation).1.isAllocationFailure = false) :
    (i.perform operation).2.prefixCount =
      match Ledger.prefixes.token? operation with
      | some token => if token = "" then i.prefixCount else i.prefixCount + 1
      | none => if operation = .clear then 0 else i.prefixCount := by
  cases operation with
  | addPrefix token =>
      rcases ok_of_answer_ofField hok with ⟨n, hn⟩
      have hzero : n = 0 ↔ token = "" := by
        rw [(hgrowable.append_of_ok hn).2, String.utf8ByteSize_eq_zero_iff, piece_eq_empty_iff]
      simp only [perform_addPrefix_of_ok hn, hzero, Ledger.token?]
  | _ =>
      rw [state_perform]
      rfl

theorem prefixCount_run (hlayout : i.layout = none) (hunset : i.prefixes = none)
    (hcount : i.prefixCount = 0) {operations : List Operation}
    (hok : ∀ response ∈ (i.run operations).1, response.isAllocationFailure = false) :
    (i.run operations).2.prefixCount =
      ((Ledger.prefixes.tokens (sinceClear operations)).filter fun s => s != "").length := by
  induction operations using List.reverseRecOn with
  | nil => exact hcount
  | append_singleton earlier last ih =>
      rw [run_concat] at hok ⊢
      rw [List.forall_mem_append, List.forall_mem_singleton] at hok
      have hcollected := Ledger.prefixes.collected_run hlayout hunset hok.1
      rw [prefixCount_perform hcollected.growable hok.2, Ledger.tokens_sinceClear_concat, ih hok.1]
      cases htoken : Ledger.prefixes.token? last with
      | some token =>
          have hclear : last ≠ .clear := Ledger.ne_clear_of_token? htoken
          by_cases hempty : token = ""
          · simp [hclear, hempty]
          · simp [hclear, hempty]
      | none =>
          by_cases hclear : last = .clear
          · simp [hclear]
          · simp [hclear]

/-!
# What the texts say
-/

structure CollectsTokens (i : Instruction) (operations : List Operation) : Prop where
  prefixes_eq :
    i.prefixes.content = joinTexts " " (Ledger.prefixes.tokens (sinceClear operations))
  comment_eq :
    i.comment.content = joinTexts ";" (Ledger.comment.tokens (sinceClear operations))
  prefixCount_eq : i.prefixCount =
    ((Ledger.prefixes.tokens (sinceClear operations)).filter fun s => s != "").length
  prefixes_eq_none_iff :
    i.prefixes = none ↔ ∀ token ∈ Ledger.prefixes.tokens operations, token = ""
  comment_eq_none_iff :
    i.comment = none ↔ ∀ token ∈ Ledger.comment.tokens operations, token = ""

theorem collectsTokens_run (hlayout : i.layout = none) (hprefixes : i.prefixes = none)
    (hcomment : i.comment = none) (hcount : i.prefixCount = 0) {operations : List Operation}
    (hok : ∀ response ∈ (i.run operations).1, response.isAllocationFailure = false) :
    CollectsTokens (i.run operations).2 operations where
  prefixes_eq := (Ledger.prefixes.collected_run hlayout hprefixes hok).content_eq
  comment_eq := (Ledger.comment.collected_run hlayout hcomment hok).content_eq
  prefixCount_eq := prefixCount_run hlayout hprefixes hcount hok
  prefixes_eq_none_iff := (Ledger.prefixes.collected_run hlayout hprefixes hok).eq_none_iff
  comment_eq_none_iff := (Ledger.comment.collected_run hlayout hcomment hok).eq_none_iff

end Instruction

/-- As long as there is storage, growable text without content holds the join of the tokens that are
appended to it, and so do the prefixes and the comment of an instruction that was made without a
layout, whatever is done with it. -/
theorem collected_texts_are_joins :
    (∀ (t : GrowableText) (separator : String) (tokens : List String), t.content = "" →
      (∀ answer ∈ ((Text.growable t).run (Text.appends separator tokens)).1,
        answer.isOk = true) →
      Text.Joined separator tokens ((Text.growable t).run (Text.appends separator tokens)).1
        ((Text.growable t).run (Text.appends separator tokens)).2) ∧
    ∀ (i : Instruction) (operations : List Operation),
      (i = Instruction.empty ∨ ∃ n, withSlots n = .ok i) →
      (∀ response ∈ (i.run operations).1, response.isAllocationFailure = false) →
      CollectsTokens (i.run operations).2 operations := by
  constructor
  · intro t separator tokens hempty hok
    exact Text.run_appends_of_content_eq_empty hempty hok
  · rintro i operations (rfl | ⟨n, hmade⟩) hok
    · exact collectsTokens_run rfl rfl rfl rfl hok
    · rcases withSlots_eq_ok hmade with ⟨rfl, _⟩
      exact collectsTokens_run rfl rfl rfl rfl hok

/-- Empty tokens in all places, a separator of several bytes, and a clearing between a first token
that made a text and one that found it empty. -/
theorem collected_texts_are_joins_of_empty_tokens :
    let tokens := ["", "rep", "", "lock", ""]
    let i : Instruction := { operands := { slots := [none] } }
    let operations : List Operation :=
      [.addPrefix "", .addPrefix "fs", .addComment "", .clear, .addPrefix "", .addPrefix "rep",
        .addOperand .empty, .addPrefix "", .addPrefix "lock", .setReference .target ⟨1⟩]
    ((Text.growable ⟨"", 4⟩).run (Text.appends " é " tokens)).2.content = "rep é lock" ∧
      (i.run operations).2.prefixes.content = "rep lock" ∧ (i.run operations).2.prefixCount = 2 ∧
      (i.run operations).2.comment = none ∧
      Text.Joined " é " tokens ((Text.growable ⟨"", 4⟩).run (Text.appends " é " tokens)).1
        ((Text.growable ⟨"", 4⟩).run (Text.appends " é " tokens)).2 ∧
      CollectsTokens (i.run operations).2 operations := by
  intro tokens i operations
  have hanswers : ∀ answer ∈ ((Text.growable ⟨"", 4⟩).run (Text.appends " é " tokens)).1,
      answer.isOk = true := by decide
  have hok : ∀ response ∈ (i.run operations).1, response.isAllocationFailure = false := by decide
  exact ⟨by decide, by decide, by decide, by decide,
    collected_texts_are_joins.1 ⟨"", 4⟩ " é " tokens rfl hanswers,
    collected_texts_are_joins.2 i operations (.inr ⟨1, rfl⟩) hok⟩

end Disassembly
