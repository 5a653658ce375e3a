import Disassembly.Proofs.Agreement
import Disassembly.Proofs.Copy
import Disassembly.Proofs.Joining
import Disassembly.Proofs.Regime
import Mathlib.Data.List.Forall2

/-!
# Prefixes and their number

The prefixes of an instruction are kept as one text and their number beside it, and
neither is computed from the other. As long as no token contains a space, the words of
the text are what was stored of the tokens, and there are as many of them as are
counted.
-/

namespace Disassembly

open Instruction GrowableText

namespace TextField

theorem append_of_ok {field : TextField} {separator token : String} {n : Nat}
    (h : (append field separator token).result = .ok n) :
    ∃ part rest, token = part ++ rest ∧
      content (append field separator token).state =
        content field ++ piece (content field) separator part ∧
      n = (piece (content field) separator part).utf8ByteSize ∧
      (Growable field → part = token) := by
  by_cases hgrowable : Growable field
  · rcases hgrowable.append_of_ok h with ⟨hcontent, hsize⟩
    exact ⟨token, "", (String.append_empty).symm, hcontent, hsize, fun _ => rfl⟩
  · cases field with
    | none => exact absurd growable_none hgrowable
    | some text =>
        cases text with
        | growable t =>
            refine absurd ?_ hgrowable
            intro u hu
            cases hu
            rfl
        | bounded t =>
            rcases Utf8.takeBytes_append_rest
              (t.remaining - (lead t.content separator).utf8ByteSize) token with ⟨rest, hrest⟩
            have hentry := t.entry_eq_piece_part separator token
            cases h
            refine ⟨t.part separator token, rest, hrest, ?_, ?_, ?_⟩
            · exact congrArg (t.content ++ ·) hentry
            · exact congrArg String.utf8ByteSize hentry
            · intro hfalse
              exact absurd hfalse hgrowable

end TextField

namespace Instruction

/-!
# Words
-/

/-- What stands between the spaces of a text. An empty text has no words. -/
def words (s : String) : List String :=
  if s = "" then [] else (s.toList.splitOn ' ').map String.ofList

theorem filter_eq_of_ne {texts : List String} (hne : ∀ text ∈ texts, text ≠ "") :
    texts.filter (fun s => s != "") = texts := by
  apply List.filter_eq_self.mpr
  intro text htext
  simpa using hne text htext

theorem joinTexts_eq_empty_iff_of_ne {texts : List String} (hne : ∀ text ∈ texts, text ≠ "") :
    joinTexts " " texts = "" ↔ texts = [] := by
  rw [joinTexts_eq_empty_iff, filter_eq_of_ne hne]

theorem words_joinTexts {texts : List String} (hne : ∀ text ∈ texts, text ≠ "")
    (hspace : ∀ text ∈ texts, ' ' ∉ text.toList) : words (joinTexts " " texts) = texts := by
  by_cases hempty : texts = []
  · subst hempty
    rfl
  · have hparts : ∀ part ∈ texts.map String.toList, ' ' ∉ part := by
      intro part hpart
      rcases List.mem_map.mp hpart with ⟨text, htext, rfl⟩
      exact hspace text htext
    have hnil : texts.map String.toList ≠ [] := mt List.map_eq_nil_iff.mp hempty
    rw [words, if_neg (mt (joinTexts_eq_empty_iff_of_ne hne).mp hempty), joinTexts,
      filter_eq_of_ne hne, String.toList_intercalate]
    show (([' '].intercalate (texts.map String.toList)).splitOn ' ').map String.ofList = texts
    rw [List.splitOn_intercalate ' ' hparts hnil, List.map_map]
    simp

example : words "rep é lock" = ["rep", "é", "lock"] := by decide

theorem two_mul_length_le {texts : List String} (hne : ∀ text ∈ texts, text ≠ "") :
    2 * texts.length ≤ (joinTexts " " texts).utf8ByteSize + 1 := by
  induction texts using List.reverseRecOn with
  | nil => exact Nat.zero_le _
  | append_singleton earlier last ih =>
      have hwords : ∀ text ∈ earlier, text ≠ "" :=
        fun text htext => hne text (List.mem_append_left [last] htext)
      have hlast : last ≠ "" := hne last (List.mem_append_right earlier List.mem_cons_self)
      have hsize : last.utf8ByteSize ≠ 0 := mt String.utf8ByteSize_eq_zero_iff.mp hlast
      have hearlier := ih hwords
      rw [joinTexts_concat, List.length_append, List.length_singleton, String.utf8ByteSize_append]
      by_cases hfirst : earlier = []
      · subst hfirst
        rw [joinTexts_nil, piece_first]
        simp only [List.length_nil]
        omega
      · have hjoined := mt (joinTexts_eq_empty_iff_of_ne hwords).mp hfirst
        have hspace : " ".utf8ByteSize = 1 := rfl
        rw [piece_of_ne hjoined hlast, String.utf8ByteSize_append]
        omega

/-!
# Histories of the prefixes
-/

structure PrefixHistory where
  fixed : Bool
  /-- The tokens that were to be added since the prefixes were last cleared. -/
  tokens : List String := []
  /-- Those of the tokens that were not refused. -/
  granted : List String := []
deriving DecidableEq

def PrefixHistory.enter (history : PrefixHistory) : Operation → Response → PrefixHistory
  | .addPrefix token, .done =>
      { history with tokens := history.tokens ++ [token], granted := history.granted ++ [token] }
  | .addPrefix token, _ => { history with tokens := history.tokens ++ [token] }
  | .clear, _ => { fixed := history.fixed }
  | _, _ => history

/-- The ways in which an instruction can arise, each with a history. -/
inductive Descends : Instruction → PrefixHistory → Prop where
  | empty : Descends empty { fixed := false }
  | withSlots {n : Nat} {i : Instruction} : withSlots n = .ok i → Descends i { fixed := false }
  | ofLayout {l : Layout} {i : Instruction} : ofLayout l = .ok i → Descends i { fixed := true }
  | dupe {i copy : Instruction} {history : PrefixHistory} :
      Descends i history → i.dupe = .ok copy → Descends copy history
  | perform {i : Instruction} {history : PrefixHistory} (operation : Operation) :
      Descends i history →
      Descends (i.perform operation).2 (history.enter operation (i.perform operation).1)

variable {i : Instruction} {history : PrefixHistory}

theorem Descends.reachable (h : Descends i history) : Reachable i := by
  induction h with
  | empty => exact .empty
  | withSlots hmake => exact .withSlots hmake
  | ofLayout hmake => exact .ofLayout hmake
  | dupe _ hdupe ih => exact ih.dupe hdupe
  | perform operation _ ih => exact ih.perform operation

/-- Every instruction that can arise has a history. -/
theorem Reachable.exists_descends (h : Reachable i) : ∃ history, Descends i history := by
  induction h with
  | empty => exact ⟨_, .empty⟩
  | withSlots hmake => exact ⟨_, .withSlots hmake⟩
  | ofLayout hmake => exact ⟨_, .ofLayout hmake⟩
  | dupe _ hdupe ih =>
      rcases ih with ⟨history, hsource⟩
      exact ⟨history, hsource.dupe hdupe⟩
  | perform operation _ ih =>
      rcases ih with ⟨history, hbefore⟩
      exact ⟨_, hbefore.perform operation⟩

theorem Descends.run (h : Descends i history) (operations : List Operation) :
    Descends (i.run operations).2
      (i.accumulate (fun _ operation response history => history.enter operation response) history
        operations) := by
  refine accumulate_invariant (P := Descends) ?_ h
  intro j before operation _ hbefore
  exact hbefore.perform operation

theorem perform_addPrefix_of_ok {token : String} {n : Nat}
    (h : (TextField.append i.prefixes " " token).result = .ok n) :
    i.perform (.addPrefix token) =
      (.done,
        { i with
          prefixes := (TextField.append i.prefixes " " token).state
          prefixCount := if n = 0 then i.prefixCount else i.prefixCount + 1 }) := by
  simp only [perform, addPrefix, answer_ofField_of_ok h, h]

theorem perform_addPrefix_of_error {token : String} {e : StorageError}
    (h : (TextField.append i.prefixes " " token).result = .error e) :
    i.perform (.addPrefix token) = (.refused (.ofStorage .prefixes e), i) := by
  simp only [perform, addPrefix, answer_ofField_of_error h, h,
    TextField.state_append_of_error h]

theorem prefixCount_perform_addPrefix (i : Instruction) (token : String) :
    let after := (i.perform (.addPrefix token)).2
    after.prefixCount =
      if after.prefixes.content = i.prefixes.content then i.prefixCount
      else i.prefixCount + 1 := by
  cases hresult : (TextField.append i.prefixes " " token).result with
  | error e =>
      rw [perform_addPrefix_of_error hresult]
      exact (if_pos rfl).symm
  | ok n =>
      rcases TextField.append_of_ok hresult with ⟨part, _, _, hcontent, hn, _⟩
      rw [perform_addPrefix_of_ok hresult]
      simp only [hcontent, String.append_eq_left_iff, hn, String.utf8ByteSize_eq_zero_iff]

/-!
# Prefixes, spelled out
-/

def CutFrom (words tokens : List String) : Prop :=
  List.SublistForall₂ (fun word token => ∃ rest, token = word ++ rest) words tokens

structure Spelled (i : Instruction) (history : PrefixHistory) (words : List String) : Prop where
  content_eq : i.prefixes.content = joinTexts " " words
  count_eq : i.prefixCount = words.length
  word_ne : ∀ word ∈ words, word ≠ ""
  cut : CutFrom words history.tokens
  exact : history.fixed = false →
    i.prefixes.Growable ∧ words = history.granted.filter fun s => s != ""

namespace CutFrom

variable {words tokens : List String}

theorem mono (h : CutFrom words tokens) (token : String) : CutFrom words (tokens ++ [token]) := by
  rcases List.sublistForall₂_iff.mp h with ⟨chosen, hcut, hchosen⟩
  exact List.sublistForall₂_iff.mpr ⟨chosen, hcut, hchosen.trans (List.sublist_append_left _ _)⟩

theorem concat (h : CutFrom words tokens) (part rest : String) :
    CutFrom (words ++ [part]) (tokens ++ [part ++ rest]) := by
  rcases List.sublistForall₂_iff.mp h with ⟨chosen, hcut, hchosen⟩
  refine List.sublistForall₂_iff.mpr ⟨chosen ++ [part ++ rest], ?_, hchosen.append_right _⟩
  exact List.rel_append hcut (.cons ⟨rest, rfl⟩ .nil)

theorem forall_notMem (h : CutFrom words tokens) {c : Char}
    (hc : ∀ token ∈ tokens, c ∉ token.toList) : ∀ word ∈ words, c ∉ word.toList := by
  induction h with
  | nil =>
      intro word hword
      cases hword
  | cons hcut _ ih =>
      rcases hcut with ⟨rest, rfl⟩
      rcases List.forall_mem_cons.mp hc with ⟨hfirst, hothers⟩
      rw [String.toList_append, List.mem_append, not_or] at hfirst
      exact List.forall_mem_cons.mpr ⟨hfirst.1, ih hothers⟩
  | cons_right _ ih => exact ih (List.forall_mem_cons.mp hc).2

end CutFrom

namespace Spelled

variable {words : List String}

theorem of_new (hcontent : i.prefixes.content = "") (hcount : i.prefixCount = 0) {fixed : Bool}
    (hgrowable : fixed = false → i.prefixes.Growable) : Spelled i { fixed } [] where
  content_eq := hcontent
  count_eq := hcount
  word_ne := by
    intro word hword
    cases hword
  cut := .nil
  exact := fun hfixed => ⟨hgrowable hfixed, rfl⟩

theorem of_content_eq {j : Instruction} (h : Spelled i history words)
    (hcontent : j.prefixes.content = i.prefixes.content) (hcount : j.prefixCount = i.prefixCount)
    (hgrowable : i.prefixes.Growable → j.prefixes.Growable) : Spelled j history words where
  content_eq := hcontent.trans h.content_eq
  count_eq := hcount.trans h.count_eq
  word_ne := h.word_ne
  cut := h.cut
  exact := by
    intro hfixed
    rcases h.exact hfixed with ⟨hbefore, hwords⟩
    exact ⟨hgrowable hbefore, hwords⟩

theorem dupe {copy : Instruction} (h : Spelled i history words) (hi : i.WellFormed)
    (hdupe : i.dupe = .ok copy) : Spelled copy history words := by
  rcases dupe_eq_ok hdupe with ⟨_, _, _, _, hprefixes, _, _, hparts⟩
  refine h.of_content_eq ?_ ?_ (fun _ => TextField.growable_snapshot hprefixes)
  · rw [TextField.content, TextField.content, TextField.content?_snapshot hprefixes]
  · rw [hparts]
    exact hi.prefixCount_eq

theorem clear (h : Spelled i history words) : Spelled i.clear { fixed := history.fixed } [] :=
  .of_new (TextField.content_clear i.prefixes) rfl fun hfixed => (h.exact hfixed).1.write .clear

theorem skip {j : Instruction} (h : Spelled i history words)
    (hcontent : j.prefixes.content = i.prefixes.content) (hcount : j.prefixCount = i.prefixCount)
    (hgrowable : i.prefixes.Growable → j.prefixes.Growable) {token : String}
    (hwhole : i.prefixes.Growable → token = "") :
    Spelled j (history.enter (.addPrefix token) .done) words := by
  have hkept := h.of_content_eq hcontent hcount hgrowable
  refine { hkept with cut := h.cut.mono token, exact := ?_ }
  intro hfixed
  rcases hkept.exact hfixed with ⟨hafter, hwords⟩
  refine ⟨hafter, ?_⟩
  rw [hwhole (h.exact hfixed).1]
  show words = (history.granted ++ [""]).filter _
  rw [List.filter_append, ← hwords]
  exact (List.append_nil words).symm

theorem concat {j : Instruction} (h : Spelled i history words) {part rest : String}
    (hpart : part ≠ "")
    (hcontent : j.prefixes.content = i.prefixes.content ++ piece i.prefixes.content " " part)
    (hcount : j.prefixCount = i.prefixCount + 1)
    (hgrowable : i.prefixes.Growable → j.prefixes.Growable)
    (hwhole : i.prefixes.Growable → part = part ++ rest) :
    Spelled j (history.enter (.addPrefix (part ++ rest)) .done) (words ++ [part]) where
  content_eq := by rw [hcontent, h.content_eq, joinTexts_concat]
  count_eq := by
    rw [hcount, h.count_eq, List.length_append]
    rfl
  word_ne := by
    intro word hword
    rcases List.mem_append.mp hword with hearlier | hlast
    · exact h.word_ne word hearlier
    · rw [List.mem_singleton.mp hlast]
      exact hpart
  cut := h.cut.concat part rest
  exact := by
    intro hfixed
    rcases h.exact hfixed with ⟨hbefore, hwords⟩
    refine ⟨hgrowable hbefore, ?_⟩
    show words ++ [part] = (history.granted ++ [part ++ rest]).filter _
    rw [← hwhole hbefore, List.filter_append, ← hwords]
    simp [hpart]

theorem addPrefix_of_error (h : Spelled i history words) {token : String} {e : StorageError}
    (hresult : (TextField.append i.prefixes " " token).result = .error e) :
    Spelled (i.perform (.addPrefix token)).2
      (history.enter (.addPrefix token) (i.perform (.addPrefix token)).1) words := by
  rw [perform_addPrefix_of_error hresult]
  exact { h with cut := h.cut.mono token }

theorem addPrefix_of_ok (h : Spelled i history words) {token : String} {n : Nat}
    (hresult : (TextField.append i.prefixes " " token).result = .ok n) :
    ∃ after, Spelled (i.perform (.addPrefix token)).2
      (history.enter (.addPrefix token) (i.perform (.addPrefix token)).1) after := by
  rcases TextField.append_of_ok hresult with ⟨part, rest, rfl, hcontent, hn, hwhole⟩
  rw [perform_addPrefix_of_ok hresult]
  have hgrowable : i.prefixes.Growable →
      TextField.Growable (TextField.append i.prefixes " " (part ++ rest)).state :=
    fun hbefore => hbefore.write (.append " " (part ++ rest))
  by_cases hpart : part = ""
  · subst hpart
    rw [piece_empty, String.append_empty] at hcontent
    have hnothing : n = 0 := by rw [hn, piece_empty, String.utf8ByteSize_empty]
    refine ⟨words, h.skip hcontent (if_pos hnothing) hgrowable ?_⟩
    exact fun hbefore => (hwhole hbefore).symm
  · have hstored : n ≠ 0 := by
      rw [hn, ne_eq, String.utf8ByteSize_eq_zero_iff, piece_eq_empty_iff]
      exact hpart
    exact ⟨words ++ [part], h.concat hpart hcontent (if_neg hstored) hgrowable hwhole⟩

theorem perform (h : Spelled i history words) (operation : Operation) :
    ∃ after, Spelled (i.perform operation).2
      (history.enter operation (i.perform operation).1) after := by
  cases operation with
  | addPrefix token =>
      cases hresult : (TextField.append i.prefixes " " token).result with
      | error e => exact ⟨words, h.addPrefix_of_error hresult⟩
      | ok n => exact h.addPrefix_of_ok hresult
  | clear => exact ⟨[], h.clear⟩
  | _ =>
      refine ⟨words, h.of_content_eq ?_ ?_ ?_⟩
      all_goals rw [state_perform]
      exact id

end Spelled

theorem Descends.exists_spelled (h : Descends i history) :
    ∃ words, Spelled i history words := by
  induction h with
  | empty => exact ⟨[], .of_new rfl rfl fun _ => TextField.growable_none⟩
  | withSlots hmake =>
      rcases withSlots_eq_ok hmake with ⟨rfl, _⟩
      exact ⟨[], .of_new rfl rfl fun _ => TextField.growable_none⟩
  | ofLayout hmake =>
      cases ofLayout_eq_ok hmake
      refine ⟨[], .of_new rfl rfl ?_⟩
      intro hfixed
      cases hfixed
  | dupe hsource hdupe ih =>
      rcases ih with ⟨words, hwords⟩
      exact ⟨words, hwords.dupe hsource.reachable.wellFormed hdupe⟩
  | perform operation _ ih =>
      rcases ih with ⟨words, hwords⟩
      exact hwords.perform operation

/-!
# What the prefixes tell
-/

structure PrefixesCounted (i : Instruction) (history : PrefixHistory) : Prop where
  count_eq : i.prefixCount = (words i.prefixes.content).length
  count_eq_zero_iff : i.prefixCount = 0 ↔ i.prefixes.content = ""
  word_ne : ∀ word ∈ words i.prefixes.content, word ≠ ""
  cut : CutFrom (words i.prefixes.content) history.tokens
  exact : history.fixed = false →
    words i.prefixes.content = history.granted.filter fun s => s != ""
  size : 2 * i.prefixCount ≤ i.prefixes.content.utf8ByteSize + 1
  count_lt : i.prefixCount < Storage.limit
  counted : ∀ token,
    let after := (i.perform (.addPrefix token)).2
    after.prefixCount =
      if after.prefixes.content = i.prefixes.content then i.prefixCount else i.prefixCount + 1

/-- As long as no token contains a space, the prefixes of every instruction can be read again from
their text. -/
theorem prefixesCounted_of_descends (h : Descends i history)
    (hspace : ∀ token ∈ history.tokens, ' ' ∉ token.toList) : PrefixesCounted i history := by
  rcases h.exists_spelled with ⟨texts, htexts⟩
  have hwords : words i.prefixes.content = texts := by
    rw [htexts.content_eq]
    exact words_joinTexts htexts.word_ne (htexts.cut.forall_notMem hspace)
  refine ⟨?_, ?_, ?_, ?_, ?_, ?_, h.reachable.wellFormed.prefixCount_lt,
    prefixCount_perform_addPrefix i⟩
  · rw [hwords]
    exact htexts.count_eq
  · rw [htexts.count_eq, htexts.content_eq, joinTexts_eq_empty_iff_of_ne htexts.word_ne]
    exact List.length_eq_zero_iff
  · rw [hwords]
    exact htexts.word_ne
  · rw [hwords]
    exact htexts.cut
  · rw [hwords]
    exact fun hfixed => (htexts.exact hfixed).2
  · rw [htexts.count_eq, htexts.content_eq]
    exact two_mul_length_le htexts.word_ne

/-- A copy of an instruction with a layout, in which one token was cut inside and the next one
dropped, takes one more prefix. -/
theorem prefixesCounted_of_cut_copy :
    let i := ((blank ⟨8, 2, 1, 8⟩).run [.addPrefix "lock", .addPrefix "ééé", .addPrefix "x"]).2
    let copy : Instruction :=
      { text := some .empty
        prefixes := some (.growable ⟨"lock é", 7⟩)
        prefixCount := 2
        mnemonic := some .empty
        comment := some .empty }
    let later := (copy.run [.addPrefix "rep"]).2
    let tokens := ["lock", "ééé", "x", "rep"]
    i.dupe = .ok copy ∧ later.prefixes.content = "lock é rep" ∧ later.prefixCount = 3 ∧
      Descends later { fixed := true, tokens, granted := tokens } ∧
      (∀ token ∈ tokens, ' ' ∉ token.toList) ∧
      PrefixesCounted later { fixed := true, tokens, granted := tokens } := by
  intro i copy later tokens
  have hmade : Descends (blank ⟨8, 2, 1, 8⟩) { fixed := true } :=
    .ofLayout (l := ⟨8, 2, 1, 8⟩) rfl
  have hfilled := hmade.run [.addPrefix "lock", .addPrefix "ééé", .addPrefix "x"]
  have hdupe : i.dupe = .ok copy := by rfl
  have hlater : Descends later { fixed := true, tokens, granted := tokens } :=
    (hfilled.dupe hdupe).run [.addPrefix "rep"]
  have hspace : ∀ token ∈ tokens, ' ' ∉ token.toList := by decide
  exact ⟨hdupe, by decide, by decide, hlater, hspace,
    prefixesCounted_of_descends hlater hspace⟩

end Instruction
end Disassembly
