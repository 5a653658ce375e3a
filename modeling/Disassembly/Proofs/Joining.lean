import Disassembly.Instruction.Display
import Disassembly.Proofs.Interchange

/-!
# Joined texts

Whoever appends texts one after the other gets their join: an empty token adds nothing,
the first one that is not empty stands alone, and each later one follows a separator.
-/

namespace Disassembly

/-!
# Pieces
-/

namespace GrowableText

def lead (content separator : String) : String := if content = "" then "" else separator

theorem piece_eq (content separator token : String) :
    piece content separator token =
      if token = "" then "" else lead content separator ++ token := by
  unfold piece lead
  by_cases hcontent : content = ""
  · simp [hcontent]
  · simp [hcontent]

theorem piece_eq_empty_iff {content separator token : String} :
    piece content separator token = "" ↔ token = "" := by
  rw [piece_eq]
  by_cases htoken : token = ""
  · simp [htoken]
  · simp [htoken]

@[simp] theorem piece_empty (content separator : String) : piece content separator "" = "" :=
  if_pos rfl

theorem piece_first (separator token : String) : piece "" separator token = token := by
  unfold piece
  by_cases htoken : token = ""
  · simp [htoken]
  · simp [htoken]

theorem piece_of_ne {content separator token : String} (hcontent : content ≠ "")
    (htoken : token ≠ "") : piece content separator token = separator ++ token := by
  simp [piece, hcontent, htoken]

end GrowableText

namespace BoundedText

def part (t : BoundedText) (separator token : String) : String :=
  Utf8.takeBytes (t.remaining - (GrowableText.lead t.content separator).utf8ByteSize) token

theorem entry_eq_piece_part (t : BoundedText) (separator token : String) :
    t.entry separator token = GrowableText.piece t.content separator (t.part separator token) := by
  unfold entry part GrowableText.lead
  by_cases hcontent : t.content = ""
  · simp [hcontent, GrowableText.piece_first, fit]
  · simp [hcontent, GrowableText.piece]

end BoundedText

/-!
# Joins
-/

namespace Instruction

open GrowableText

variable {separator : String} {texts front back : List String}

theorem joinTexts_eq_empty_iff :
    joinTexts separator texts = "" ↔ texts.filter (fun s => s != "") = [] := by
  unfold joinTexts
  cases hkept : texts.filter (fun s => s != "") with
  | nil => simp
  | cons first rest =>
      have hmem : first ∈ texts.filter (fun s => s != "") := by
        rw [hkept]
        exact List.mem_cons_self
      have hfirst : first ≠ "" := by simpa using (List.mem_filter.mp hmem).2
      cases rest with
      | nil => simp [hfirst]
      | cons second others => simp [hfirst]

theorem joinTexts_append (separator : String) (front back : List String) :
    joinTexts separator (front ++ back) =
      joinTexts separator front ++
        piece (joinTexts separator front) separator (joinTexts separator back) := by
  by_cases hfront : joinTexts separator front = ""
  · rw [hfront, piece_first, joinTexts, List.filter_append, joinTexts_eq_empty_iff.mp hfront]
    simp [joinTexts]
  · by_cases hback : joinTexts separator back = ""
    · rw [hback, piece_empty, joinTexts, List.filter_append, joinTexts_eq_empty_iff.mp hback]
      simp [joinTexts]
    · rw [piece_of_ne hfront hback, ← String.append_assoc]
      unfold joinTexts
      rw [List.filter_append]
      exact String.intercalate_append_of_ne_nil (mt joinTexts_eq_empty_iff.mpr hfront)
        (mt joinTexts_eq_empty_iff.mpr hback)

theorem joinTexts_nil (separator : String) : joinTexts separator [] = "" := rfl

theorem joinTexts_singleton (separator text : String) : joinTexts separator [text] = text := by
  by_cases htext : text = ""
  · simp [joinTexts, htext]
  · simp [joinTexts, htext]

theorem joinTexts_concat (separator : String) (texts : List String) (last : String) :
    joinTexts separator (texts ++ [last]) =
      joinTexts separator texts ++ piece (joinTexts separator texts) separator last := by
  rw [joinTexts_append, joinTexts_singleton]

theorem size_joinTexts_le (separator : String) (front back : List String) :
    (joinTexts separator front).utf8ByteSize ≤
      (joinTexts separator (front ++ back)).utf8ByteSize := by
  rw [joinTexts_append, String.utf8ByteSize_append]
  exact Nat.le_add_right _ _

theorem size_joinTexts_concat_le (separator : String) (front : List String) (token : String)
    (back : List String) :
    (joinTexts separator (front ++ [token])).utf8ByteSize ≤
      (joinTexts separator (front ++ token :: back)).utf8ByteSize := by
  rw [List.append_cons front token back]
  exact size_joinTexts_le separator (front ++ [token]) back

theorem size_joinTexts_append (hfront : joinTexts separator front ≠ "")
    (hback : joinTexts separator back ≠ "") :
    (joinTexts separator (front ++ back)).utf8ByteSize =
      (joinTexts separator front).utf8ByteSize + separator.utf8ByteSize +
        (joinTexts separator back).utf8ByteSize := by
  rw [joinTexts_append, piece_of_ne hfront hback, String.utf8ByteSize_append,
    String.utf8ByteSize_append, Nat.add_assoc]

end Instruction

/-!
# Appending tokens to growable text
-/

namespace GrowableText

theorem exists_ok_push {t : GrowableText} {s : String}
    (h : (t.content ++ s).utf8ByteSize < Storage.limit) : ∃ n, (t.push s).result = .ok n := by
  rw [String.utf8ByteSize_append] at h
  unfold push
  cases hroom : Storage.grow? t.capacity t.size s.utf8ByteSize with
  | some room => exact ⟨s.utf8ByteSize, rfl⟩
  | none =>
      have hlimit : Storage.limit ≤ t.content.utf8ByteSize + s.utf8ByteSize :=
        (Storage.grow?_eq_none_iff.mp hroom).2
      omega

theorem exists_ok_append {t : GrowableText} {separator token : String}
    (h : (t.content ++ piece t.content separator token).utf8ByteSize < Storage.limit) :
    ∃ n, (t.append separator token).result = .ok n := by
  unfold piece at h
  unfold append
  by_cases htoken : token = ""
  · exact ⟨0, by rw [if_pos htoken]; rfl⟩
  · by_cases hcontent : t.content = ""
    · rw [if_neg htoken, if_pos hcontent] at h ⊢
      exact exists_ok_push h
    · rw [if_neg htoken, if_neg hcontent] at h ⊢
      exact exists_ok_push h

end GrowableText

namespace Text

open Instruction

def appends (separator : String) (tokens : List String) : List Request :=
  tokens.map (.append separator)

theorem run_appends_concat (t : Text) (separator : String) (tokens : List String) (last : String) :
    t.run (appends separator (tokens ++ [last])) =
      ((t.run (appends separator tokens)).1 ++
          [((t.run (appends separator tokens)).2.append separator last).result],
        ((t.run (appends separator tokens)).2.append separator last).state) := by
  rw [appends, List.map_append, run_append]
  rfl

theorem run_appends_growable {separator : String} {tokens : List String}
    (h : (joinTexts separator tokens).utf8ByteSize < Storage.limit) :
    (∀ response ∈ (empty.run (appends separator tokens)).1, response.isOk = true) ∧
      ∃ t : GrowableText, (empty.run (appends separator tokens)).2 = .growable t ∧
        t.content = joinTexts separator tokens := by
  induction tokens using List.reverseRecOn with
  | nil => exact ⟨by simp [appends], .empty, rfl, rfl⟩
  | append_singleton earlier last ih =>
      have hjoin := joinTexts_concat separator earlier last
      have hshorter : (joinTexts separator earlier).utf8ByteSize < Storage.limit := by
        rw [hjoin, String.utf8ByteSize_append] at h
        omega
      rcases ih hshorter with ⟨hgranted, t, hstate, hcontent⟩
      rw [hjoin, ← hcontent] at h
      rcases GrowableText.exists_ok_append h with ⟨n, hok⟩
      rw [run_appends_concat, hstate]
      constructor
      · intro response hresponse
        rcases List.mem_append.mp hresponse with hearlier | hlast
        · exact hgranted response hearlier
        · rw [List.mem_singleton.mp hlast]
          show (t.append separator last).result.isOk = true
          rw [hok]
          rfl
      · refine ⟨(t.append separator last).state, rfl, ?_⟩
        rw [(GrowableText.append_of_ok hok).1, hcontent, hjoin]

end Text

end Disassembly
