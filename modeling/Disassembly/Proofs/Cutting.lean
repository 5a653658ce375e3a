import Disassembly.Proofs.Joining

/-!
# One cut of the joined text

Bounded text decides for each token that is appended whether it is stored as a whole,
cut, or dropped. If every character takes one byte, these decisions come to the same as
joining all tokens first and cutting the join once. The token that is the first not to
fit closes the text.
-/

namespace Disassembly

open Instruction GrowableText

namespace Utf8

def IsAscii (s : String) : Prop := ∀ c ∈ s.toList, c.val ≤ 127

instance (s : String) : Decidable (IsAscii s) :=
  List.decidableBAll (fun c : Char => c.val ≤ 127) s.toList

theorem bytes_fitting_of_ascii {cs : List Char} (h : ∀ c ∈ cs, c.val ≤ 127) (room : Nat) :
    bytes (fitting room cs) = min room (bytes cs) := by
  induction cs generalizing room with
  | nil => simp [fitting]
  | cons c rest ih =>
      have hbyte : c.utf8Size = 1 := Char.utf8Size_eq_one_iff.mpr (h c List.mem_cons_self)
      have hrest := ih (fun d hd => h d (List.mem_cons_of_mem c hd)) (room - 1)
      by_cases hroom : 1 ≤ room
      · simp only [fitting, hbyte, hroom, if_true, bytes_cons, hrest]
        omega
      · simp only [fitting, hbyte, hroom, if_false, bytes_nil, bytes_cons]
        omega

theorem size_takeBytes_of_isAscii {s : String} (h : IsAscii s) (room : Nat) :
    (takeBytes room s).utf8ByteSize = min room s.utf8ByteSize := by
  rw [takeBytes, size_ofList, bytes_fitting_of_ascii h, bytes_toList]

theorem takeBytes_zero (s : String) : takeBytes 0 s = "" :=
  String.utf8ByteSize_eq_zero_iff.mp (Nat.le_zero.mp (size_takeBytes_le 0 s))

end Utf8

/-!
# The first token that does not fit
-/

namespace BoundedText

variable {t : BoundedText} {separator token : String}

def Closed (separator : String) (t : BoundedText) : Prop :=
  t.remaining ≤ (lead t.content separator).utf8ByteSize

theorem part_of_closed (h : t.Closed separator) : t.part separator token = "" := by
  rw [part, Nat.sub_eq_zero_of_le h]
  exact Utf8.takeBytes_zero token

theorem append_of_closed (h : t.Closed separator) : t.append separator token = (0, t) := by
  rw [append, entry_eq_piece_part, part_of_closed h, piece_empty, store, String.append_empty]
  rfl

theorem append_eq_piece_part (t : BoundedText) (separator token : String) :
    (t.append separator token).2 =
      ⟨t.content ++ piece t.content separator (t.part separator token), t.capacity⟩ := by
  rw [append, entry_eq_piece_part, store]

/-- Of the first token that does not fit nothing is stored, because the separator takes the room, or
just so much that the content reaches the limit. -/
theorem part_cases (hascii : Utf8.IsAscii token) (hfits : t.size ≤ t.limit)
    (hover : t.limit < (t.content ++ piece t.content separator token).utf8ByteSize) :
    t.Closed separator ∨
      t.part separator token ≠ "" ∧
        (t.content ++ piece t.content separator (t.part separator token)).utf8ByteSize =
          t.limit := by
  by_cases hclosed : t.Closed separator
  · exact Or.inl hclosed
  · apply Or.inr
    have hsize : t.size + t.remaining = t.limit := Nat.add_sub_of_le hfits
    have hpart := Utf8.size_takeBytes_of_isAscii hascii
      (t.remaining - (lead t.content separator).utf8ByteSize)
    have htoken : token ≠ "" := by
      rintro rfl
      rw [piece_empty, String.append_empty] at hover
      exact absurd hfits (Nat.not_le.mpr hover)
    rw [piece_eq, if_neg htoken, String.utf8ByteSize_append, String.utf8ByteSize_append] at hover
    have hstored : t.part separator token ≠ "" := by
      intro hnone
      have hzero := String.utf8ByteSize_eq_zero_iff.mpr hnone
      rw [part, hpart] at hzero
      simp only [Closed, size] at *
      omega
    refine ⟨hstored, ?_⟩
    rw [piece_eq, if_neg hstored, String.utf8ByteSize_append, String.utf8ByteSize_append, part,
      hpart]
    simp only [Closed, size] at *
    omega

theorem closed_append (hascii : Utf8.IsAscii token) (hfits : t.size ≤ t.limit)
    (hover : t.limit < (t.content ++ piece t.content separator token).utf8ByteSize) :
    (t.append separator token).2.Closed separator := by
  rcases part_cases hascii hfits hover with hclosed | ⟨_, hfull⟩
  · rw [append_of_closed hclosed]
    exact hclosed
  · rw [append_eq_piece_part, Closed, remaining, limit, size, hfull, limit, Nat.sub_self]
    exact Nat.zero_le _

theorem exists_piece_eq_append (t : BoundedText) (separator token : String) :
    ∃ rest, piece t.content separator token =
      piece t.content separator (t.part separator token) ++ rest := by
  by_cases hnone : t.part separator token = ""
  · exact ⟨piece t.content separator token, by rw [hnone, piece_empty, String.empty_append]⟩
  · rcases Utf8.takeBytes_append_rest
      (t.remaining - (lead t.content separator).utf8ByteSize) token with ⟨rest, hrest⟩
    have htoken : token ≠ "" := by
      rintro rfl
      exact hnone (Utf8.takeBytes_empty _)
    refine ⟨rest, ?_⟩
    rw [piece_eq, piece_eq, if_neg hnone, if_neg htoken, String.append_assoc]
    exact congrArg (lead t.content separator ++ ·) hrest

/-!
# What is stored of a list of tokens
-/

/-- What text of this capacity holds of a list of tokens: all of them, or those in front of the
first one that does not fit and what is stored of that one. -/
inductive Kept (capacity : Nat) (separator : String) : List String → String → Prop where
  | whole {tokens : List String}
      (hfits : (joinTexts separator tokens).utf8ByteSize ≤ capacity - 1) :
      Kept capacity separator tokens (joinTexts separator tokens)
  | cut (front : List String) (token : String) (back : List String)
      (hascii : Utf8.IsAscii token)
      (hfits : (joinTexts separator front).utf8ByteSize ≤ capacity - 1)
      (hover : capacity - 1 < (joinTexts separator (front ++ [token])).utf8ByteSize) :
      Kept capacity separator (front ++ token :: back)
        (append ⟨joinTexts separator front, capacity⟩ separator token).2.content

def EndsInToken (separator : String) (tokens : List String) (content : String) : Prop :=
  content = "" ∨ ∃ front token back, tokens = front ++ token :: back ∧
    ∃ part rest, token = part ++ rest ∧ part ≠ "" ∧
      content = joinTexts separator (front ++ [part])

structure InSeparator (position : Nat) (separator : String) (front back : List String) : Prop where
  front_ne : joinTexts separator front ≠ ""
  back_ne : joinTexts separator back ≠ ""
  lt_position : (joinTexts separator front).utf8ByteSize < position
  position_le : position ≤ (joinTexts separator front).utf8ByteSize + separator.utf8ByteSize

/-- The content is the join of the tokens, cut once so as to take at most `limit` bytes. -/
structure CutOnce (limit : Nat) (separator : String) (tokens : List String) (content : String) :
    Prop where
  whole : (joinTexts separator tokens).utf8ByteSize ≤ limit →
    content = joinTexts separator tokens
  inSeparator : ∀ front back, tokens = front ++ back → InSeparator limit separator front back →
    content = joinTexts separator front
  elsewhere : limit < (joinTexts separator tokens).utf8ByteSize →
    (∀ front back, tokens = front ++ back → ¬ InSeparator limit separator front back) →
    content.utf8ByteSize = limit
  leading : ∃ rest, joinTexts separator tokens = content ++ rest
  ending : EndsInToken separator tokens content

theorem EndsInToken.append {tokens : List String} {content : String}
    (h : EndsInToken separator tokens content) (more : List String) :
    EndsInToken separator (tokens ++ more) content := by
  rcases h with hempty | ⟨front, token, back, rfl, hpart⟩
  · exact Or.inl hempty
  · exact Or.inr ⟨front, token, back ++ more, by simp, hpart⟩

theorem endsInToken_joinTexts (separator : String) (tokens : List String) :
    EndsInToken separator tokens (joinTexts separator tokens) := by
  induction tokens using List.reverseRecOn with
  | nil => exact Or.inl rfl
  | append_singleton earlier last ih =>
      by_cases hlast : last = ""
      · rw [joinTexts_concat, hlast, piece_empty, String.append_empty]
        exact ih.append [""]
      · exact Or.inr ⟨earlier, last, [], rfl, last, "", (String.append_empty).symm, hlast, rfl⟩

namespace InSeparator

variable {position : Nat} {early late front back : List String}

theorem lt_size (h : InSeparator position separator early late) :
    position < (joinTexts separator (early ++ late)).utf8ByteSize := by
  have hlate : 0 < (joinTexts separator late).utf8ByteSize :=
    Nat.pos_of_ne_zero (mt String.utf8ByteSize_eq_zero_iff.mp h.back_ne)
  rw [size_joinTexts_append h.front_ne h.back_ne]
  exact Nat.lt_of_le_of_lt h.position_le (Nat.lt_add_of_pos_right hlate)

theorem joinTexts_eq (h : InSeparator position separator early late)
    (hsame : front ++ token :: back = early ++ late)
    (hle : (joinTexts separator front).utf8ByteSize ≤ position)
    (hover : position < (joinTexts separator (front ++ [token])).utf8ByteSize) :
    joinTexts separator front = joinTexts separator early := by
  rcases List.append_eq_append_iff.mp hsame with ⟨mid, rfl, hlate⟩ | ⟨mid, rfl, hlate⟩
  · cases mid with
    | nil => rw [List.append_nil]
    | cons first others =>
        cases hlate
        have hlonger := Nat.lt_of_lt_of_le hover
          (size_joinTexts_concat_le separator front token others)
        exact absurd h.lt_position (Nat.lt_asymm hlonger)
  · by_cases hmid : joinTexts separator mid = ""
    · rw [joinTexts_append, hmid, piece_empty, String.append_empty]
    · have hbeyond : InSeparator position separator early mid :=
        ⟨h.front_ne, hmid, h.lt_position, h.position_le⟩
      exact absurd hbeyond.lt_size (Nat.not_lt.mpr hle)

end InSeparator

namespace Kept

variable {capacity : Nat} {tokens : List String} {content : String}

theorem closed_of_over (h : Kept capacity separator tokens content)
    (hlong : capacity - 1 < (joinTexts separator tokens).utf8ByteSize) :
    Closed separator ⟨content, capacity⟩ := by
  cases h with
  | whole hfits => exact absurd hfits (Nat.not_le.mpr hlong)
  | cut front token back hascii hfits hover =>
      rw [joinTexts_concat] at hover
      exact closed_append (t := ⟨joinTexts separator front, capacity⟩) hascii hfits hover

theorem eq_of_fits (h : Kept capacity separator tokens content)
    (hshort : (joinTexts separator tokens).utf8ByteSize ≤ capacity - 1) :
    content = joinTexts separator tokens := by
  cases h with
  | whole hfits => rfl
  | cut front token back hascii hfits hover =>
      have hlonger := size_joinTexts_concat_le separator front token back
      exact absurd (Nat.le_trans hlonger hshort) (Nat.not_le.mpr hover)

theorem append (h : Kept capacity separator tokens content) (hascii : Utf8.IsAscii token) :
    Kept capacity separator (tokens ++ [token])
      (BoundedText.append ⟨content, capacity⟩ separator token).2.content := by
  by_cases hlong : capacity - 1 < (joinTexts separator tokens).utf8ByteSize
  · rw [append_of_closed (h.closed_of_over hlong)]
    cases h with
    | whole hfits => exact absurd hfits (Nat.not_le.mpr hlong)
    | cut front first back hfirst hfits hover =>
        rw [List.append_assoc]
        exact .cut front first (back ++ [token]) hfirst hfits hover
  · have hshort := Nat.not_lt.mp hlong
    rw [h.eq_of_fits hshort]
    by_cases hnext : (joinTexts separator (tokens ++ [token])).utf8ByteSize ≤ capacity - 1
    · have hentry := hnext
      rw [joinTexts_concat] at hentry
      rw [content_append, entry_eq_piece (t := ⟨joinTexts separator tokens, capacity⟩) hentry,
        ← joinTexts_concat]
      exact .whole hnext
    · exact .cut tokens token [] hascii hshort (Nat.not_le.mp hnext)

/-!
# The place of the cut
-/

theorem inSeparator_of_closed {front : List String}
    (hclosed : Closed separator ⟨joinTexts separator front, capacity⟩)
    (hlt : (joinTexts separator front).utf8ByteSize < capacity - 1)
    (hover : capacity - 1 < (joinTexts separator (front ++ [token])).utf8ByteSize)
    (back : List String) : InSeparator (capacity - 1) separator front (token :: back) := by
  have hroom : capacity - 1 ≤ (joinTexts separator front).utf8ByteSize +
      (lead (joinTexts separator front) separator).utf8ByteSize :=
    Nat.sub_le_iff_le_add'.mp hclosed
  have hfront : joinTexts separator front ≠ "" := by
    intro hempty
    rw [lead, if_pos hempty] at hroom
    exact absurd hlt (Nat.not_lt.mpr hroom)
  refine ⟨hfront, ?_, hlt, ?_⟩
  · intro hempty
    have hlonger := size_joinTexts_concat_le separator front token back
    rw [joinTexts_append separator front (token :: back), hempty, piece_empty,
      String.append_empty] at hlonger
    exact absurd (Nat.lt_of_lt_of_le hover hlonger) (Nat.lt_asymm hlt)
  · rwa [lead, if_neg hfront] at hroom

theorem eq_of_inSeparator (h : Kept capacity separator tokens content) {early late : List String}
    (htokens : tokens = early ++ late)
    (hin : InSeparator (capacity - 1) separator early late) :
    content = joinTexts separator early := by
  cases h with
  | whole hfits =>
      rw [htokens] at hfits
      exact absurd hin.lt_size (Nat.not_lt.mpr hfits)
  | cut front token back hascii hfits hover =>
      have hsame := hin.joinTexts_eq htokens hfits hover
      have hclosed : Closed separator ⟨joinTexts separator early, capacity⟩ := by
        rw [Closed, lead, if_neg hin.front_ne]
        exact Nat.sub_le_iff_le_add'.mpr hin.position_le
      rw [hsame, append_of_closed hclosed]

theorem size_eq (h : Kept capacity separator tokens content)
    (hlong : capacity - 1 < (joinTexts separator tokens).utf8ByteSize)
    (hout : ∀ front back, tokens = front ++ back →
      ¬ InSeparator (capacity - 1) separator front back) :
    content.utf8ByteSize = capacity - 1 := by
  cases h with
  | whole hfits => exact absurd hfits (Nat.not_le.mpr hlong)
  | cut front token back hascii hfits hover =>
      have hgrown := hover
      rw [joinTexts_concat] at hgrown
      rcases part_cases (t := ⟨joinTexts separator front, capacity⟩) hascii hfits hgrown with
        hclosed | ⟨_, hfull⟩
      · rw [append_of_closed hclosed]
        rcases Nat.lt_or_eq_of_le hfits with hlt | hreached
        · have hin := inSeparator_of_closed hclosed hlt hover back
          exact absurd hin (hout front (token :: back) rfl)
        · exact hreached
      · rw [append_eq_piece_part]
        exact hfull

theorem leading (h : Kept capacity separator tokens content) :
    ∃ rest, joinTexts separator tokens = content ++ rest := by
  cases h with
  | whole hfits => exact ⟨"", (String.append_empty).symm⟩
  | cut front token back hascii hfits hover =>
      rcases exists_piece_eq_append ⟨joinTexts separator front, capacity⟩ separator token with
        ⟨rest, hrest⟩
      rw [List.append_cons front token back, joinTexts_append, joinTexts_concat, hrest,
        append_eq_piece_part, ← String.append_assoc, String.append_assoc]
      exact ⟨_, rfl⟩

theorem ending (h : Kept capacity separator tokens content) :
    EndsInToken separator tokens content := by
  cases h with
  | whole hfits => exact endsInToken_joinTexts separator tokens
  | cut front token back hascii hfits hover =>
      rw [append_eq_piece_part, ← joinTexts_concat]
      by_cases hnone : part ⟨joinTexts separator front, capacity⟩ separator token = ""
      · rw [hnone, joinTexts_concat, piece_empty, String.append_empty]
        exact (endsInToken_joinTexts separator front).append (token :: back)
      · rcases Utf8.takeBytes_append_rest _ token with ⟨rest, hrest⟩
        exact Or.inr ⟨front, token, back, rfl, _, rest, hrest, hnone, rfl⟩

theorem cutOnce (h : Kept capacity separator tokens content) :
    CutOnce (capacity - 1) separator tokens content where
  whole := h.eq_of_fits
  inSeparator := fun _ _ htokens hin => h.eq_of_inSeparator htokens hin
  elsewhere := h.size_eq
  leading := h.leading
  ending := h.ending

end Kept

end BoundedText

/-!
# Runs
-/

namespace Text

open BoundedText

variable {capacity : Nat} {separator : String} {tokens : List String}

theorem kept_run_appends (capacity : Nat) (hascii : ∀ token ∈ tokens, Utf8.IsAscii token) :
    ∃ content, (run (.bounded { capacity }) (appends separator tokens)).2 =
        .bounded ⟨content, capacity⟩ ∧ Kept capacity separator tokens content := by
  induction tokens using List.reverseRecOn with
  | nil => exact ⟨"", rfl, .whole (Nat.zero_le _)⟩
  | append_singleton earlier last ih =>
      rcases ih fun token htoken => hascii token (List.mem_append_left _ htoken) with
        ⟨content, hstate, hkept⟩
      have hlast := hascii last (List.mem_append_right _ List.mem_cons_self)
      refine ⟨_, ?_, hkept.append hlast⟩
      rw [run_appends_concat, hstate]
      rfl

theorem run_appends_of_closed {t : BoundedText} (h : t.Closed separator) (tokens : List String) :
    (Text.bounded t).run (appends separator tokens) =
      (tokens.map fun _ => .ok 0, .bounded t) := by
  induction tokens with
  | nil => rfl
  | cons first rest ih =>
      have hstep : (Text.bounded t).append separator first = .done (.bounded t) 0 := by
        rw [append, append_of_closed h]
        rfl
      show (((Text.bounded t).append separator first).result ::
          (((Text.bounded t).append separator first).state.run (appends separator rest)).1,
        (((Text.bounded t).append separator first).state.run (appends separator rest)).2) = _
      rw [hstep, Outcome.result_done, Outcome.state_done, ih]
      rfl

/-- New bounded text to which tokens are appended holds their join, which new growable text would
hold as a whole, cut once. If it does not hold all of it, then nothing is stored of any token that
is appended later. -/
theorem run_appends_eq_cut {t : Text} (hmade : withCapacity capacity = .ok t)
    (separator : String) (hascii : ∀ token ∈ tokens, Utf8.IsAscii token) :
    ∃ content, (t.run (appends separator tokens)).2 = .bounded ⟨content, capacity⟩ ∧
      CutOnce (capacity - 1) separator tokens content ∧
      (capacity - 1 < (joinTexts separator tokens).utf8ByteSize → ∀ later,
        (Text.bounded ⟨content, capacity⟩).run (appends separator later) =
          (later.map fun _ => .ok 0, .bounded ⟨content, capacity⟩)) ∧
      ((joinTexts separator tokens).utf8ByteSize < Storage.limit →
        ∃ g : GrowableText, (empty.run (appends separator tokens)).2 = .growable g ∧
          g.content = joinTexts separator tokens) := by
  rcases withCapacity_eq_ok hmade with ⟨rfl, _⟩
  rcases kept_run_appends capacity hascii with ⟨content, hstate, hkept⟩
  refine ⟨content, hstate, hkept.cutOnce, ?_, ?_⟩
  · intro hlong later
    exact run_appends_of_closed (hkept.closed_of_over hlong) later
  · intro hlimit
    exact (run_appends_growable hlimit).2

/-- The limit falls into the second separator, and the text ends in front of it. -/
theorem run_appends_cut_in_separator :
    let tokens := ["lock", "", "repne", "xacquire"]
    withCapacity 13 = .ok (.bounded { capacity := 13 }) ∧
      (∀ token ∈ tokens, Utf8.IsAscii token) ∧
      (run (.bounded { capacity := 13 }) (appends ", " tokens)).2 =
        .bounded ⟨"lock, repne", 13⟩ := by
  intro tokens
  have hmade : withCapacity 13 = .ok (.bounded { capacity := 13 }) := rfl
  have hascii : ∀ token ∈ tokens, Utf8.IsAscii token := by decide
  rcases run_appends_eq_cut hmade ", " hascii with ⟨content, hstate, hcut, _⟩
  have hin : InSeparator 12 ", " ["lock", "", "repne"] ["xacquire"] := by
    constructor <;> decide
  have hcontent : content = "lock, repne" :=
    hcut.inSeparator ["lock", "", "repne"] ["xacquire"] rfl hin
  rw [hcontent] at hstate
  exact ⟨hmade, hascii, hstate⟩

end Text
end Disassembly
