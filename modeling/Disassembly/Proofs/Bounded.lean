import Disassembly.Proofs.Text
import Disassembly.Text.Run

/-!
# What bounded text promises

A write to bounded text stores the longest leading part of its input that fits, cut
between two characters. A token that follows a separator is stored only if its first
character fits behind the separator; the two are then stored as two writes would store
them.
-/

namespace Disassembly

/-!
# The longest leading part that fits
-/

namespace Utf8

/-- `front` is the longest leading part of `s` that takes at most `room` bytes and does not end
within a character. -/
structure LongestFit (room : Nat) (s front : String) : Prop where
  leading : ∃ back, s = front ++ back
  size_le : front.utf8ByteSize ≤ room
  longest : ∀ index, IsBoundary s index → index ≤ room → index ≤ front.utf8ByteSize

theorem longestFit_takeBytes (room : Nat) (s : String) :
    LongestFit room s (takeBytes room s) where
  leading := takeBytes_append_rest room s
  size_le := size_takeBytes_le room s
  longest := by
    rintro index ⟨front, back, rfl, rfl⟩ hfits
    exact size_le_size_takeBytes hfits

theorem takeBytes_ne_empty {room : Nat} {c : Char} {rest : String} (h : c.utf8Size ≤ room) :
    takeBytes room (String.singleton c ++ rest) ≠ "" := by
  intro hempty
  have hle : (String.singleton c).utf8ByteSize ≤
      (takeBytes room (String.singleton c ++ rest)).utf8ByteSize :=
    size_le_size_takeBytes (by simpa using h)
  have hpos := c.utf8Size_pos
  rw [hempty, String.utf8ByteSize_singleton] at hle
  have hzero : "".utf8ByteSize = 0 := rfl
  omega

theorem exists_first_of_takeBytes_ne_empty {room : Nat} {s : String} (h : takeBytes room s ≠ "") :
    ∃ c rest, s = String.singleton c ++ rest ∧ c.utf8Size ≤ room := by
  cases hs : s.toList with
  | nil =>
      have hempty : s = "" := by rw [← String.ofList_toList (s := s), hs, String.ofList_nil]
      rw [hempty, takeBytes_empty] at h
      exact absurd rfl h
  | cons c rest =>
      have hsplit : s = String.singleton c ++ String.ofList rest := by
        rw [← String.toList_inj, String.toList_append, hs]
        simp
      by_cases hfits : c.utf8Size ≤ room
      · exact ⟨c, String.ofList rest, hsplit, hfits⟩
      · have hnil : fitting room s.toList = [] := by rw [hs]; simp [fitting, hfits]
        rw [takeBytes, hnil] at h
        exact absurd rfl h

end Utf8

namespace BoundedText

/-!
# Tokens behind a separator
-/

def Admits (t : BoundedText) (separator token : String) : Prop :=
  ∃ c rest, token = String.singleton c ++ rest ∧
    separator.utf8ByteSize + c.utf8Size ≤ t.remaining

variable {t : BoundedText} {separator token : String}

theorem Admits.size_le (h : t.Admits separator token) :
    separator.utf8ByteSize ≤ t.remaining := by
  rcases h with ⟨c, rest, _, hfits⟩
  omega

theorem admits_iff : t.Admits separator token ↔
    Utf8.takeBytes (t.remaining - separator.utf8ByteSize) token ≠ "" := by
  constructor
  · rintro ⟨c, rest, rfl, hfits⟩
    exact Utf8.takeBytes_ne_empty (by omega)
  · intro hcut
    rcases Utf8.exists_first_of_takeBytes_ne_empty hcut with ⟨c, rest, htoken, hfits⟩
    have hpos := c.utf8Size_pos
    exact ⟨c, rest, htoken, by omega⟩

theorem entry_of_not_admits (hcontent : t.content ≠ "") (h : ¬ t.Admits separator token) :
    t.entry separator token = "" := by
  rw [admits_iff, ne_eq, Decidable.not_not] at h
  simp [entry, hcontent, h]

theorem entry_of_admits (hcontent : t.content ≠ "") (h : t.Admits separator token) :
    t.entry separator token =
      separator ++ Utf8.takeBytes (t.remaining - separator.utf8ByteSize) token := by
  simp [entry, hcontent, admits_iff.mp h]

theorem append_eq_push_push (hcontent : t.content ≠ "") (h : t.Admits separator token) :
    t.append separator token =
      ((t.push separator).1 + ((t.push separator).2.push token).1,
        ((t.push separator).2.push token).2) := by
  have hseparator : t.fit separator = separator := Utf8.takeBytes_of_size_le h.size_le
  have hroom : (t.store separator).remaining = t.remaining - separator.utf8ByteSize := by
    simp only [remaining, limit, size, store, String.utf8ByteSize_append]
    omega
  have htoken : (t.store separator).fit token =
      Utf8.takeBytes (t.remaining - separator.utf8ByteSize) token := by
    rw [fit, hroom]
  simp only [append, push, hseparator, htoken, entry_of_admits hcontent h,
    String.utf8ByteSize_append]
  simp only [store, String.append_assoc]

/-!
# The contract of a capacity
-/

theorem Sound.push (h : t.Sound) (s : String) : (t.push s).2.Sound :=
  h.store (size_fit_le t s)

/-- What a bounded text of the given capacity promises, of its content and of the next request. -/
structure Contract (capacity : Nat) (t : BoundedText) : Prop where
  capacity_eq : t.capacity = capacity
  size_le : t.size ≤ capacity - 1
  size_add_remaining : t.size + t.remaining = capacity - 1
  set : ∀ s, ∃ front, Utf8.LongestFit (capacity - 1) s front ∧
    (Text.bounded t).set s = .done (.bounded ⟨front, capacity⟩) front.utf8ByteSize
  push : ∀ s, ∃ front, Utf8.LongestFit t.remaining s front ∧
    (Text.bounded t).push s =
      .done (.bounded ⟨t.content ++ front, capacity⟩) front.utf8ByteSize
  append_empty : ∀ separator, (Text.bounded t).append separator "" = .done (.bounded t) 0
  append_first : ∀ separator token, t.content = "" →
    (Text.bounded t).append separator token = (Text.bounded t).push token
  append_admitted : ∀ separator token, t.content ≠ "" → t.Admits separator token →
    ∃ front, Utf8.LongestFit (t.remaining - separator.utf8ByteSize) token front ∧ front ≠ "" ∧
      (Text.bounded t).append separator token =
        .done (.bounded ⟨t.content ++ separator ++ front, capacity⟩)
          (separator.utf8ByteSize + front.utf8ByteSize)
  append_pushes : ∀ separator token, t.content ≠ "" → t.Admits separator token →
    ((Text.bounded t).append separator token).state =
      (((Text.bounded t).push separator).state.push token).state
  append_dropped : ∀ separator token, t.content ≠ "" → ¬ t.Admits separator token →
    (Text.bounded t).append separator token = .done (.bounded t) 0
  clear : (Text.bounded t).clear = .bounded ⟨"", capacity⟩
  push_reports : ∀ s, ∃ n, ((Text.bounded t).push s).result = .ok n ∧
    ((Text.bounded t).push s).state.size = t.size + n
  append_reports : ∀ separator token, ∃ n,
    ((Text.bounded t).append separator token).result = .ok n ∧
      ((Text.bounded t).append separator token).state.size = t.size + n
  reserved : ∀ request,
    Storage.grow? capacity 0 ((Text.bounded t).perform request).state.size = some capacity

theorem set_eq (t : BoundedText) (s : String) :
    t.set s =
      ((Utf8.takeBytes t.limit s).utf8ByteSize, ⟨Utf8.takeBytes t.limit s, t.capacity⟩) := by
  have hfit : t.clear.fit s = Utf8.takeBytes t.limit s := rfl
  show ((t.clear.fit s).utf8ByteSize, t.clear.store (t.clear.fit s)) = _
  rw [hfit]
  simp [store, clear]

theorem append_of_not_admits (hcontent : t.content ≠ "") (h : ¬ t.Admits separator token) :
    t.append separator token = (0, t) := by
  simp [append, entry_of_not_admits hcontent h, store]

theorem append_of_content_eq_empty (hcontent : t.content = "") :
    t.append separator token = t.push token := by
  simp [append, push, entry, hcontent]

theorem append_of_admits (hcontent : t.content ≠ "") (h : t.Admits separator token) :
    let front := Utf8.takeBytes (t.remaining - separator.utf8ByteSize) token
    t.append separator token =
      (separator.utf8ByteSize + front.utf8ByteSize,
        ⟨t.content ++ separator ++ front, t.capacity⟩) := by
  simp [append, entry_of_admits hcontent h, store, String.append_assoc]

theorem Sound.perform (h : t.Sound) (request : Text.Request) :
    ∃ n b, (Text.bounded t).perform request = .done (.bounded b) n ∧
      b.capacity = t.capacity ∧ b.Sound := by
  cases request with
  | set s => exact ⟨_, (t.set s).2, rfl, rfl, h.set s⟩
  | push s => exact ⟨_, (t.push s).2, rfl, rfl, h.push s⟩
  | append separator token =>
      exact ⟨_, (t.append separator token).2, rfl, rfl, h.append separator token⟩
  | clear => exact ⟨_, t.clear, rfl, rfl, h.clear⟩

theorem Sound.reserved (h : t.Sound) (request : Text.Request) :
    Storage.grow? t.capacity 0 ((Text.bounded t).perform request).state.size =
      some t.capacity := by
  rcases h.perform request with ⟨n, b, hdone, hcapacity, hsound⟩
  have hle : b.size ≤ t.capacity - 1 := hcapacity ▸ hsound.1
  rw [hdone]
  apply Storage.grow?_of_le
  show 0 + b.size ≤ t.capacity
  omega

theorem Sound.contract (h : t.Sound) : t.Contract t.capacity where
  capacity_eq := rfl
  size_le := h.1
  size_add_remaining := Nat.add_sub_of_le h.1
  set := by
    intro s
    refine ⟨Utf8.takeBytes t.limit s, Utf8.longestFit_takeBytes t.limit s, ?_⟩
    rw [Text.set, set_eq]
    rfl
  push := by
    intro s
    exact ⟨t.fit s, Utf8.longestFit_takeBytes t.remaining s, rfl⟩
  append_empty := by
    intro separator
    simp [Text.append, Text.ofBounded, BoundedText.append, BoundedText.store]
  append_first := by
    intro separator token hcontent
    rw [Text.append, append_of_content_eq_empty hcontent]
    rfl
  append_admitted := by
    intro separator token hcontent hadmits
    refine ⟨_, Utf8.longestFit_takeBytes _ token, admits_iff.mp hadmits, ?_⟩
    rw [Text.append, append_of_admits hcontent hadmits]
    rfl
  append_pushes := by
    intro separator token hcontent hadmits
    rw [Text.append, append_eq_push_push hcontent hadmits]
    rfl
  append_dropped := by
    intro separator token hcontent hadmits
    rw [Text.append, append_of_not_admits hcontent hadmits]
    rfl
  clear := rfl
  push_reports := by
    intro s
    exact ⟨(t.fit s).utf8ByteSize, rfl, String.utf8ByteSize_append⟩
  append_reports := by
    intro separator token
    exact ⟨(t.entry separator token).utf8ByteSize, rfl, String.utf8ByteSize_append⟩
  reserved := h.reserved

theorem Sound.run (h : t.Sound) (requests : List Text.Request) :
    (∀ response ∈ ((Text.bounded t).run requests).1, ∃ n, response = .ok n) ∧
      ∃ b : BoundedText, ((Text.bounded t).run requests).2 = .bounded b ∧
        b.capacity = t.capacity ∧ b.Sound := by
  induction requests generalizing t with
  | nil =>
      constructor
      · intro response hresponse
        cases hresponse
      · exact ⟨t, rfl, rfl, h⟩
  | cons first rest ih =>
      rcases h.perform first with ⟨n, b, hdone, hcapacity, hsound⟩
      rcases ih hsound with ⟨hgranted, last, hlast, hsame, hlastSound⟩
      simp only [Text.run, hdone, Outcome.result_done, Outcome.state_done, List.forall_mem_cons]
      exact ⟨⟨⟨n, rfl⟩, hgranted⟩, last, hlast, hsame.trans hcapacity, hlastSound⟩

end BoundedText

namespace Text

/-- A new bounded text grants every request of a run, and after each of them keeps the contract of
the capacity that was reserved for it. -/
theorem contract_run_of_withCapacity {capacity : Nat} {t : Text}
    (h : withCapacity capacity = .ok t) (requests : List Request) :
    (∀ response ∈ (t.run requests).1, ∃ n, response = .ok n) ∧
      ∃ b : BoundedText, (t.run requests).2 = .bounded b ∧ b.Contract capacity := by
  rcases withCapacity_eq_ok h with ⟨rfl, hlimit⟩
  have hnew : BoundedText.Sound { capacity } := ⟨Nat.zero_le _, hlimit⟩
  rcases hnew.run requests with ⟨hgranted, b, hlast, hcapacity, hsound⟩
  have hcontract := hsound.contract
  rw [hcapacity] at hcontract
  exact ⟨hgranted, b, hlast, hcontract⟩

/-- A token is dropped because its first character does not fit behind the separator, and a
shorter one that comes later is stored. -/
theorem contract_run_wide_token :
    withCapacity 8 = .ok (.bounded { capacity := 8 }) ∧
      ∃ b : BoundedText,
        (run (.bounded { capacity := 8 }) [.set "locks", .append " " "é", .append " " "rep"]).2 =
          .bounded b ∧ b.content = "locks r" ∧ b.Contract 8 := by
  have hmade : withCapacity 8 = .ok (.bounded { capacity := 8 }) := rfl
  rcases contract_run_of_withCapacity hmade
    [.set "locks", .append " " "é", .append " " "rep"] with ⟨_, b, hlast, hcontract⟩
  have hstored : (Text.run (.bounded { capacity := 8 })
      [.set "locks", .append " " "é", .append " " "rep"]).2.content = "locks r" := by decide
  rw [hlast] at hstored
  exact ⟨hmade, b, hlast, hstored, hcontract⟩

end Text
end Disassembly
