import Disassembly.Proofs.Text
import Disassembly.Text.Run

/-!
# The capacity of growable text

The storage of growable text is enlarged to exactly what a write needs, and a clearing
keeps it. To set the text gives the storage up. The capacity therefore tells how large
the content has been at most since the text was made or last set.
-/

namespace Disassembly

namespace Storage

theorem eq_max_of_grow? {capacity used extra room : Nat}
    (h : grow? capacity used extra = some room) : room = max capacity (used + extra) := by
  unfold grow? at h
  split at h
  case isTrue hfits =>
    cases h
    exact (Nat.max_eq_left hfits).symm
  case isFalse hover =>
    split at h
    · cases h
      exact (Nat.max_eq_right (Nat.le_of_not_le hover)).symm
    · cases h

end Storage

namespace Text

/-!
# Spans
-/

structure Span where
  sizes : List Nat
  cleared : Bool
deriving DecidableEq, Repr

namespace Span

def start (size : Nat) : Span := ⟨[size], false⟩

/-- The span after one more request, which was answered by `answer` and has left a text of the
given size. A set that was granted begins another span. -/
def enter (span : Span) (request : Request) (answer : Except StorageError Nat) (size : Nat) :
    Span :=
  match request, answer with
  | .set _, .ok _ => start size
  | .clear, _ => ⟨span.sizes ++ [size], true⟩
  | _, _ => ⟨span.sizes ++ [size], span.cleared⟩

end Span

def spanFrom (span : Span) (t : Text) : List Request → Span
  | [] => span
  | first :: rest =>
      let outcome := t.perform first
      spanFrom (span.enter first outcome.result outcome.state.size) outcome.state rest

def spanOf (t : Text) (requests : List Request) : Span := spanFrom (.start t.size) t requests

/-- A set ends what was remembered before it, unless it is refused. -/
example : spanOf empty [.push "nop", .clear, .set "é", .append ";" "x"] = ⟨[2, 4], false⟩ := by
  decide

end Text

namespace GrowableText

variable {t : GrowableText}

/-!
# What a request does to the capacity
-/

def perform (t : GrowableText) : Text.Request → Outcome GrowableText StorageError Nat
  | .set s => t.set s
  | .push s => t.push s
  | .append separator token => t.append separator token
  | .clear => .done t.clear 0

theorem perform_growable (t : GrowableText) (request : Text.Request) :
    (Text.growable t).perform request = (t.perform request).within .growable := by
  cases request <;> rfl

theorem set_eq_done (t : GrowableText) {s : String} (h : s.utf8ByteSize < Storage.limit) :
    t.set s = .done ⟨s, s.utf8ByteSize⟩ s.utf8ByteSize := by
  rw [set, copyOf_eq, if_pos h]

theorem set_cases (t : GrowableText) (s : String) :
    t.set s = .done ⟨s, s.utf8ByteSize⟩ s.utf8ByteSize ∨ t.set s = .refused t ⟨s.utf8ByteSize⟩ := by
  by_cases hlimit : s.utf8ByteSize < Storage.limit
  · exact Or.inl (set_eq_done t hlimit)
  · apply Or.inr
    rw [set, copyOf_eq, if_neg hlimit]

structure Grown (t u : GrowableText) : Prop where
  capacity_eq : u.capacity = max t.capacity u.size
  size_le : t.size ≤ u.size

theorem grown_self (h : t.size ≤ t.capacity) : Grown t t :=
  ⟨(Nat.max_eq_left h).symm, Nat.le_refl _⟩

theorem grown_push (h : t.size ≤ t.capacity) (s : String) : Grown t (t.push s).state := by
  unfold push
  cases hroom : Storage.grow? t.capacity t.size s.utf8ByteSize with
  | none => exact grown_self h
  | some room =>
      have hsize : (t.content ++ s).utf8ByteSize = t.size + s.utf8ByteSize :=
        String.utf8ByteSize_append
      constructor
      · show room = max t.capacity (t.content ++ s).utf8ByteSize
        rw [hsize, Storage.eq_max_of_grow? hroom]
      · show t.size ≤ (t.content ++ s).utf8ByteSize
        rw [hsize]
        exact Nat.le_add_right _ _

theorem grown_append (h : t.size ≤ t.capacity) (separator token : String) :
    Grown t (t.append separator token).state := by
  unfold append
  split
  · exact grown_self h
  · split
    · exact grown_push h token
    · exact grown_push h (separator ++ token)

/-!
# The mark
-/

/-- The capacity of a text is the largest of the sizes that its content has had in a span. -/
structure Marked (span : Text.Span) (t : GrowableText) : Prop where
  reached : t.capacity ∈ span.sizes
  never_more : ∀ size ∈ span.sizes, size ≤ t.capacity
  current : span.sizes.getLast? = some t.size
  tight : span.cleared = false → t.capacity = t.size

namespace Marked

variable {span : Text.Span}

theorem size_le (h : Marked span t) : t.size ≤ t.capacity :=
  h.never_more t.size (List.mem_of_getLast? h.current)

theorem start (h : t.capacity = t.size) : Marked (.start t.size) t where
  reached := by simp [Text.Span.start, h]
  never_more := by simp [Text.Span.start, h]
  current := rfl
  tight _ := h

theorem concat (h : Marked span t) {u : GrowableText}
    (hcapacity : u.capacity = max t.capacity u.size) {cleared : Bool}
    (htight : cleared = false → u.capacity = u.size) :
    Marked ⟨span.sizes ++ [u.size], cleared⟩ u where
  reached := by
    rcases Nat.le_total u.size t.capacity with hle | hle
    · rw [hcapacity, Nat.max_eq_left hle]
      exact List.mem_append_left _ h.reached
    · rw [hcapacity, Nat.max_eq_right hle]
      exact List.mem_append_right _ List.mem_cons_self
  never_more := by
    rw [List.forall_mem_append, List.forall_mem_singleton, hcapacity]
    constructor
    · intro size hsize
      exact Nat.le_trans (h.never_more size hsize) (Nat.le_max_left _ _)
    · exact Nat.le_max_right _ _
  current := by simp
  tight := htight

theorem grown (h : Marked span t) {u : GrowableText} (hgrown : Grown t u) :
    Marked ⟨span.sizes ++ [u.size], span.cleared⟩ u := by
  apply h.concat hgrown.capacity_eq
  intro hcleared
  rw [hgrown.capacity_eq, h.tight hcleared]
  exact Nat.max_eq_right hgrown.size_le

theorem perform (h : Marked span t) (request : Text.Request) :
    Marked (span.enter request (t.perform request).result (t.perform request).state.size)
      (t.perform request).state := by
  cases request with
  | set s =>
      rcases set_cases t s with hset | hset
      · rw [GrowableText.perform, hset]
        exact start (t := ⟨s, s.utf8ByteSize⟩) rfl
      · rw [GrowableText.perform, hset]
        exact h.grown (grown_self h.size_le)
  | push s => exact h.grown (grown_push h.size_le s)
  | append separator token => exact h.grown (grown_append h.size_le separator token)
  | clear =>
      -- nothing is left of the content, and the storage stays
      exact h.concat (u := t.clear) (Nat.max_eq_left (Nat.zero_le _)).symm Bool.noConfusion

end Marked

end GrowableText

namespace Text

open GrowableText

theorem marked_run {span : Span} {t : GrowableText} (h : Marked span t) (requests : List Request) :
    ∃ u : GrowableText, ((growable t).run requests).2 = .growable u ∧
      Marked (spanFrom span (growable t) requests) u := by
  induction requests generalizing span t with
  | nil => exact ⟨t, rfl, h⟩
  | cons first rest ih =>
      rcases ih (h.perform first) with ⟨u, hlast, hmarked⟩
      refine ⟨u, ?_, ?_⟩
      · rw [run, perform_growable]
        exact hlast
      · rw [spanFrom, perform_growable]
        exact hmarked

theorem capacity_eq_size_of_made {t : GrowableText}
    (hmade : t = .empty ∨ ∃ s, GrowableText.copyOf s = .ok t) : t.capacity = t.size := by
  rcases hmade with rfl | ⟨s, hcopy⟩
  · rfl
  · rw [GrowableText.copyOf_eq] at hcopy
    split at hcopy
    · cases hcopy
      rfl
    · cases hcopy

/-- After every run of requests the capacity is the largest size that the content has had since the
text was made or last set, and the very size of the content if it has not been cleared since
then. -/
theorem capacity_is_high_water_mark {t : GrowableText}
    (hmade : t = .empty ∨ ∃ s, GrowableText.copyOf s = .ok t) (requests : List Request) :
    ∃ u : GrowableText, ((growable t).run requests).2 = .growable u ∧ u.size ≤ u.capacity ∧
      Marked (spanOf (growable t) requests) u ∧
      ∀ s : String, s.utf8ByteSize < Storage.limit →
        u.set s = .done ⟨s, s.utf8ByteSize⟩ s.utf8ByteSize := by
  rcases marked_run (Marked.start (capacity_eq_size_of_made hmade)) requests with
    ⟨u, hlast, hmarked⟩
  exact ⟨u, hlast, hmarked.size_le, hmarked, fun _ => set_eq_done u⟩

/-- A copy is set to a shorter text, and cleared. Behind the clearing the separator is dropped and
the content has not yet got back to where it was; to set the text would give up the room again. -/
theorem capacity_is_high_water_mark_behind_clearing :
    let requests : List Request :=
      [.set "nop", .append ", " "é", .clear, .append ", " "", .append ", " "lock", .push "x"]
    GrowableText.copyOf "dword ptr" = .ok ⟨"dword ptr", 9⟩ ∧
      spanOf (.growable ⟨"dword ptr", 9⟩) requests = ⟨[3, 7, 0, 0, 4, 5], true⟩ ∧
      ∃ u : GrowableText, (run (.growable ⟨"dword ptr", 9⟩) requests).2 = .growable u ∧
        u.capacity = 7 ∧ u.size = 5 ∧ Marked ⟨[3, 7, 0, 0, 4, 5], true⟩ u ∧
        (u.set "ret").state.capacity = 3 := by
  intro requests
  have hcopy : GrowableText.copyOf "dword ptr" = .ok ⟨"dword ptr", 9⟩ := rfl
  have hspan : spanOf (.growable ⟨"dword ptr", 9⟩) requests = ⟨[3, 7, 0, 0, 4, 5], true⟩ := by
    decide
  rcases capacity_is_high_water_mark (.inr ⟨"dword ptr", hcopy⟩) requests with
    ⟨u, hlast, _, hmarked, hset⟩
  have hlong : (run (.growable ⟨"dword ptr", 9⟩) requests).2 = .growable ⟨"lockx", 7⟩ := by decide
  rw [hspan] at hmarked
  obtain rfl : u = ⟨"lockx", 7⟩ := Text.growable.inj (hlast.symm.trans hlong)
  refine ⟨hcopy, hspan, _, hlast, rfl, by decide, hmarked, ?_⟩
  rw [hset "ret" (by decide)]
  decide

end Text
end Disassembly
