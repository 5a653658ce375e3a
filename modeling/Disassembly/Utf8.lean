/-!
# Text measured in bytes

Storage limits are counted in UTF-8 bytes, and a cut never splits a character.
-/

namespace Disassembly
namespace Utf8

def bytes : List Char → Nat
  | [] => 0
  | c :: rest => c.utf8Size + bytes rest

@[simp] theorem bytes_nil : bytes [] = 0 := rfl

@[simp] theorem bytes_cons (c : Char) (rest : List Char) :
    bytes (c :: rest) = c.utf8Size + bytes rest := rfl

@[simp] theorem bytes_append (front back : List Char) :
    bytes (front ++ back) = bytes front + bytes back := by
  induction front with
  | nil => simp
  | cons c rest ih => simp [ih, Nat.add_assoc]

theorem size_ofList (cs : List Char) : (String.ofList cs).utf8ByteSize = bytes cs := by
  induction cs with
  | nil => rfl
  | cons c rest ih =>
      have split : String.ofList (c :: rest) = String.singleton c ++ String.ofList rest := by
        rw [← String.ofList_toList (s := String.singleton c), ← String.ofList_append]
        simp
      rw [split, String.utf8ByteSize_append, String.utf8ByteSize_singleton, ih, bytes_cons]

theorem bytes_toList (s : String) : bytes s.toList = s.utf8ByteSize := by
  rw [← size_ofList, String.ofList_toList]

theorem bytes_eq_zero {cs : List Char} : bytes cs = 0 ↔ cs = [] := by
  cases cs with
  | nil => simp
  | cons c rest =>
      have := c.utf8Size_pos
      simp only [bytes_cons, reduceCtorEq, iff_false]
      omega

/-!
# The longest leading part that fits
-/

/-- The longest leading run of characters of at most `room` bytes. -/
def fitting : Nat → List Char → List Char
  | _, [] => []
  | room, c :: rest =>
      if c.utf8Size ≤ room then c :: fitting (room - c.utf8Size) rest else []

theorem fitting_isPrefix (room : Nat) (cs : List Char) : fitting room cs <+: cs := by
  induction cs generalizing room with
  | nil => simp [fitting]
  | cons c rest ih =>
      by_cases h : c.utf8Size ≤ room
      · simp only [fitting, h, if_true]
        exact (List.prefix_cons_inj c).2 (ih _)
      · simp [fitting, h]

theorem bytes_fitting_le (room : Nat) (cs : List Char) : bytes (fitting room cs) ≤ room := by
  induction cs generalizing room with
  | nil => simp [fitting]
  | cons c rest ih =>
      by_cases h : c.utf8Size ≤ room
      · have := ih (room - c.utf8Size)
        simp only [fitting, h, if_true, bytes_cons]
        omega
      · simp [fitting, h]

theorem fitting_of_bytes_le {room : Nat} {cs : List Char} (h : bytes cs ≤ room) :
    fitting room cs = cs := by
  induction cs generalizing room with
  | nil => rfl
  | cons c rest ih =>
      have here : c.utf8Size ≤ room := by simp only [bytes_cons] at h; omega
      have later : bytes rest ≤ room - c.utf8Size := by simp only [bytes_cons] at h; omega
      simp [fitting, here, ih later]

theorem isPrefix_fitting {room : Nat} {front cs : List Char} (part : front <+: cs)
    (fits : bytes front ≤ room) : front <+: fitting room cs := by
  induction cs generalizing room front with
  | nil => simp [List.prefix_nil.1 part]
  | cons c rest ih =>
      cases front with
      | nil => exact List.nil_prefix
      | cons d tail =>
          obtain ⟨same, behind⟩ := List.cons_prefix_cons.1 part
          subst same
          have here : d.utf8Size ≤ room := by simp only [bytes_cons] at fits; omega
          have later : bytes tail ≤ room - d.utf8Size := by
            simp only [bytes_cons] at fits; omega
          simp only [fitting, here, if_true]
          exact (List.prefix_cons_inj d).2 (ih behind later)

theorem exists_behind_fitting {room : Nat} {cs : List Char} (h : room < bytes cs) :
    ∃ c rest, cs = fitting room cs ++ c :: rest ∧
      room < bytes (fitting room cs) + c.utf8Size := by
  induction cs generalizing room with
  | nil => exact absurd h (Nat.not_lt_zero room)
  | cons first rest ih =>
      by_cases hfits : first.utf8Size ≤ room
      · have later : room - first.utf8Size < bytes rest := by
          rw [bytes_cons] at h
          omega
        obtain ⟨c, behind, split, wide⟩ := ih later
        simp only [fitting, hfits, if_true, bytes_cons, List.cons_append]
        exact ⟨c, behind, congrArg (first :: ·) split, by omega⟩
      · simp only [fitting, hfits, if_false, bytes_nil, List.nil_append]
        exact ⟨first, rest, rfl, by omega⟩

/-!
# Cutting text
-/

def takeBytes (room : Nat) (s : String) : String :=
  String.ofList (fitting room s.toList)

def floorBoundary (s : String) (max : Nat) : Nat :=
  (takeBytes max s).utf8ByteSize

/-- An index is a character boundary of `s` if some leading part of `s` has that many bytes. -/
def IsBoundary (s : String) (index : Nat) : Prop :=
  ∃ front back : String, s = front ++ back ∧ front.utf8ByteSize = index

theorem toList_takeBytes (room : Nat) (s : String) :
    (takeBytes room s).toList = fitting room s.toList := by
  simp [takeBytes]

theorem takeBytes_append_rest (room : Nat) (s : String) :
    ∃ back : String, s = takeBytes room s ++ back := by
  obtain ⟨back, h⟩ := fitting_isPrefix room s.toList
  refine ⟨String.ofList back, ?_⟩
  rw [takeBytes, ← String.ofList_append, h, String.ofList_toList]

theorem size_takeBytes_le (room : Nat) (s : String) : (takeBytes room s).utf8ByteSize ≤ room := by
  rw [takeBytes, size_ofList]
  exact bytes_fitting_le room s.toList

theorem takeBytes_of_size_le {room : Nat} {s : String} (h : s.utf8ByteSize ≤ room) :
    takeBytes room s = s := by
  rw [takeBytes, fitting_of_bytes_le (by rwa [bytes_toList]), String.ofList_toList]

@[simp] theorem takeBytes_empty (room : Nat) : takeBytes room "" = "" := by
  simp [takeBytes, fitting]

theorem size_le_size_takeBytes {room : Nat} {front back : String}
    (fits : front.utf8ByteSize ≤ room) :
    front.utf8ByteSize ≤ (takeBytes room (front ++ back)).utf8ByteSize := by
  have part : front.toList <+: fitting room (front ++ back).toList :=
    isPrefix_fitting (by simp) (by rwa [bytes_toList])
  obtain ⟨tail, h⟩ := part
  rw [takeBytes, size_ofList, ← h, bytes_append, bytes_toList]
  omega

end Utf8
end Disassembly
