import Disassembly.Proofs.Bounded
import Mathlib.Order.Bounds.Basic

/-!
# Where a cut falls

The index at which a text is cut can be found on its bytes alone, by a walk back from
the number of bytes that are allowed. The walk itself has no lower bound. It stops at
the start at the latest, because no text begins within a character.
-/

namespace Disassembly
namespace Utf8

/-- Goes back from an index to the first one at which `s` ends or a byte begins a character. There
is no result if the walk would have to go on below zero. -/
def walkBack? (s : String) : Nat → Option Nat
  | 0 => if String.Pos.Raw.isValid s ⟨0⟩ then some 0 else none
  | index + 1 =>
      if String.Pos.Raw.isValid s ⟨index + 1⟩ then some (index + 1) else walkBack? s index

def floorByWalk? (s : String) (max : Nat) : Option Nat :=
  if s.utf8ByteSize ≤ max then some s.utf8ByteSize else walkBack? s max

def boundaries (s : String) (max : Nat) : Set Nat :=
  {index | IsBoundary s index ∧ index ≤ min max s.utf8ByteSize}

variable {s : String} {max index : Nat}

theorem isBoundary_iff_isValid : IsBoundary s index ↔ String.Pos.Raw.IsValid s ⟨index⟩ := by
  rw [String.Pos.Raw.isValid_iff_exists_append]
  constructor
  · rintro ⟨front, back, hsplit, hsize⟩
    exact ⟨front, back, hsplit, congrArg String.Pos.Raw.mk hsize.symm⟩
  · rintro ⟨front, back, hsplit, hend⟩
    exact ⟨front, back, hsplit, (congrArg String.Pos.Raw.byteIdx hend).symm⟩

theorem isValid_eq_true_iff_isBoundary :
    String.Pos.Raw.isValid s ⟨index⟩ = true ↔ IsBoundary s index := by
  rw [String.Pos.Raw.isValid_eq_true_iff, isBoundary_iff_isValid]

theorem isBoundary_zero (s : String) : IsBoundary s 0 :=
  isBoundary_iff_isValid.mpr String.Pos.Raw.isValid_zero

theorem IsBoundary.le_size (h : IsBoundary s index) : index ≤ s.utf8ByteSize :=
  (isBoundary_iff_isValid.mp h).le_utf8ByteSize

theorem isBoundary_front_iff (front back : String) :
    IsBoundary front index ↔ IsBoundary (front ++ back) index ∧ index ≤ front.utf8ByteSize := by
  rw [isBoundary_iff_isValid, isBoundary_iff_isValid]
  constructor
  · intro hvalid
    exact ⟨hvalid.append_right back, hvalid.le_utf8ByteSize⟩
  · rintro ⟨hvalid, hle⟩
    rcases String.Pos.Raw.isValid_append.mp hvalid with hfront | ⟨hbehind, _⟩
    · exact hfront
    · have hend : index = front.utf8ByteSize := Nat.le_antisymm hle hbehind
      rw [hend]
      exact String.Pos.Raw.isValid_rawEndPos

theorem mem_boundaries_iff : index ∈ boundaries s max ↔ IsBoundary s index ∧ index ≤ max := by
  constructor
  · rintro ⟨hboundary, hle⟩
    exact ⟨hboundary, hle.trans (Nat.min_le_left _ _)⟩
  · rintro ⟨hboundary, hle⟩
    exact ⟨hboundary, Nat.le_min.mpr ⟨hle, hboundary.le_size⟩⟩

theorem boundaries_mono {less more : Nat} (h : less ≤ more) :
    boundaries s less ⊆ boundaries s more := by
  intro index hindex
  rw [mem_boundaries_iff] at hindex ⊢
  exact ⟨hindex.1, hindex.2.trans h⟩

/-!
# The walk
-/

theorem isGreatest_boundaries_self (h : IsBoundary s index) :
    IsGreatest (boundaries s index) index :=
  ⟨mem_boundaries_iff.mpr ⟨h, le_rfl⟩, fun _ hother => (mem_boundaries_iff.mp hother).2⟩

theorem boundaries_succ (h : ¬IsBoundary s (index + 1)) :
    boundaries s (index + 1) = boundaries s index := by
  ext other
  rw [mem_boundaries_iff, mem_boundaries_iff]
  constructor
  · rintro ⟨hother, hle⟩
    have hne : other ≠ index + 1 := fun hsame => h (hsame ▸ hother)
    exact ⟨hother, Nat.le_of_lt_succ (lt_of_le_of_ne hle hne)⟩
  · rintro ⟨hother, hle⟩
    exact ⟨hother, hle.trans (Nat.le_succ index)⟩

theorem exists_walkBack? (s : String) (index : Nat) :
    ∃ found, walkBack? s index = some found ∧ IsGreatest (boundaries s index) found := by
  induction index with
  | zero =>
      have hzero := isBoundary_zero s
      have hwalk : walkBack? s 0 = some 0 := if_pos (isValid_eq_true_iff_isBoundary.mpr hzero)
      exact ⟨0, hwalk, isGreatest_boundaries_self hzero⟩
  | succ index ih =>
      by_cases hboundary : IsBoundary s (index + 1)
      · have hwalk : walkBack? s (index + 1) = some (index + 1) :=
          if_pos (isValid_eq_true_iff_isBoundary.mpr hboundary)
        exact ⟨index + 1, hwalk, isGreatest_boundaries_self hboundary⟩
      · have hwalk : walkBack? s (index + 1) = walkBack? s index :=
          if_neg (mt isValid_eq_true_iff_isBoundary.mp hboundary)
        rw [hwalk, boundaries_succ hboundary]
        exact ih

/-!
# The cut
-/

theorem isGreatest_floorBoundary (s : String) (max : Nat) :
    IsGreatest (boundaries s max) (floorBoundary s max) := by
  have hfit := longestFit_takeBytes max s
  rcases hfit.leading with ⟨back, hsplit⟩
  constructor
  · exact mem_boundaries_iff.mpr ⟨⟨takeBytes max s, back, hsplit, rfl⟩, hfit.size_le⟩
  · intro other hother
    rw [mem_boundaries_iff] at hother
    exact hfit.longest other hother.1 hother.2

theorem floorByWalk?_eq (s : String) (max : Nat) :
    floorByWalk? s max = some (floorBoundary s max) := by
  unfold floorByWalk?
  split
  case isTrue hfits => rw [floorBoundary, takeBytes_of_size_le hfits]
  case isFalse =>
    rcases exists_walkBack? s max with ⟨found, hfound, hgreatest⟩
    rw [hfound, hgreatest.unique (isGreatest_floorBoundary s max)]

theorem exists_behind_takeBytes (h : max < s.utf8ByteSize) :
    ∃ c rest, s = takeBytes max s ++ (String.singleton c ++ rest) ∧
      max < floorBoundary s max + c.utf8Size := by
  rw [← bytes_toList] at h
  rcases exists_behind_fitting h with ⟨c, rest, hsplit, hover⟩
  refine ⟨c, String.ofList rest, ?_, ?_⟩
  · rw [← String.toList_inj, String.toList_append, toList_takeBytes]
    simpa using hsplit
  · rwa [floorBoundary, takeBytes, size_ofList]

theorem sub_floorBoundary_le_three (h : max < s.utf8ByteSize) : max - floorBoundary s max ≤ 3 := by
  rcases exists_behind_takeBytes h with ⟨c, rest, _, hover⟩
  have hwidth := c.utf8Size_le_four
  omega

theorem monotone_floorBoundary (s : String) : Monotone (floorBoundary s) := by
  intro less more hle
  exact (isGreatest_floorBoundary s less).mono (isGreatest_floorBoundary s more)
    (boundaries_mono hle)

theorem floorBoundary_eq_zero_iff : floorBoundary s max = 0 ↔
    s = "" ∨ ∃ c rest, s = String.singleton c ++ rest ∧ max < c.utf8Size := by
  rw [floorBoundary, String.utf8ByteSize_eq_zero_iff]
  constructor
  · intro hcut
    rcases Nat.lt_or_ge max s.utf8ByteSize with hover | hfits
    · rcases exists_behind_takeBytes hover with ⟨c, rest, hsplit, hwide⟩
      rw [floorBoundary, hcut] at hwide
      rw [hcut, String.empty_append] at hsplit
      exact Or.inr ⟨c, rest, hsplit, by simpa using hwide⟩
    · exact Or.inl ((takeBytes_of_size_le hfits).symm.trans hcut)
  · rintro (rfl | ⟨c, rest, rfl, hwide⟩)
    · exact takeBytes_empty max
    · simp [takeBytes, fitting, Nat.not_le.mpr hwide]

/-!
# Two cuts
-/

theorem toByteArray_takeBytes (s : String) (max : Nat) :
    (takeBytes max s).toByteArray = s.toByteArray.extract 0 (floorBoundary s max) := by
  rcases takeBytes_append_rest max s with ⟨back, hsplit⟩
  have hbytes : s.toByteArray = (takeBytes max s).toByteArray ++ back.toByteArray := by
    rw [← String.toByteArray_append, ← hsplit]
  rw [hbytes]
  exact (ByteArray.extract_append_eq_left String.size_toByteArray.symm).symm

theorem boundaries_takeBytes (s : String) (first second : Nat) :
    boundaries (takeBytes first s) second = boundaries s (min first second) := by
  have hfit := longestFit_takeBytes first s
  rcases hfit.leading with ⟨back, hsplit⟩
  ext index
  have hfront : IsBoundary (takeBytes first s) index ↔
      IsBoundary s index ∧ index ≤ (takeBytes first s).utf8ByteSize := by
    rw [isBoundary_front_iff _ back, ← hsplit]
  rw [mem_boundaries_iff, mem_boundaries_iff, hfront, Nat.le_min]
  constructor
  · rintro ⟨⟨hboundary, hfirst⟩, hsecond⟩
    exact ⟨hboundary, hfirst.trans hfit.size_le, hsecond⟩
  · rintro ⟨hboundary, hfirst, hsecond⟩
    exact ⟨⟨hboundary, hfit.longest index hboundary hfirst⟩, hsecond⟩

theorem floorBoundary_takeBytes (s : String) (first second : Nat) :
    floorBoundary (takeBytes first s) second = floorBoundary s (min first second) := by
  have htwice := isGreatest_floorBoundary (takeBytes first s) second
  rw [boundaries_takeBytes] at htwice
  exact htwice.unique (isGreatest_floorBoundary s (min first second))

theorem takeBytes_takeBytes (s : String) (first second : Nat) :
    takeBytes second (takeBytes first s) = takeBytes (min first second) s := by
  have hle : floorBoundary s (min first second) ≤ floorBoundary s first :=
    monotone_floorBoundary s (Nat.min_le_left first second)
  rw [← String.toByteArray_inj]
  calc (takeBytes second (takeBytes first s)).toByteArray
    _ = (takeBytes first s).toByteArray.extract 0 (floorBoundary s (min first second)) := by
        rw [toByteArray_takeBytes, floorBoundary_takeBytes]
    _ = s.toByteArray.extract 0 (floorBoundary s (min first second)) := by
        rw [toByteArray_takeBytes, ByteArray.extract_extract, Nat.zero_add, Nat.zero_add,
          Nat.min_eq_left hle]
    _ = (takeBytes (min first second) s).toByteArray := (toByteArray_takeBytes _ _).symm

/-- A cut falls at the largest boundary that is allowed, where a walk over the bytes ends. More room
never makes it fall earlier, and of two cuts the narrower one counts. -/
theorem floorBoundary_is_largest (s : String) :
    (∀ max, floorByWalk? s max = some (floorBoundary s max) ∧
      IsGreatest {index | IsBoundary s index ∧ index ≤ min max s.utf8ByteSize}
        (floorBoundary s max) ∧
      (max < s.utf8ByteSize → max - floorBoundary s max ≤ 3) ∧
      (takeBytes max s).toByteArray = s.toByteArray.extract 0 (floorBoundary s max) ∧
      (floorBoundary s max = 0 ↔
        s = "" ∨ ∃ c rest, s = String.singleton c ++ rest ∧ max < c.utf8Size)) ∧
      (∀ less more, less ≤ more → floorBoundary s less ≤ floorBoundary s more) ∧
      ∀ first second, takeBytes second (takeBytes first s) = takeBytes (min first second) s := by
  refine ⟨?_, ?_, takeBytes_takeBytes s⟩
  · intro max
    exact ⟨floorByWalk?_eq s max, isGreatest_floorBoundary s max, sub_floorBoundary_le_three,
      toByteArray_takeBytes s max, floorBoundary_eq_zero_iff⟩
  · intro less more hle
    exact monotone_floorBoundary s hle

/-- From within the third character the walk goes back over three bytes, and from within the first
one to the start of the text. -/
theorem floorBoundary_is_largest_of_mixed_widths :
    8 < "€é😀a".utf8ByteSize ∧ floorByWalk? "€é😀a" 8 = some 5 ∧
      8 - floorBoundary "€é😀a" 8 ≤ 3 ∧
      2 < '€'.utf8Size ∧ floorByWalk? "€é😀a" 2 = some 0 ∧
      2 ≤ 8 ∧ floorBoundary "€é😀a" 2 ≤ floorBoundary "€é😀a" 8 ∧
      takeBytes 4 (takeBytes 8 "€é😀a") = "€" := by
  have hover : 8 < "€é😀a".utf8ByteSize := by decide
  have hwide : 2 < '€'.utf8Size := by decide
  have hnarrow : 2 ≤ 8 := by decide
  rcases floorBoundary_is_largest "€é😀a" with ⟨hcut, hmono, htwice⟩
  rcases hcut 8 with ⟨hwalk, _, hunused, _, _⟩
  rcases hcut 2 with ⟨hwalkBack, _, _, _, hzero⟩
  have hfive : floorBoundary "€é😀a" 8 = 5 := by decide
  have hnothing : floorBoundary "€é😀a" 2 = 0 :=
    hzero.mpr (Or.inr ⟨'€', "é😀a", by decide, hwide⟩)
  have hleft : takeBytes (min 8 4) "€é😀a" = "€" := by decide
  rw [hfive] at hwalk
  rw [hnothing] at hwalkBack
  exact ⟨hover, hwalk, hunused hover, hwide, hwalkBack, hnarrow, hmono 2 8 hnarrow,
    (htwice 8 4).trans hleft⟩

end Utf8
end Disassembly
