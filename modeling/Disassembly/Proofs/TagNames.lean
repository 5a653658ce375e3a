import Disassembly.Category
import Mathlib.Data.List.Nodup

/-!
# Reading tags by name

A tag is read from any text that has the same folding as its name. The names of a type
are in lower case, which folding leaves alone, and they are different, so no two tags of
a type are read from the same text.
-/

namespace Disassembly

namespace Unicode

/-- Spellings of letters that only folding takes for each other: the long s, the Kelvin sign, the
sharp s and the ligature of s and t. -/
def respellings : List (String × String) :=
  [("\u017F", "s"), ("\u212A", "k"), ("\u00DF", "ss"), ("\uFB06", "st")]

theorem fold_respelling : ∀ pair ∈ respellings, fold pair.1 = fold pair.2 := by
  decide

theorem fold_respelled {s t : String} (h : fold s = fold t) (front back : String) :
    fold (front ++ s ++ back) = fold (front ++ t ++ back) := by
  rw [fold_append, fold_append, fold_append, fold_append, h]

end Unicode

open Unicode

class LawfulTagName (α : Type) [Tag α] : Prop where
  fold_name : ∀ tag ∈ (Tag.all : List α), fold (Tag.name tag) = (Tag.name tag).toList
  nodup_name : ((Tag.all : List α).map Tag.name).Nodup

instance : LawfulTagName ControlTransfer where
  fold_name := by decide
  nodup_name := by decide

instance : LawfulTagName StackEffect where
  fold_name := by decide
  nodup_name := by decide

instance : LawfulTagName BitOperation where
  fold_name := by decide
  nodup_name := by decide

instance : LawfulTagName PortAccess where
  fold_name := by decide
  nodup_name := by decide

instance : LawfulTagName IsaSubset where
  fold_name := by decide
  nodup_name := by decide

instance : LawfulTagName OperandKind where
  fold_name := by decide
  nodup_name := by decide

instance : LawfulTagName IndexShift where
  fold_name := by decide
  nodup_name := by decide

instance : LawfulTagName Category where
  fold_name := by decide
  nodup_name := by decide

namespace Tag

/-!
# Searching by name
-/

section LawfulTagName

variable {α : Type} [Tag α] [LawfulTagName α]

theorem eq_of_fold_name_eq {a b : α} (ha : a ∈ (all : List α)) (hb : b ∈ (all : List α))
    (h : fold (name a) = fold (name b)) : a = b := by
  rw [LawfulTagName.fold_name a ha, LawfulTagName.fold_name b hb] at h
  exact List.inj_on_of_nodup_map LawfulTagName.nodup_name ha hb (String.toList_inj.mp h)

theorem find?_name_eq_some_iff {tags : List α} (htags : ∀ tag, tag ∈ tags ↔ tag ∈ (all : List α))
    (s : String) (tag : α) :
    tags.find? (fun t => sameFolding (name t) s) = some tag ↔
      tag ∈ (all : List α) ∧ fold s = fold (name tag) := by
  have hfound {t : α} (h : tags.find? (fun t => sameFolding (name t) s) = some t) :
      t ∈ (all : List α) ∧ fold s = fold (name t) := by
    have hsame : sameFolding (name t) s = true :=
      List.find?_some (p := fun t : α => sameFolding (name t) s) h
    exact ⟨(htags t).mp (List.mem_of_find?_eq_some h), (sameFolding_iff.mp hsame).symm⟩
  constructor
  · exact hfound
  · rintro ⟨hmem, hfold⟩
    cases hsearch : tags.find? (fun t => sameFolding (name t) s) with
    | none =>
        have hnone := List.find?_eq_none.mp hsearch tag ((htags tag).mpr hmem)
        exact absurd (sameFolding_iff.mpr hfold.symm) hnone
    | some other =>
        rcases hfound hsearch with ⟨hother, hsame⟩
        rw [eq_of_fold_name_eq hother hmem (hsame.symm.trans hfold)]

theorem find?_name_eq_parse? {tags : List α} (htags : ∀ tag, tag ∈ tags ↔ tag ∈ (all : List α))
    (s : String) : tags.find? (fun t => sameFolding (name t) s) = parse? s := by
  apply Option.ext
  intro tag
  exact (find?_name_eq_some_iff htags s tag).trans
    (find?_name_eq_some_iff (fun _ => Iff.rfl) s tag).symm

theorem parse?_eq_some_iff (s : String) (tag : α) :
    parse? s = some tag ↔ tag ∈ (all : List α) ∧ fold s = fold (name tag) :=
  find?_name_eq_some_iff (fun _ => Iff.rfl) s tag

theorem parse_eq_ok_iff (s : String) (tag : α) :
    parse α s = .ok tag ↔ tag ∈ (all : List α) ∧ fold s = fold (name tag) := by
  rw [← parse?_eq_some_iff, parse]
  cases (parse? s : Option α) with
  | none => simp
  | some found => simp

end LawfulTagName

section Reading

variable (α : Type) [Tag α]

theorem parse_eq_error_iff (s : String) (e : UnknownTag) :
    parse α s = .error e ↔
      e = ⟨kind α, s⟩ ∧ ∀ tag ∈ (all : List α), fold s ≠ fold (name tag) := by
  have hnone : (parse? s : Option α) = none ↔
      ∀ tag ∈ (all : List α), fold s ≠ fold (name tag) := by
    rw [parse?, List.find?_eq_none]
    constructor
    · intro h tag hmem hfold
      exact h tag hmem (sameFolding_iff.mpr hfold.symm)
    · intro h tag hmem hsame
      exact h tag hmem (sameFolding_iff.mp hsame).symm
  rw [← hnone, parse]
  cases (parse? s : Option α) with
  | none => simp [eq_comm]
  | some found => simp

theorem toOption_parse_congr {s t : String} (h : fold s = fold t) :
    (parse α s).toOption = (parse α t).toOption := by
  have hsearch : (parse? s : Option α) = parse? t := by
    simp only [parse?, sameFolding, h]
  rw [parse, parse, hsearch]
  cases (parse? t : Option α) with
  | none => rfl
  | some found => rfl

/-!
# Which texts are read
-/

structure ReadsNames (typeName : String) : Prop where
  parse_eq_ok_iff : ∀ s tag,
    parse α s = .ok tag ↔ tag ∈ (all : List α) ∧ fold s = fold (name tag)
  unique : ∀ s, ∀ a ∈ (all : List α), ∀ b ∈ (all : List α),
    fold s = fold (name a) → fold s = fold (name b) → a = b
  any_order : ∀ s, ∀ tags : List α, (∀ tag, tag ∈ tags ↔ tag ∈ (all : List α)) →
    tags.find? (fun tag => sameFolding (name tag) s) = (parse α s).toOption
  parse_eq_error_iff : ∀ s e,
    parse α s = .error e ↔
      e = ⟨typeName, s⟩ ∧ ∀ tag ∈ (all : List α), fold s ≠ fold (name tag)
  alike : ∀ s t, fold s = fold t → (parse α s).toOption = (parse α t).toOption
  respelled : ∀ pair ∈ respellings, ∀ front back,
    (parse α (front ++ pair.1 ++ back)).toOption = (parse α (front ++ pair.2 ++ back)).toOption

theorem readsNames [LawfulTagName α] : ReadsNames α (kind α) where
  parse_eq_ok_iff := parse_eq_ok_iff
  unique := by
    intro s a ha b hb hs ht
    exact eq_of_fold_name_eq ha hb (hs.symm.trans ht)
  any_order := by
    intro s tags htags
    rw [find?_name_eq_parse? htags, parse]
    cases (parse? s : Option α) with
    | none => rfl
    | some found => rfl
  parse_eq_error_iff := parse_eq_error_iff α
  alike := fun s t h => toOption_parse_congr α h
  respelled := by
    intro pair hpair front back
    exact toOption_parse_congr α (fold_respelled (fold_respelling pair hpair) front back)

end Reading
end Tag

namespace Category

def CarriesNone : Category → Prop
  | .controlFlow transfer => transfer = .none
  | .stack effect => effect = .none
  | .bit operation => operation = .none
  | .io access => access = .none
  | _ => True

theorem carriesNone_of_parse {s : String} {c : Category} (h : Tag.parse Category s = .ok c) :
    c.CarriesNone := by
  have hmem : c ∈ (Tag.all : List Category) := (Tag.parse_eq_ok h).1
  have hall : ∀ c ∈ (Tag.all : List Category), c.CarriesNone := by
    simp [Tag.all, CarriesNone]
  exact hall c hmem

end Category

/-- Each type of the vocabulary reads a tag from exactly the texts that have the same folding as its
name, and refuses the others with the name of the type. A category that is read says nothing more
than what the instruction is for. -/
theorem parse_by_folding :
    Tag.ReadsNames ControlTransfer "CflowFlag" ∧ Tag.ReadsNames StackEffect "StackFlag" ∧
    Tag.ReadsNames BitOperation "BitFlag" ∧ Tag.ReadsNames PortAccess "IoFlag" ∧
    Tag.ReadsNames IsaSubset "IsaSubset" ∧ Tag.ReadsNames OperandKind "OperandCategory" ∧
    Tag.ReadsNames IndexShift "ShiftKind" ∧ Tag.ReadsNames Category "InsnCategory" ∧
    ∀ s c, Tag.parse Category s = .ok c → c.CarriesNone :=
  ⟨Tag.readsNames ControlTransfer, Tag.readsNames StackEffect, Tag.readsNames BitOperation,
    Tag.readsNames PortAccess, Tag.readsNames IsaSubset, Tag.readsNames OperandKind,
    Tag.readsNames IndexShift, Tag.readsNames Category, fun _ _ => Category.carriesNone_of_parse⟩

/-- A text of four characters is read as a tag with a name of five. -/
example : Tag.parse Category "ﬆack" = .ok (.stack .none) := by
  exact (Tag.parse_eq_ok_iff _ _).mpr (by decide)

end Disassembly
