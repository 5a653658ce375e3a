import Disassembly.Proofs.Restoring

/-!
# How long a register name is

A register is made from a name, which is cut to leave a byte for a terminator, or read
from stored data, which is not cut. A name that is read may fill the whole field, and
then the register is not the one that is made from its own name.
-/

namespace Disassembly

namespace Utf8

theorem toList_eq_concat_of_size {room : Nat} {s : String} (hsize : s.utf8ByteSize = room + 1) :
    ∃ c : Char, s.toList = (takeBytes room s).toList ++ [c] := by
  rw [← bytes_toList] at hsize
  rw [toList_takeBytes]
  have hover : room < bytes s.toList := hsize ▸ Nat.lt_succ_self room
  rcases exists_behind_fitting hover with ⟨c, rest, hsplit, hwide⟩
  -- the first character that does not fit takes all the bytes that are left
  have hrest : rest = [] := by
    rw [hsplit, bytes_append, bytes_cons] at hsize
    exact bytes_eq_zero.mp (by omega)
  rw [hrest] at hsplit
  exact ⟨c, hsplit⟩

end Utf8

namespace Register

def rebuild (r : Register) : Register := ofName r.name r.classes r.id r.size

inductive Route where
  | made
  | read
  | readSegment
  | readDisplacement
  | readBase
  | readIndex
  | readExpressionSegment
deriving DecidableEq, Repr

inductive Obtained : Route → Register → Prop
  | made (name : String) (classes : FlagSet RegisterClass) (id size : UInt8) :
      Obtained .made (ofName name classes id size)
  | read {text : String} {r : Register} (hread : Stored.read? text = some r) : Obtained .read r
  | readSegment {text : String} {a : AbsoluteAddress} (hread : Stored.read? text = some a) :
      Obtained .readSegment a.segment
  | readDisplacement {text : String} {a : AbsoluteAddress}
      (hread : Stored.read? text = some (Displacement.absolute a)) :
      Obtained .readDisplacement a.segment
  | readBase {text : String} {e : AddressExpression} {r : Register}
      (hread : Stored.read? text = some e) (hbase : e.base = some r) : Obtained .readBase r
  | readIndex {text : String} {e : AddressExpression} {r : Register}
      (hread : Stored.read? text = some e) (hindex : e.index = some r) : Obtained .readIndex r
  | readExpressionSegment {text : String} {e : AddressExpression} {a : AbsoluteAddress}
      (hread : Stored.read? text = some e) (hdisplacement : e.displacement = some (.absolute a)) :
      Obtained .readExpressionSegment a.segment

/-!
# Making a register again
-/

theorem rebuild_rebuild (r : Register) : r.rebuild.rebuild = r.rebuild := by
  have hcut : cutName (cutName r.name) = cutName r.name :=
    Utf8.takeBytes_of_size_le (size_cutName_le r.name)
  simp only [rebuild, ofName, hcut]

theorem rebuild_eq_iff {r : Register} :
    r.rebuild = r ↔ r.name.utf8ByteSize ≤ nameSize - 1 := by
  constructor
  · intro hsame
    rw [← congrArg name hsame]
    exact size_cutName_le r.name
  · intro hfits
    have hcut : cutName r.name = r.name := Utf8.takeBytes_of_size_le hfits
    cases r
    simp only [rebuild, ofName, mk.injEq, and_self, and_true]
    exact hcut

theorem name_rebuild_of_ne {r : Register} (hne : r.rebuild ≠ r) :
    ∃ c : Char, r.name.toList = r.rebuild.name.toList ++ [c] := by
  have hover : ¬r.name.utf8ByteSize ≤ nameSize - 1 := fun hfits => hne (rebuild_eq_iff.mpr hfits)
  have hsize : r.name.utf8ByteSize = nameSize - 1 + 1 :=
    Nat.le_antisymm r.name_fits (Nat.lt_of_not_le hover)
  exact Utf8.toList_eq_concat_of_size hsize

/-!
# What each route leads to
-/

theorem obtained_made_iff {r : Register} : Obtained .made r ↔ r.rebuild = r := by
  constructor
  · rintro ⟨name, classes, id, size⟩
    exact rebuild_eq_iff.mpr (size_cutName_le name)
  · intro hsame
    rw [← hsame]
    exact Obtained.made r.name r.classes r.id r.size

theorem obtained_of_ne_made {route : Route} (hroute : route ≠ .made) (r : Register) :
    Obtained route r := by
  have hpart (e : AddressExpression) : Stored.read? (Stored.write e) = some e :=
    Stored.read?_write e
  cases route with
  | made => exact absurd rfl hroute
  | read => exact Obtained.read (Stored.read?_write r)
  | readSegment => exact Obtained.readSegment (a := ⟨r, 0⟩) (Stored.read?_write _)
  | readDisplacement => exact Obtained.readDisplacement (a := ⟨r, 0⟩) (Stored.read?_write _)
  | readBase => exact Obtained.readBase (hpart { base := some r }) rfl
  | readIndex => exact Obtained.readIndex (hpart { index := some r }) rfl
  | readExpressionSegment =>
      exact Obtained.readExpressionSegment (a := ⟨r, 0⟩)
        (hpart { displacement := some (.absolute ⟨r, 0⟩) }) rfl

structure Rebuilding (route : Route) (r : Register) : Prop where
  obtained_iff : Obtained route r ↔ route ≠ .made ∨ r.name.utf8ByteSize ≤ nameSize - 1
  same_iff : r.rebuild = r ↔ r.name.utf8ByteSize ≤ nameSize - 1
  same_or_shorter : r.rebuild = r ∨ ∃ c : Char, r.name.toList = r.rebuild.name.toList ++ [c]
  settled : r.rebuild.rebuild = r.rebuild

theorem rebuilding (route : Route) (r : Register) : Rebuilding route r where
  obtained_iff := by
    rcases eq_or_ne route .made with rfl | hne
    · rw [obtained_made_iff, rebuild_eq_iff]
      simp
    · exact ⟨fun _ => Or.inl hne, fun _ => obtained_of_ne_made hne r⟩
  same_iff := rebuild_eq_iff
  same_or_shorter := by
    rcases eq_or_ne r.rebuild r with hsame | hne
    · exact Or.inl hsame
    · exact Or.inr (name_rebuild_of_ne hne)
  settled := rebuild_rebuild r

/-- A stored name that fills the name field is read as it is. -/
theorem not_bounded_of_full_name :
    ¬∀ (route : Route) (r : Register), Obtained route r →
      r.name.utf8ByteSize ≤ nameSize - 1 ∧ r.rebuild = r := by
  intro hall
  let full : Register := ⟨"0123456789abcdef", .empty, 0, 0, by decide⟩
  have hread : Stored.read?
      "\x7b\"name\":\"0123456789abcdef\",\"flags\":\"\",\"id\":0,\"size\":0\x7d" =
        some full := by
    decide +kernel
  have hsize := (hall .read full (.read hread)).1
  exact absurd hsize (by decide)

end Register
end Disassembly
