import Disassembly.Proofs.FlagText
import Disassembly.Proofs.Joining
import Disassembly.Proofs.Observation
import Disassembly.Proofs.Representation

/-!
# Taking a line apart

Whoever reads the line of an instruction splits it at the first `": "`. The numeral of
the address has no colon, so the line is split behind the address, however often the
separator occurs in the texts of the description.
-/

namespace Disassembly

/-!
# Splitting at the first occurrence
-/

namespace Line

variable {separator front back cs : List Char}

def splitList? (separator cs : List Char) : Option (List Char × List Char) :=
  if separator.isPrefixOf cs then some ([], cs.drop separator.length)
  else
    match cs with
    | [] => none
    | c :: rest => (splitList? separator rest).map fun parts => (c :: parts.1, parts.2)

/-- The separator stands between the two parts, and nowhere earlier. -/
structure FirstSplit (separator cs front back : List Char) : Prop where
  eq : cs = front ++ separator ++ back
  first : ∀ earlier later, cs = earlier ++ separator ++ later → front.length ≤ earlier.length

theorem firstSplit_nil (h : separator.isPrefixOf cs = true) :
    FirstSplit separator cs [] (cs.drop separator.length) := by
  rcases List.isPrefixOf_iff_prefix.mp h with ⟨later, rfl⟩
  exact ⟨by simp, fun _ _ _ => Nat.zero_le _⟩

theorem firstSplit_cons_iff {c : Char} (h : separator.isPrefixOf (c :: cs) = false) :
    FirstSplit separator (c :: cs) front back ↔
      ∃ rest, front = c :: rest ∧ FirstSplit separator cs rest back := by
  have hne : ∀ later, c :: cs ≠ [] ++ separator ++ later := by
    intro later heq
    have hstart : separator <+: c :: cs := ⟨later, heq.symm⟩
    rw [List.isPrefixOf_iff_prefix.mpr hstart] at h
    cases h
  constructor
  · intro hsplit
    cases front with
    | nil => exact absurd hsplit.eq (hne back)
    | cons d rest =>
        have heq := hsplit.eq
        simp only [List.cons_append, List.cons.injEq] at heq
        rcases heq with ⟨rfl, heq⟩
        refine ⟨rest, rfl, heq, fun earlier later hcs => ?_⟩
        have hlonger := hsplit.first (c :: earlier) later (by rw [hcs]; rfl)
        exact Nat.le_of_succ_le_succ hlonger
  · rintro ⟨rest, rfl, hsplit⟩
    refine ⟨by rw [hsplit.eq]; rfl, fun earlier later heq => ?_⟩
    cases earlier with
    | nil => exact absurd heq (hne later)
    | cons d earlier =>
        simp only [List.cons_append, List.cons.injEq] at heq
        exact Nat.succ_le_succ (hsplit.first earlier later heq.2)

theorem FirstSplit.unique {otherFront otherBack : List Char}
    (h : FirstSplit separator cs front back)
    (hother : FirstSplit separator cs otherFront otherBack) :
    front = otherFront ∧ back = otherBack := by
  have hlength : front.length = otherFront.length :=
    Nat.le_antisymm (h.first _ _ hother.eq) (hother.first _ _ h.eq)
  have heq := h.eq.symm.trans hother.eq
  rw [List.append_assoc, List.append_assoc] at heq
  rcases List.append_inj heq hlength with ⟨hfront, hrest⟩
  exact ⟨hfront, List.append_cancel_left hrest⟩

theorem firstSplit_iff_of_isPrefixOf (h : separator.isPrefixOf cs = true) :
    FirstSplit separator cs front back ↔ front = [] ∧ back = cs.drop separator.length := by
  constructor
  · intro hsplit
    exact hsplit.unique (firstSplit_nil h)
  · rintro ⟨rfl, rfl⟩
    exact firstSplit_nil h

theorem splitList?_eq_some_iff :
    splitList? separator cs = some (front, back) ↔ FirstSplit separator cs front back := by
  induction cs generalizing front with
  | nil =>
      rw [splitList?]
      by_cases hstart : separator.isPrefixOf [] = true
      · simp [hstart, firstSplit_iff_of_isPrefixOf hstart, eq_comm]
      · rw [if_neg hstart]
        constructor
        · intro h
          cases h
        · intro hsplit
          have heq := hsplit.eq.symm
          simp only [List.append_eq_nil_iff] at heq
          exact absurd (by rw [heq.1.2]; rfl) hstart
  | cons c rest ih =>
      rw [splitList?]
      by_cases hstart : separator.isPrefixOf (c :: rest) = true
      · simp [hstart, firstSplit_iff_of_isPrefixOf hstart, eq_comm]
      · rw [if_neg hstart, firstSplit_cons_iff (Bool.eq_false_iff.mpr hstart)]
        constructor
        · intro h
          rcases Option.map_eq_some_iff.mp h with ⟨⟨earlier, later⟩, hrest, hparts⟩
          cases hparts
          exact ⟨earlier, rfl, ih.mp hrest⟩
        · rintro ⟨earlier, rfl, hsplit⟩
          rw [ih.mpr hsplit]
          rfl

theorem firstSplit_of_notMem {c : Char} {rest : List Char} (h : c ∉ front) :
    FirstSplit (c :: rest) (front ++ c :: rest ++ back) front back where
  eq := rfl
  first := by
    intro earlier later heq
    by_contra hlt
    rw [List.append_assoc, List.append_assoc] at heq
    have hpart : earlier ++ [c] <+: front := by
      refine List.prefix_of_prefix_length_le ⟨rest ++ later, ?_⟩ ⟨_, heq⟩ ?_
      · simp
      · simp only [List.length_append, List.length_singleton]
        omega
    exact h (hpart.subset (by simp))

def split? (separator s : String) : Option (String × String) :=
  (splitList? separator.toList s.toList).map fun parts =>
    (String.ofList parts.1, String.ofList parts.2)

theorem split?_eq_some_iff {separator s front back : String} :
    split? separator s = some (front, back) ↔
      FirstSplit separator.toList s.toList front.toList back.toList := by
  rw [← splitList?_eq_some_iff, split?, Option.map_eq_some_iff]
  constructor
  · rintro ⟨parts, hparts, heq⟩
    cases heq
    simpa using hparts
  · intro h
    exact ⟨_, h, by simp⟩

/-- What follows the first separator may hold further ones. -/
example : split? ": " "0x1f: rep: movs" = some ("0x1f", "rep: movs") := by decide +kernel

end Line

/-!
# The numeral of an address
-/

namespace Numeral

def lowerDigits : List Char := "0123456789abcdef".toList

/-- One or more digits in lower case, which begin with a zero only if it is the whole numeral. -/
structure Canonical (digits : List Char) : Prop where
  ne_nil : digits ≠ []
  lower : ∀ c ∈ digits, c ∈ lowerDigits
  zero : digits.head? = some '0' → digits = ['0']

theorem digitChar_mem_lowerDigits {d : Nat} (h : d < 16) : d.digitChar ∈ lowerDigits := by
  revert d
  decide

theorem canonical_toHex (n : Nat) : Canonical (toHex n) := by
  induction n using Nat.strongRecOn with
  | ind n ih =>
      rw [toHex, Nat.toDigits_eq_if (by decide)]
      by_cases hsmall : n < 16
      · rw [if_pos hsmall]
        refine ⟨by simp, ?_, by simp⟩
        intro c hc
        rw [List.mem_singleton.mp hc]
        exact digitChar_mem_lowerDigits hsmall
      · rw [if_neg hsmall]
        have hfront : Canonical (toHex (n / 16)) := ih (n / 16) (by omega)
        refine ⟨by simp, ?_, ?_⟩
        · intro c hc
          rcases List.mem_append.mp hc with hc | hc
          · exact hfront.lower c hc
          · rw [List.mem_singleton.mp hc]
            exact digitChar_mem_lowerDigits (Nat.mod_lt n (by decide))
        · intro hhead
          -- a leading zero would be all of the higher digits, and they are not zero
          have hzero : toHex (n / 16) = ['0'] := by
            apply hfront.zero
            exact (List.head?_append_of_ne_nil _ hfront.ne_nil).symm.trans hhead
          have hread := ofHex?_toHex (n / 16)
          rw [hzero] at hread
          have hquotient : n / 16 = 0 := (Option.some.inj hread).symm
          omega

end Numeral

/-!
# Descriptions
-/

namespace Unicode

def SharpEnds (s : String) : Prop :=
  (∀ c ∈ s.toList.head?, isBlank c = false) ∧ ∀ c ∈ s.toList.getLast?, isBlank c = false

theorem SharpEnds.trim_eq {s : String} (h : SharpEnds s) : trim s = s := by
  rw [trim, trimList_of_ends h.1 h.2, String.ofList_toList]

end Unicode

namespace Instruction

variable {i : Instruction}

def operandTexts (i : Instruction) : List String :=
  (List.range i.operands.count).map fun index =>
    ((i.operands.get? index).map fun o => o.text.content).getD ""

theorem operandTexts_eq (h : i.operands.Packed) :
    i.operandTexts = i.operands.toList.map fun o => o.text.content := by
  apply List.ext_getElem?
  intro index
  rw [operandTexts, List.getElem?_map, List.getElem?_map, h.getElem?_toList]
  by_cases hcounted : index < i.operands.count
  · rcases Option.isSome_iff_exists.mp ((h.isSome_get?_iff index).mpr hcounted) with ⟨o, ho⟩
    simp [List.getElem?_range hcounted, ho]
  · have hnone : i.operands.get? index = none := if_neg hcounted
    simp [hcounted, hnone]

theorem displayParts_ne_empty (hmnemonic : i.mnemonic.content ≠ "") : i.displayParts ≠ "" := by
  intro hempty
  have hnone := joinTexts_eq_empty_iff.mp hempty
  rw [List.filter_eq_nil_iff] at hnone
  exact hnone i.mnemonic.content (by simp) (by simpa using hmnemonic)

theorem display_of_mnemonic (hmnemonic : i.mnemonic.content ≠ "") :
    i.display = i.displayAddress ++ ": " ++ i.displayParts := by
  have hdescription : i.description? = some i.displayParts := if_pos (by simpa using hmnemonic)
  rw [display, hdescription, String.append_assoc, String.append_assoc]
  rfl

theorem display_of_text (hmnemonic : i.mnemonic.content = "") (htext : i.text.content ≠ "") :
    i.display = i.displayAddress ++ ": " ++ Unicode.trim i.text.content := by
  have hdescription : i.description? = some (Unicode.trim i.text.content) := by
    simp [description?, hmnemonic, htext]
  rw [display, hdescription, String.append_assoc, String.append_assoc]
  rfl

/-!
# The parts of a line
-/

theorem colon_notMem_displayAddress : ':' ∉ i.displayAddress.toList := by
  intro hmem
  rw [displayAddress, String.toList_append] at hmem
  rcases List.mem_append.mp hmem with hmem | hmem
  · exact absurd hmem (by decide)
  · rw [String.toList_ofList] at hmem
    exact absurd ((Numeral.canonical_toHex _).lower ':' hmem) (by decide)

theorem split?_display (hmnemonic : i.mnemonic.content ≠ "") :
    Line.split? ": " i.display = some (i.displayAddress, i.displayParts) := by
  rw [Line.split?_eq_some_iff, display_of_mnemonic hmnemonic, String.toList_append,
    String.toList_append]
  exact Line.firstSplit_of_notMem colon_notMem_displayAddress

structure TakenApart (i : Instruction) (address description : String) : Prop where
  split?_eq : Line.split? ": " i.display = some (address, description)
  address_eq : ∃ digits, address = "0x" ++ String.ofList digits ∧ Numeral.Canonical digits ∧
    Numeral.ofHex? digits = some i.address.toNat
  description_eq : description =
    joinTexts " " [i.prefixes.content, i.mnemonic.content, joinTexts ", " i.operandTexts]
  display_eq : Unicode.SharpEnds description → ∀ j : Instruction, j.address = i.address →
    j.mnemonic.content = "" → j.text.content = description → j.display = i.display

/-- The line of an instruction with a mnemonic falls apart, at the first separator, into the numeral
of the address and the description. The description, unless a blank begins or ends it, gives the
line of every instruction without a mnemonic that has it as raw text, growable or not and whatever
else it holds. -/
theorem display_taken_apart (hreachable : Reachable i) (hmnemonic : i.mnemonic.content ≠ "") :
    ∃ address description, TakenApart i address description := by
  have hpacked := hreachable.wellFormed.operands.packed
  refine ⟨i.displayAddress, i.displayParts, split?_display hmnemonic, ?_, ?_, ?_⟩
  · exact ⟨_, rfl, Numeral.canonical_toHex _, Numeral.ofHex?_toHex _⟩
  · rw [operandTexts_eq hpacked]
    rfl
  · intro hends j haddress hbare htext
    have hraw : j.text.content ≠ "" := by
      rw [htext]
      exact displayParts_ne_empty hmnemonic
    rw [display_of_mnemonic hmnemonic, display_of_text hbare hraw, htext, hends.trim_eq,
      displayAddress, displayAddress, haddress]

/-- The separator occurs in the mnemonic and in an operand, another operand has no text, and the
raw text belongs to an instruction with prefixes and an operand of its own. -/
theorem display_taken_apart_of_repeated_separator :
    let i := ((blank ⟨8, 8, 3, 16⟩).run
      [.setAddress 0x1f, .addPrefix "rep", .setMnemonic "a: b", .nextOperand [.setText "es: di"],
        .commitNext, .commitNext, .nextOperand [.setText "al"], .commitNext]).2
    let j := (empty.run
      [.addPrefix "lock", .setMnemonic "", .setText "rep a: b es: di, al", .addOperand .empty,
        .setAddress 0x1f]).2
    Line.split? ": " i.display = some ("0x1f", "rep a: b es: di, al") ∧ j.display = i.display ∧
      Reachable i ∧ i.mnemonic.content ≠ "" ∧
      ∃ address description, TakenApart i address description := by
  intro i j
  have hmade : Reachable (blank ⟨8, 8, 3, 16⟩) := .ofLayout (l := ⟨8, 8, 3, 16⟩) rfl
  have hreachable : Reachable i := hmade.run _
  have hmnemonic : i.mnemonic.content ≠ "" := by decide
  exact ⟨by decide +kernel, by decide +kernel, hreachable, hmnemonic,
    display_taken_apart hreachable hmnemonic⟩

end Instruction
end Disassembly
