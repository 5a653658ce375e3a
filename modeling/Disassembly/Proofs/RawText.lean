import Disassembly.Proofs.Line

/-!
# Raw text on a line

The raw text describes an instruction without a mnemonic. Whether there is one is asked
before it is trimmed, so a text of blanks alone has its space on the line and nothing
behind it. In every other case the line ends in something other than a blank.
-/

namespace Disassembly

/-!
# The core of a text
-/

namespace Unicode

structure Stripped (s core : String) : Prop where
  parts : ∃ front back : String, s = front ++ core ++ back ∧
    (∀ c ∈ front.toList, isBlank c = true) ∧ ∀ c ∈ back.toList, isBlank c = true
  sharp : SharpEnds core

theorem isBlank_of_mem_takeWhile {cs : List Char} :
    ∀ c ∈ cs.takeWhile isBlank, isBlank c = true :=
  List.all_eq_true.mp List.all_takeWhile

theorem isBlank_of_head?_dropWhile {cs : List Char} :
    ∀ c ∈ (cs.dropWhile isBlank).head?, isBlank c = false := by
  intro c hc
  have hsharp := List.head?_dropWhile_not isBlank cs
  rw [Option.mem_def.mp hc] at hsharp
  exact hsharp

theorem exists_trimList_parts (cs : List Char) :
    ∃ back, cs.dropWhile isBlank = trimList cs ++ back ∧ ∀ c ∈ back, isBlank c = true := by
  refine ⟨((cs.dropWhile isBlank).reverse.takeWhile isBlank).reverse, ?_, ?_⟩
  · rw [trimList, ← List.reverse_append, List.takeWhile_append_dropWhile, List.reverse_reverse]
  · intro c hc
    exact isBlank_of_mem_takeWhile c (List.mem_reverse.mp hc)

theorem stripped_trim (s : String) : Stripped s (trim s) := by
  rcases exists_trimList_parts s.toList with ⟨back, hback, hblank⟩
  refine ⟨⟨String.ofList (s.toList.takeWhile isBlank), String.ofList back, ?_, ?_, ?_⟩, ?_, ?_⟩
  · rw [trim, ← String.ofList_append, ← String.ofList_append, List.append_assoc, ← hback,
      List.takeWhile_append_dropWhile, String.ofList_toList]
  · rw [String.toList_ofList]
    exact isBlank_of_mem_takeWhile
  · rw [String.toList_ofList]
    exact hblank
  · intro c hc
    rw [trim, String.toList_ofList] at hc
    have hfirst : c ∈ (s.toList.dropWhile isBlank).head? := by
      rw [hback]
      exact List.mem_head?_append_of_mem_head? hc
    exact isBlank_of_head?_dropWhile c hfirst
  · intro c hc
    rw [trim, String.toList_ofList, trimList, List.getLast?_reverse] at hc
    exact isBlank_of_head?_dropWhile c hc

def EndsInBlank (s : String) : Prop := ∃ c ∈ s.toList.getLast?, isBlank c = true

theorem not_endsInBlank_append {front back : String} (hback : back ≠ "")
    (hlast : ∀ c ∈ back.toList.getLast?, isBlank c = false) : ¬EndsInBlank (front ++ back) := by
  rintro ⟨c, hc, hblank⟩
  have hne : back.toList ≠ [] := fun hnil => hback (String.toList_eq_nil_iff.mp hnil)
  rw [String.toList_append, List.getLast?_append_of_ne_nil _ hne] at hc
  rw [hlast c hc] at hblank
  cases hblank

theorem trim_eq_empty_iff {s : String} : trim s = "" ↔ ∀ c ∈ s.toList, isBlank c = true := by
  rw [← trimList_eq_nil_iff, trim, ← String.toList_inj, String.toList_ofList]
  rfl

end Unicode

namespace Instruction

variable {i : Instruction}

/-!
# Lines of raw text
-/

theorem display_of_no_text (hmnemonic : i.mnemonic.content = "") (htext : i.text.content = "") :
    i.display = i.displayAddress ++ ":" := by
  have hdescription : i.description? = none := by simp [description?, hmnemonic, htext]
  rw [display, hdescription, String.append_empty]

structure RawLine (i : Instruction) (core : String) : Prop where
  stripped : Unicode.Stripped i.text.content core
  core_eq_empty_iff : core = "" ↔ ∀ c ∈ i.text.content.toList, Unicode.isBlank c = true
  address_eq : ∃ digits, i.displayAddress = "0x" ++ String.ofList digits ∧
    Numeral.Canonical digits ∧ Numeral.ofHex? digits = some i.address.toNat
  of_no_text : i.text.content = "" → i.display = i.displayAddress ++ ":"
  of_core : core ≠ "" → i.display = i.displayAddress ++ ": " ++ core
  of_blank : i.text.content ≠ "" → core = "" → i.display = i.displayAddress ++ ": "
  endsInBlank_iff : Unicode.EndsInBlank i.display ↔ i.text.content ≠ "" ∧ core = ""

theorem endsInBlank_display_iff (hmnemonic : i.mnemonic.content = "") :
    Unicode.EndsInBlank i.display ↔ i.text.content ≠ "" ∧ Unicode.trim i.text.content = "" := by
  by_cases htext : i.text.content = ""
  · rw [display_of_no_text hmnemonic htext]
    have hlast : ∀ c ∈ (":" : String).toList.getLast?, Unicode.isBlank c = false := by
      rintro c ⟨⟩
      decide
    have hcolon : ¬Unicode.EndsInBlank (i.displayAddress ++ ":") :=
      Unicode.not_endsInBlank_append (by decide) hlast
    simp [hcolon, htext]
  · rw [display_of_text hmnemonic htext]
    by_cases hcore : Unicode.trim i.text.content = ""
    · have hspace : Unicode.EndsInBlank (i.displayAddress ++ ": ") :=
        ⟨' ', by simp, by decide⟩
      simp [hcore, hspace, htext]
    · have hsharp := (Unicode.stripped_trim i.text.content).sharp.2
      simp [Unicode.not_endsInBlank_append hcore hsharp, hcore]

/-- The raw text of an instruction without a mnemonic is displayed behind the address without the
blanks at its ends, whatever prefixes and operands there are. If it consists of blanks, and only
then, the line ends in a blank. -/
theorem display_without_mnemonic (hmnemonic : i.mnemonic.content = "") :
    ∃ core, RawLine i core := by
  refine ⟨Unicode.trim i.text.content, ?_⟩
  have hcore : Unicode.trim i.text.content ≠ "" → i.text.content ≠ "" := by
    rintro hne hempty
    rw [hempty] at hne
    exact hne rfl
  exact {
    stripped := Unicode.stripped_trim i.text.content
    core_eq_empty_iff := Unicode.trim_eq_empty_iff
    address_eq := ⟨_, rfl, Numeral.canonical_toHex _, Numeral.ofHex?_toHex _⟩
    of_no_text := display_of_no_text hmnemonic
    of_core := fun hne => display_of_text hmnemonic (hcore hne)
    of_blank := by
      intro htext hempty
      rw [display_of_text hmnemonic htext, hempty, String.append_empty]
    endsInBlank_iff := endsInBlank_display_iff hmnemonic }

/-- The raw text of a fixed instruction is cut behind two wide blanks, and there are a prefix and
an operand that are not displayed. -/
theorem display_without_mnemonic_of_text_cut_to_blanks :
    let i := ((blank ⟨7, 4, 1, 8⟩).run
      [.setAddress 0x1f, .addPrefix "rep", .setMnemonic "", .nextOperand [.setText "al"],
        .commitNext, .setText "\u2003\u2003nop"]).2
    i.mnemonic.content = "" ∧ i.text.content = "\u2003\u2003" ∧ i.display = "0x1f: " ∧
      RawLine i "" := by
  intro i
  have hmnemonic : i.mnemonic.content = "" := by decide
  have htext : i.text.content = "\u2003\u2003" := by decide
  rcases display_without_mnemonic hmnemonic with ⟨core, hline⟩
  obtain rfl : core = "" := by
    rw [hline.core_eq_empty_iff, htext]
    exact List.all_eq_true.mp (by decide)
  exact ⟨hmnemonic, htext, by decide +kernel, hline⟩

/-- A raw text without any other characters than blanks does not leave the address alone on the
line. -/
theorem blank_text_leaves_space :
    ¬∀ i : Instruction, Reachable i → i.mnemonic.content = "" →
      (∀ c ∈ i.text.content.toList, Unicode.isBlank c = true) →
      i.display = i.displayAddress ++ ":" := by
  intro hall
  have hreachable : Reachable (empty.perform (.setText " ")).2 := Reachable.empty.perform _
  have halone := hall _ hreachable (by decide) (List.all_eq_true.mp (by decide))
  exact absurd halone (by decide +kernel)

end Instruction
end Disassembly
