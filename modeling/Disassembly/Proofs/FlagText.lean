import Disassembly.Flags
import Mathlib.Data.List.Basic

/-!
# Flag sets as text

The stored form of a set is a row of words, one for each flag that has a name and
perhaps one for the other bits. No word contains a blank or the separator, so the words
come back when the text is split and the blanks around its items are dropped.
-/

namespace Disassembly

/-!
# Blanks around words
-/

namespace Unicode

theorem dropWhile_isBlank_of_head? {cs : List Char}
    (hhead : ∀ c, cs.head? = some c → isBlank c = false) : cs.dropWhile isBlank = cs := by
  cases cs with
  | nil => rfl
  | cons c rest => exact List.dropWhile_cons_of_neg (by simp [hhead c rfl])

theorem trimList_append_append {front cs back : List Char}
    (hfront : ∀ c ∈ front, isBlank c = true) (hback : ∀ c ∈ back, isBlank c = true)
    (hhead : ∀ c, cs.head? = some c → isBlank c = false)
    (hlast : ∀ c, cs.getLast? = some c → isBlank c = false) :
    trimList (front ++ (cs ++ back)) = cs := by
  unfold trimList
  rw [List.dropWhile_append_of_pos hfront]
  cases cs with
  | nil =>
      rw [List.nil_append, dropWhile_isBlank_eq_nil_iff.mpr hback]
      rfl
  | cons c rest =>
      have hreverse : ∀ d ∈ back.reverse, isBlank d = true := by
        intro d hd
        exact hback d (List.mem_reverse.mp hd)
      have hfirst : (c :: rest ++ back).dropWhile isBlank = c :: rest ++ back :=
        dropWhile_isBlank_of_head? (by simpa using hhead c rfl)
      have hbehind : (c :: rest).reverse.dropWhile isBlank = (c :: rest).reverse := by
        apply dropWhile_isBlank_of_head?
        intro d hd
        rw [List.head?_reverse] at hd
        exact hlast d hd
      rw [hfirst, List.reverse_append, List.dropWhile_append_of_pos hreverse, hbehind,
        List.reverse_reverse]

theorem trimList_of_ends {cs : List Char} (hhead : ∀ c, cs.head? = some c → isBlank c = false)
    (hlast : ∀ c, cs.getLast? = some c → isBlank c = false) : trimList cs = cs := by
  have hends : trimList ([] ++ (cs ++ [])) = cs :=
    trimList_append_append (by simp) (by simp) hhead hlast
  simpa using hends

end Unicode

namespace FlagSet

/-!
# Words and items
-/

def IsWord (cs : List Char) : Prop := ∀ c ∈ cs, Unicode.isBlank c = false ∧ c ≠ separator

instance (cs : List Char) : Decidable (IsWord cs) :=
  List.decidableBAll (fun c => Unicode.isBlank c = false ∧ c ≠ separator) cs

def row (words : List (List Char)) : List Char := [' ', '|', ' '].intercalate words

theorem row_cons_cons (word next : List Char) (rest : List (List Char)) :
    row (word :: next :: rest) = (word ++ [' ']) ++ separator :: ([' '] ++ row (next :: rest)) := by
  simp [row, separator]

theorem ne_separator_of_isBlank {c : Char} (h : Unicode.isBlank c = true) : c ≠ separator := by
  intro hsame
  rw [hsame] at h
  exact absurd h (by decide)

theorem IsWord.trimList_append {word front back : List Char} (h : IsWord word)
    (hfront : ∀ c ∈ front, Unicode.isBlank c = true)
    (hback : ∀ c ∈ back, Unicode.isBlank c = true) :
    Unicode.trimList (front ++ (word ++ back)) = word := by
  apply Unicode.trimList_append_append hfront hback
  · intro c hc
    exact (h c (List.mem_of_head? hc)).1
  · intro c hc
    exact (h c (List.mem_of_getLast? hc)).1

theorem map_trimList_items {words : List (List Char)} (hwords : ∀ word ∈ words, IsWord word)
    (hne : words ≠ []) {front : List Char} (hfront : ∀ c ∈ front, Unicode.isBlank c = true) :
    (items (front ++ row words)).map Unicode.trimList = words := by
  induction words generalizing front with
  | nil => exact absurd rfl hne
  | cons word rest ih =>
      rcases List.forall_mem_cons.mp hwords with ⟨hword, hrest⟩
      have hspace : ∀ c ∈ [' '], Unicode.isBlank c = true :=
        List.forall_mem_singleton.mpr (by decide)
      have hwhole : ∀ back : List Char, (∀ c ∈ back, Unicode.isBlank c = true) →
          ∀ c ∈ front ++ (word ++ back), (c == separator) = false := by
        intro back hback c hc
        apply beq_false_of_ne
        rcases List.mem_append.mp hc with hc | hc
        · exact ne_separator_of_isBlank (hfront c hc)
        · rcases List.mem_append.mp hc with hc | hc
          · exact (hword c hc).2
          · exact ne_separator_of_isBlank (hback c hc)
      cases rest with
      | nil =>
          have hitem : items (front ++ row [word]) = [front ++ (word ++ [])] := by
            have hrow : row [word] = word ++ [] := by simp [row]
            rw [hrow]
            exact List.splitOnP_eq_singleton (hwhole [] (by simp))
          rw [hitem, List.map_singleton, hword.trimList_append hfront (by simp)]
      | cons next others =>
          -- the first item ends before the separator, and the blank behind it goes to the next one
          have hitems : items (front ++ row (word :: next :: others)) =
              (front ++ (word ++ [' '])) :: items ([' '] ++ row (next :: others)) := by
            rw [row_cons_cons, ← List.append_assoc]
            exact List.splitOnP_append_cons_of_forall_mem (hwhole [' '] hspace) separator
              (beq_self_eq_true _) _
          rw [hitems, List.map_cons, hword.trimList_append hfront hspace,
            ih hrest (List.cons_ne_nil next others) hspace]

theorem row_ne_nil {word : List Char} (hword : word ≠ []) (rest : List (List Char)) :
    row (word :: rest) ≠ [] := by
  cases rest with
  | nil => simpa [row] using hword
  | cons next others => simp [row_cons_cons]

theorem head?_row {word : List Char} (hword : word ≠ []) (rest : List (List Char)) :
    (row (word :: rest)).head? = word.head? := by
  cases rest with
  | nil => simp [row]
  | cons next others =>
      rcases List.exists_cons_of_ne_nil hword with ⟨c, tail, rfl⟩
      rw [row_cons_cons]
      rfl

theorem trimList_row {words : List (List Char)} (hwords : ∀ word ∈ words, IsWord word)
    (hne : ∀ word ∈ words, word ≠ []) : Unicode.trimList (row words) = row words := by
  apply Unicode.trimList_of_ends
  · intro c hc
    cases words with
    | nil => cases hc
    | cons word rest =>
        rw [head?_row (hne word List.mem_cons_self)] at hc
        exact (hwords word List.mem_cons_self c (List.mem_of_head? hc)).1
  · intro c hc
    induction words with
    | nil => cases hc
    | cons word rest ih =>
        cases rest with
        | nil =>
            have hmem : c ∈ word := by simpa [row] using List.mem_of_getLast? hc
            exact (hwords word List.mem_cons_self c hmem).1
        | cons next others =>
            apply ih (fun later hlater => hwords later (List.mem_cons_of_mem word hlater))
              (fun later hlater => hne later (List.mem_cons_of_mem word hlater))
            have hbehind := row_ne_nil (hne next (by simp)) others
            rw [row_cons_cons, List.getLast?_append_of_ne_nil _ (List.cons_ne_nil _ _),
              List.getLast?_cons_of_ne_nil (by simp),
              List.getLast?_append_of_ne_nil _ hbehind] at hc
            exact hc

/-!
# The digits of unknown bits
-/

theorem word_of_hexValue? {c : Char} {digit : Nat} (hvalue : Numeral.hexValue? c = some digit) :
    Unicode.isBlank c = false ∧ c ≠ separator := by
  have hrange : ('0' ≤ c ∧ c ≤ '9') ∨ ('a' ≤ c ∧ c ≤ 'f') ∨ ('A' ≤ c ∧ c ≤ 'F') := by
    unfold Numeral.hexValue? at hvalue
    grind
  constructor
  · have hnat : (0x30 ≤ c.toNat ∧ c.toNat ≤ 0x39) ∨ (0x61 ≤ c.toNat ∧ c.toNat ≤ 0x66) ∨
        (0x41 ≤ c.toNat ∧ c.toNat ≤ 0x46) := hrange
    simp [Unicode.isBlank]
    omega
  · rintro rfl
    exact absurd hrange (by decide)

theorem isWord_of_hexFrom? {cs : List Char} {high n : Nat}
    (hread : Numeral.hexFrom? high cs = some n) : IsWord cs := by
  induction cs generalizing high with
  | nil => exact fun c hc => absurd hc List.not_mem_nil
  | cons c rest ih =>
      cases hvalue : Numeral.hexValue? c with
      | none => simp [Numeral.hexFrom?, hvalue] at hread
      | some digit =>
          rw [Numeral.hexFrom?, hvalue] at hread
          intro d hd
          rcases List.mem_cons.mp hd with rfl | hd
          · exact word_of_hexValue? hvalue
          · exact ih hread d hd

theorem isWord_hexItem (n : Nat) : IsWord ('0' :: 'x' :: Numeral.toHex n) := by
  intro c hc
  rcases List.mem_cons.mp hc with rfl | hc
  · decide
  · rcases List.mem_cons.mp hc with rfl | hc
    · decide
    · exact isWord_of_hexFrom? (Numeral.hexFrom?_toHex n) c hc

variable {φ : Type}

theorem bitsOfDigits?_toHex [StoredFlag φ] (bits : BitVec (Flag.width φ)) :
    bitsOfDigits? (φ := φ) (Numeral.toHex bits.toNat) = some bits := by
  have hread := Numeral.ofHex?_toHex bits.toNat
  -- a sign in front would not be a digit
  have hunsigned : ∀ rest, Numeral.toHex bits.toNat ≠ '+' :: rest := by
    intro rest hsign
    rw [hsign] at hread
    simp [Numeral.ofHex?, Numeral.hexFrom?, Numeral.hexValue?] at hread
  unfold bitsOfDigits?
  split
  · rename_i rest hsign
    exact absurd hsign (hunsigned rest)
  · simp [hread]

/-!
# The bits of a union
-/

section Flag

variable [Flag φ]

theorem eq_of_getLsbD_eq {s t : FlagSet φ}
    (h : ∀ index < Flag.width φ, s.bits.getLsbD index = t.bits.getLsbD index) : s = t := by
  cases s
  cases t
  exact congrArg mk (BitVec.eq_of_getLsbD_eq h)

theorem getLsbD_foldl_union (sets : List (FlagSet φ)) (start : FlagSet φ) (index : Nat) :
    (sets.foldl union start).bits.getLsbD index =
      (start.bits.getLsbD index || sets.any fun s => s.bits.getLsbD index) := by
  induction sets generalizing start with
  | nil => simp
  | cons s rest ih => simp [ih, union, Bool.or_assoc]

theorem getLsbD_ofList (flags : List φ) (index : Nat) :
    (ofList flags).bits.getLsbD index =
      flags.any fun flag => (singleton flag).bits.getLsbD index := by
  have hfold : ofList flags = (flags.map singleton).foldl union empty := by
    rw [List.foldl_map]
    rfl
  rw [hfold, getLsbD_foldl_union]
  simp [empty, Function.comp_def]

theorem contains_of_getLsbD_singleton {s : FlagSet φ} {flag : φ} {index : Nat}
    (hbit : (singleton flag).bits.getLsbD index = true) :
    s.contains flag = s.bits.getLsbD index := by
  rw [singleton, BitVec.getLsbD_twoPow, Bool.and_eq_true, decide_eq_true_eq,
    decide_eq_true_eq] at hbit
  rw [contains, hbit.2]

end Flag

section NamedFlag

variable [NamedFlag φ]

def parts (s : FlagSet φ) : List (FlagSet φ) :=
  s.flags.map singleton ++ if s.unknownBits = 0 then [] else [⟨s.unknownBits⟩]

theorem any_parts (s : FlagSet φ) (index : Nat) :
    (s.parts.any fun part => part.bits.getLsbD index) =
      (s.flags.any (fun flag => (singleton flag).bits.getLsbD index) ||
        s.unknownBits.getLsbD index) := by
  rw [parts, List.any_append, List.any_map]
  congr 1
  split
  · rename_i hnone
    simp [hnone]
  · simp

theorem foldl_union_parts (s : FlagSet φ) : s.parts.foldl union empty = s := by
  apply eq_of_getLsbD_eq
  intro index hindex
  rw [getLsbD_foldl_union, any_parts, unknownBits, BitVec.getLsbD_and, BitVec.getLsbD_not,
    getLsbD_ofList, decide_eq_true hindex, Bool.true_and]
  have hempty : (empty : FlagSet φ).bits.getLsbD index = false := BitVec.getLsbD_zero
  rw [hempty, Bool.false_or, Bool.eq_iff_iff]
  constructor
  · intro hunion
    rcases Bool.or_eq_true_iff.mp hunion with hflag | hunknown
    · rcases List.any_eq_true.mp hflag with ⟨flag, hflag, hbit⟩
      rw [← contains_of_getLsbD_singleton hbit]
      exact (List.mem_filter.mp hflag).2
    · exact (Bool.and_eq_true_iff.mp hunknown).1
  · intro hbit
    -- a bit of the set is that of a flag of the family, or unknown
    cases hknown : (NamedFlag.all : List φ).any fun flag => (singleton flag).bits.getLsbD index with
    | true =>
        rcases List.any_eq_true.mp hknown with ⟨flag, hall, hown⟩
        apply Bool.or_eq_true_iff.mpr
        apply Or.inl
        apply List.any_eq_true.mpr
        refine ⟨flag, List.mem_filter.mpr ⟨hall, ?_⟩, hown⟩
        rw [contains_of_getLsbD_singleton hown, hbit]
    | false =>
        rw [hbit]
        simp

end NamedFlag

/-!
# Reading the words
-/

/-- A family whose identifiers are words that read back as the flags they name. -/
class LawfulFlag (φ : Type) [StoredFlag φ] : Prop where
  isWord_ident : ∀ flag ∈ (NamedFlag.all : List φ), IsWord (StoredFlag.ident flag).toList
  ofItem?_ident : ∀ flag ∈ (NamedFlag.all : List φ),
    ofItem? (StoredFlag.ident flag).toList = some (singleton flag)

instance : LawfulFlag OperandFlag where
  isWord_ident := by decide
  ofItem?_ident := by decide

instance : LawfulFlag RegisterClass where
  isWord_ident := by decide
  ofItem?_ident := by decide

variable [StoredFlag φ]

def words (s : FlagSet φ) : List (List Char) :=
  (s.flags.map StoredFlag.ident ++ s.unknownItem).map String.toList

theorem toList_toText (s : FlagSet φ) : s.toText.toList = row s.words := by
  rw [toText, String.toList_intercalate, row, words]
  rfl

theorem ofItem?_nil : ofItem? ([] : List Char) = (none : Option (FlagSet φ)) := rfl

section LawfulFlag

variable [LawfulFlag φ]

theorem mapM_ofItem?_idents {flags : List φ} (hflags : ∀ flag ∈ flags, flag ∈ NamedFlag.all) :
    (flags.map fun flag => (StoredFlag.ident flag).toList).mapM ofItem? =
      some (flags.map singleton) := by
  induction flags with
  | nil => rfl
  | cons flag rest ih =>
      rcases List.forall_mem_cons.mp hflags with ⟨hflag, hrest⟩
      rw [List.map_cons, List.mapM_cons, LawfulFlag.ofItem?_ident flag hflag, ih hrest]
      rfl

theorem mapM_ofItem?_words (s : FlagSet φ) : s.words.mapM ofItem? = some s.parts := by
  have hflags : ∀ flag ∈ s.flags, flag ∈ (NamedFlag.all : List φ) :=
    fun flag hflag => (mem_flags_iff.mp hflag).1
  rw [words, List.map_append, List.map_map, List.mapM_append]
  simp only [Function.comp_def, mapM_ofItem?_idents hflags, parts, unknownItem]
  split
  · rfl
  · simp [ofItem?, bitsOfDigits?_toHex]

theorem isWord_of_mem_words {s : FlagSet φ} : ∀ word ∈ s.words, IsWord word := by
  intro word hword
  rcases List.mem_map.mp hword with ⟨text, htext, rfl⟩
  rcases List.mem_append.mp htext with hident | hunknown
  · rcases List.mem_map.mp hident with ⟨flag, hflag, rfl⟩
    exact LawfulFlag.isWord_ident flag (mem_flags_iff.mp hflag).1
  · unfold unknownItem at hunknown
    split at hunknown
    · exact absurd hunknown List.not_mem_nil
    · rw [List.mem_singleton.mp hunknown, String.toList_ofList]
      exact isWord_hexItem _

theorem ne_nil_of_mem_words {s : FlagSet φ} : ∀ word ∈ s.words, word ≠ [] := by
  rintro _ hword rfl
  have hread := mapM_ofItem?_words s
  rcases List.append_of_mem hword with ⟨front, back, hsplit⟩
  rw [hsplit, List.mapM_append, List.mapM_cons, ofItem?_nil] at hread
  cases hfront : front.mapM (ofItem? (φ := φ)) <;> simp [hfront] at hread

theorem ofText?_toText (s : FlagSet φ) : ofText? s.toText = some s := by
  have hread := mapM_ofItem?_words s
  have htrim := trimList_row isWord_of_mem_words (ne_nil_of_mem_words (s := s))
  have hwhole := foldl_union_parts s
  rw [ofText?, toList_toText, htrim]
  cases hwords : s.words with
  | nil =>
      rw [hwords] at hread
      have hparts : s.parts = [] := (Option.some.inj hread).symm
      rw [hparts] at hwhole
      simpa [row] using hwhole
  | cons word rest =>
      have hitems : (items ([] ++ row s.words)).map Unicode.trimList = s.words :=
        map_trimList_items isWord_of_mem_words (by simp [hwords]) (by simp)
      have hword : word ∈ s.words := by simp [hwords]
      have hne := row_ne_nil (ne_nil_of_mem_words word hword) rest
      rw [hwords, List.nil_append] at hitems
      have hmapM := List.mapM_map (m := Option) (l := items (row (word :: rest)))
        (f := Unicode.trimList) (g := ofItem? (φ := φ))
      rw [hitems, ← hwords, hread, hwords] at hmapM
      split
      · contradiction
      · have hunion := congrArg (Option.map (·.foldl union empty)) hmapM.symm
        simpa [Function.comp_def, hwhole] using hunion

end LawfulFlag

end FlagSet
end Disassembly
