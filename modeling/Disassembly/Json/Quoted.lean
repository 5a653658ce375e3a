import Disassembly.Numeral

/-!
# Quoted strings

Reading finds the end of the literal and its pieces first, and then joins the pieces to
a text. It fails when half of a surrogate pair stands alone.
-/

namespace Disassembly
namespace Json
namespace Quoted

/-!
# Writing
-/

def controlEscape (c : Char) : List Char :=
  ['\\', 'u', '0', '0', (c.toNat / 16).digitChar, (c.toNat % 16).digitChar]

def escape (c : Char) : List Char :=
  if c = '"' then ['\\', '"']
  else if c = '\\' then ['\\', '\\']
  else if c = '\x08' then ['\\', 'b']
  else if c = '\x0c' then ['\\', 'f']
  else if c = '\n' then ['\\', 'n']
  else if c = '\r' then ['\\', 'r']
  else if c = '\t' then ['\\', 't']
  else if c.toNat < 0x20 then controlEscape c
  else [c]

def body (cs : List Char) : List Char := cs.flatMap escape

/-- A literal that stands for no text: half of a surrogate pair. -/
def unpaired : List Char := ['\\', 'u', 'd', '8', '0', '0']

def quote (text : Option String) : List Char :=
  match text with
  | some s => '"' :: body s.toList ++ ['"']
  | none => '"' :: unpaired ++ ['"']

/-!
# Reading
-/

inductive Piece where
  | char (c : Char)
  | unit (code : Nat)
deriving DecidableEq, Repr

def escaped? (c : Char) : Option Char :=
  if c = '"' then some '"'
  else if c = '\\' then some '\\'
  else if c = '/' then some '/'
  else if c = 'b' then some '\x08'
  else if c = 'f' then some '\x0c'
  else if c = 'n' then some '\n'
  else if c = 'r' then some '\r'
  else if c = 't' then some '\t'
  else none

/-- The pieces up to the closing quotation mark, put behind those in `before` (the last one
first), and what follows that mark. -/
def scanFrom (before : List Piece) : List Char → Option (List Piece × List Char)
  | [] => none
  | '"' :: rest => some (before.reverse, rest)
  | '\\' :: 'u' :: a :: b :: c :: d :: rest =>
      match Numeral.ofHex? [a, b, c, d] with
      | some code => scanFrom (.unit code :: before) rest
      | none => none
  | '\\' :: c :: rest =>
      match escaped? c with
      | some char => scanFrom (.char char :: before) rest
      | none => none
  | c :: rest => if c.toNat < 0x20 then none else scanFrom (.char c :: before) rest

def scan (input : List Char) : Option (List Piece × List Char) := scanFrom [] input

theorem length_scanFrom {before pieces : List Piece} {input rest : List Char}
    (h : scanFrom before input = some (pieces, rest)) : rest.length < input.length := by
  fun_induction scanFrom before input with
  | case1 => simp at h
  | case2 before rest' =>
      simp only [Option.some.injEq, Prod.mk.injEq] at h
      simp [← h.2]
  | case3 before a b c d rest' code found ih =>
      have := ih h
      simp only [List.length_cons]
      omega
  | case4 => simp at h
  | case5 before c rest' char found _ ih =>
      have := ih h
      simp only [List.length_cons]
      omega
  | case6 => simp at h
  | case7 => simp at h
  | case8 before c rest' _ _ _ _ ih =>
      have := ih h
      simp only [List.length_cons]
      omega

def isHighSurrogate (code : Nat) : Bool := 0xD800 ≤ code && code ≤ 0xDBFF

def isLowSurrogate (code : Nat) : Bool := 0xDC00 ≤ code && code ≤ 0xDFFF

def combine (high low : Nat) : Char :=
  Char.ofNat (0x10000 + (high - 0xD800) * 0x400 + (low - 0xDC00))

def joinFrom? (before : List Char) : List Piece → Option (List Char)
  | [] => some before.reverse
  | .char c :: rest => joinFrom? (c :: before) rest
  | .unit high :: .unit low :: rest =>
      if isHighSurrogate high && isLowSurrogate low then
        joinFrom? (combine high low :: before) rest
      else if isHighSurrogate high || isLowSurrogate high then none
      else joinFrom? (Char.ofNat high :: before) (.unit low :: rest)
  | .unit code :: rest =>
      if isHighSurrogate code || isLowSurrogate code then none
      else joinFrom? (Char.ofNat code :: before) rest

/-- The text of the pieces, unless half of a surrogate pair stands alone. -/
def join? (pieces : List Piece) : Option String := (joinFrom? [] pieces).map String.ofList

/-!
# Reading what was written
-/

def piece (c : Char) : Piece :=
  if c = '\x08' ∨ c = '\x0c' ∨ c = '\n' ∨ c = '\r' ∨ c = '\t' then .char c
  else if c.toNat < 0x20 then .unit c.toNat
  else .char c

theorem ofHex?_controlDigits : ∀ n < 0x20,
    Numeral.ofHex? ['0', '0', (n / 16).digitChar, (n % 16).digitChar] = some n := by
  decide

theorem scanFrom_plain {c : Char} (quote : c ≠ '"') (backslash : c ≠ '\\')
    (control : ¬c.toNat < 0x20) (before : List Piece) (rest : List Char) :
    scanFrom before (c :: rest) = scanFrom (.char c :: before) rest := by
  rw [scanFrom]
  · simp [control]
  · intro same
    exact absurd same quote
  · intro a b d e tail same
    exact absurd same backslash
  · intro d tail same
    exact absurd same backslash

theorem scanFrom_escape (c : Char) (before : List Piece) (rest : List Char) :
    scanFrom before (escape c ++ rest) = scanFrom (piece c :: before) rest := by
  by_cases quote : c = '"'
  · subst quote
    simp [escape, piece, scanFrom, escaped?]
  by_cases backslash : c = '\\'
  · subst backslash
    simp [escape, piece, scanFrom, escaped?]
  by_cases short : c = '\x08' ∨ c = '\x0c' ∨ c = '\n' ∨ c = '\r' ∨ c = '\t'
  · rcases short with same | same | same | same | same <;> subst same <;>
      simp [escape, piece, scanFrom, escaped?]
  · obtain ⟨b, f, n, r, t⟩ :
        c ≠ '\x08' ∧ c ≠ '\x0c' ∧ c ≠ '\n' ∧ c ≠ '\r' ∧ c ≠ '\t' := by
      simpa using short
    by_cases control : c.toNat < 0x20
    · simp [escape, piece, quote, backslash, b, f, n, r, t, control, controlEscape, scanFrom,
        ofHex?_controlDigits c.toNat control]
    · simp [escape, piece, quote, backslash, b, f, n, r, t, control,
        scanFrom_plain quote backslash control]

theorem scanFrom_body (cs : List Char) (before : List Piece) (rest : List Char) :
    scanFrom before (body cs ++ '"' :: rest) =
      some (before.reverse ++ cs.map piece, rest) := by
  induction cs generalizing before with
  | nil => simp [body, scanFrom]
  | cons c tail ih =>
      have step := scanFrom_escape c before (body tail ++ '"' :: rest)
      simp only [body, List.flatMap_cons, List.append_assoc] at step ih ⊢
      rw [step, ih]
      simp

theorem scan_body (cs rest : List Char) :
    scan (body cs ++ '"' :: rest) = some (cs.map piece, rest) := by
  rw [scan, scanFrom_body]
  simp

theorem joinFrom?_unit {code : Nat} (high : isHighSurrogate code = false)
    (low : isLowSurrogate code = false) (before : List Char) (rest : List Piece) :
    joinFrom? before (.unit code :: rest) = joinFrom? (Char.ofNat code :: before) rest := by
  cases rest with
  | nil => simp [joinFrom?, high, low]
  | cons next tail => cases next <;> simp [joinFrom?, high, low]

theorem joinFrom?_piece (c : Char) (before : List Char) (rest : List Piece) :
    joinFrom? before (piece c :: rest) = joinFrom? (c :: before) rest := by
  unfold piece
  split
  · simp [joinFrom?]
  · split
    · rename_i control
      rw [joinFrom?_unit, Char.ofNat_toNat]
      · simp only [isHighSurrogate, Bool.and_eq_false_iff, decide_eq_false_iff_not]
        omega
      · simp only [isLowSurrogate, Bool.and_eq_false_iff, decide_eq_false_iff_not]
        omega
    · simp [joinFrom?]

theorem joinFrom?_pieces (cs before : List Char) :
    joinFrom? before (cs.map piece) = some (before.reverse ++ cs) := by
  induction cs generalizing before with
  | nil => simp [joinFrom?]
  | cons c rest ih =>
      rw [List.map_cons, joinFrom?_piece, ih]
      simp

theorem join?_pieces (s : String) : join? (s.toList.map piece) = some s := by
  simp [join?, joinFrom?_pieces]

end Quoted
end Json
end Disassembly
