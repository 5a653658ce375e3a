import Disassembly.Json.RoundTrip

/-!
# Literals of numbers and strings

The grammar says which characters spell a number or a string, and what they stand for.
The scanners take a literal off the front of the input: all of it, if what follows
cannot go on with it, and nothing that the grammar does not admit.
-/

namespace Disassembly
namespace Json

/-!
# The grammar of numbers
-/

structure Digits (cs : List Char) : Prop where
  ne_nil : cs ≠ []
  digit : ∀ c ∈ cs, c.isDigit = true

/-- What may stand in front of the point. No zero stands in front of other digits. -/
inductive Whole : List Char → Prop
  | zero : Whole ['0']
  | digits {c : Char} {rest : List Char} (hfirst : c ≠ '0') (hdigits : Digits (c :: rest)) :
      Whole (c :: rest)

inductive Fraction : List Char → Prop
  | none : Fraction []
  | point {digits : List Char} (hdigits : Digits digits) : Fraction ('.' :: digits)

inductive Exponent : List Char → Prop
  | none : Exponent []
  | power {mark : Char} {sign digits : List Char} (hmark : mark = 'e' ∨ mark = 'E')
      (hsign : sign = [] ∨ sign = ['+'] ∨ sign = ['-']) (hdigits : Digits digits) :
      Exponent (mark :: (sign ++ digits))

structure NumberLiteral where
  negative : Bool
  whole : List Char
  fraction : List Char
  exponent : List Char

namespace NumberLiteral

structure WellFormed (n : NumberLiteral) : Prop where
  whole : Whole n.whole
  fraction : Fraction n.fraction
  exponent : Exponent n.exponent

def sign (n : NumberLiteral) : List Char := if n.negative then ['-'] else []

def unsigned (n : NumberLiteral) : List Char := n.whole ++ (n.fraction ++ n.exponent)

def chars (n : NumberLiteral) : List Char := n.sign ++ n.unsigned

def value (n : NumberLiteral) : Nat := Nat.ofDigitChars 10 n.whole 0

/-- Only digits are written, and the number is not zero with a sign. -/
def IsInteger (n : NumberLiteral) : Prop :=
  n.fraction = [] ∧ n.exponent = [] ∧ ¬(n.negative = true ∧ n.value = 0)

instance (n : NumberLiteral) : Decidable n.IsInteger := by
  unfold IsInteger
  infer_instance

def token (n : NumberLiteral) : Token :=
  if n.IsInteger then .integer (if n.negative then -(n.value : Int) else n.value)
  else .real (String.ofList n.chars)

end NumberLiteral

/-!
# Scanning a number
-/

theorem Whole.digit {whole : List Char} (h : Whole whole) : ∀ c ∈ whole, c.isDigit = true := by
  cases h with
  | zero => simp
  | digits _ hdigits => exact hdigits.digit

namespace Quoted

/-!
# The grammar of strings
-/

inductive Piece.Spelled : Piece → List Char → Prop
  | plain {c : Char} (hquote : c ≠ '"') (hbackslash : c ≠ '\\') (hcontrol : 0x20 ≤ c.toNat) :
      Spelled (.char c) [c]
  | escaped {c d : Char} (hescape : escaped? c = some d) : Spelled (.char d) ['\\', c]
  | unit {a b c d : Char} {code : Nat} (hdigits : Numeral.ofHex? [a, b, c, d] = some code) :
      Spelled (.unit code) ['\\', 'u', a, b, c, d]

inductive SpelledPieces : List Piece → List Char → Prop
  | nil : SpelledPieces [] []
  | cons {piece : Piece} {pieces : List Piece} {front back : List Char}
      (hpiece : piece.Spelled front) (hpieces : SpelledPieces pieces back) :
      SpelledPieces (piece :: pieces) (front ++ back)

/-!
# Scanning a string
-/

theorem scanFrom_escaped {c d : Char} (hescape : escaped? c = some d) (before : List Piece)
    (rest : List Char) :
    scanFrom before ('\\' :: c :: rest) = scanFrom (.char d :: before) rest := by
  have hletter : c ≠ 'u' := by
    rintro rfl
    have hnone : escaped? 'u' = none := by decide
    rw [hnone] at hescape
    cases hescape
  rw [scanFrom]
  · rw [hescape]
  · exact fun _ _ _ _ _ hfirst => absurd hfirst hletter

theorem Piece.Spelled.scanFrom {piece : Piece} {chars : List Char} (h : piece.Spelled chars)
    (before : List Piece) (rest : List Char) :
    Quoted.scanFrom before (chars ++ rest) = Quoted.scanFrom (piece :: before) rest := by
  cases h with
  | plain hquote hbackslash hcontrol =>
      exact scanFrom_plain hquote hbackslash (Nat.not_lt.mpr hcontrol) before rest
  | escaped hescape => exact scanFrom_escaped hescape before rest
  | unit hdigits => simp [Quoted.scanFrom, hdigits]

end Quoted

end Json
end Disassembly
