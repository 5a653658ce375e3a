import Disassembly.Json.Quoted
import Disassembly.Json.Value

/-!
# JSON tokens as text

Tokens are written without blanks between them, and read with blanks or none. A scanner
takes one token off the front of the input and gives what follows it, which is shorter.
-/

namespace Disassembly
namespace Json

def Token.chars : Token → List Char
  | .openBracket => ['[']
  | .closeBracket => [']']
  | .openBrace => ['{']
  | .closeBrace => ['}']
  | .comma => [',']
  | .colon => [':']
  | .null => ['n', 'u', 'l', 'l']
  | .bool true => ['t', 'r', 'u', 'e']
  | .bool false => ['f', 'a', 'l', 's', 'e']
  | .integer (.ofNat n) => Nat.toDigits 10 n
  | .integer (.negSucc n) => '-' :: Nat.toDigits 10 (n + 1)
  | .real literal => literal.toList
  | .string text => Quoted.quote text

def render (value : Json) : String := String.ofList (value.tokens.flatMap Token.chars)

/-!
# Scanning numbers
-/

def leadingDigits (input : List Char) : List Char := input.takeWhile Char.isDigit

def afterDigits (input : List Char) : List Char := input.dropWhile Char.isDigit

/-- The fraction at the front of the input, which may be missing, and what follows it. A point
has to be followed by a digit. -/
def scanFraction? : List Char → Option (List Char × List Char)
  | '.' :: rest =>
      if leadingDigits rest = [] then none
      else some ('.' :: leadingDigits rest, afterDigits rest)
  | input => some ([], input)

def splitSign : List Char → List Char × List Char
  | '+' :: rest => (['+'], rest)
  | '-' :: rest => (['-'], rest)
  | input => ([], input)

/-- The exponent at the front of the input, which may be missing, and what follows it. Its mark
has to be followed by a digit, or by a sign and a digit. -/
def scanExponent? : List Char → Option (List Char × List Char)
  | [] => some ([], [])
  | mark :: rest =>
      if mark = 'e' ∨ mark = 'E' then
        let (sign, power) := splitSign rest
        if leadingDigits power = [] then none
        else some (mark :: sign ++ leadingDigits power, afterDigits power)
      else some ([], mark :: rest)

/-- Whether digits may stand in front of the point: there are some, and no zero in front of
others. -/
def isWhole : List Char → Bool
  | [] => false
  | ['0'] => true
  | c :: _ => c != '0'

def scanUnsigned? (negative : Bool) (input : List Char) : Option (Token × List Char) :=
  let whole := leadingDigits input
  if isWhole whole then
    match scanFraction? (afterDigits input) with
    | none => none
    | some (fraction, rest) =>
        match scanExponent? rest with
        | none => none
        | some (exponent, rest) =>
            let value := Nat.ofDigitChars 10 whole 0
            if fraction = [] ∧ exponent = [] ∧ ¬(negative = true ∧ value = 0) then
              some (.integer (if negative then -(value : Int) else value), rest)
            else
              let sign := if negative then ['-'] else []
              some (.real (String.ofList (sign ++ whole ++ fraction ++ exponent)), rest)
  else none

/-!
# Scanning tokens
-/

def isBlank (c : Char) : Bool := c == ' ' || c == '\n' || c == '\r' || c == '\t'

def afterWord? : List Char → List Char → Option (List Char)
  | [], input => some input
  | c :: word, d :: input => if c = d then afterWord? word input else none
  | _ :: _, [] => none

def scanToken? : List Char → Option (Token × List Char)
  | [] => none
  | '[' :: rest => some (.openBracket, rest)
  | ']' :: rest => some (.closeBracket, rest)
  | '\x7b' :: rest => some (.openBrace, rest)
  | '\x7d' :: rest => some (.closeBrace, rest)
  | ',' :: rest => some (.comma, rest)
  | ':' :: rest => some (.colon, rest)
  | '"' :: rest =>
      (Quoted.scan rest).map fun (pieces, rest) => (.string (Quoted.join? pieces), rest)
  | 'n' :: rest => (afterWord? ['u', 'l', 'l'] rest).map fun rest => (.null, rest)
  | 't' :: rest => (afterWord? ['r', 'u', 'e'] rest).map fun rest => (.bool true, rest)
  | 'f' :: rest => (afterWord? ['a', 'l', 's', 'e'] rest).map fun rest => (.bool false, rest)
  | '-' :: rest => scanUnsigned? true rest
  | input => scanUnsigned? false input

/-!
# What a scanner leaves
-/

theorem length_afterDigits_le (input : List Char) :
    (afterDigits input).length ≤ input.length :=
  (List.dropWhile_suffix _).length_le

theorem length_afterDigits_lt {input : List Char} (h : leadingDigits input ≠ []) :
    (afterDigits input).length < input.length := by
  have parts : leadingDigits input ++ afterDigits input = input :=
    List.takeWhile_append_dropWhile
  have front := List.length_pos_iff.2 h
  have sum := congrArg List.length parts
  rw [List.length_append] at sum
  omega

theorem length_scanFraction? {input fraction rest : List Char}
    (h : scanFraction? input = some (fraction, rest)) : rest.length ≤ input.length := by
  unfold scanFraction? at h
  split at h
  · rename_i tail
    split at h
    · simp at h
    · simp only [Option.some.injEq, Prod.mk.injEq] at h
      have := length_afterDigits_le tail
      simp only [← h.2, List.length_cons]
      omega
  · simp only [Option.some.injEq, Prod.mk.injEq] at h
    simp [← h.2]

theorem length_splitSign_le (input : List Char) :
    (splitSign input).2.length ≤ input.length := by
  unfold splitSign
  split <;> simp

theorem length_scanExponent? {input exponent rest : List Char}
    (h : scanExponent? input = some (exponent, rest)) : rest.length ≤ input.length := by
  unfold scanExponent? at h
  split at h
  · simp only [Option.some.injEq, Prod.mk.injEq] at h
    simp [← h.2]
  · rename_i mark tail
    split at h
    · have signed := length_splitSign_le tail
      have power := length_afterDigits_le (splitSign tail).2
      simp only at h
      split at h
      · simp at h
      · simp only [Option.some.injEq, Prod.mk.injEq] at h
        simp only [← h.2, List.length_cons]
        omega
    · simp only [Option.some.injEq, Prod.mk.injEq] at h
      simp [← h.2]

theorem leadingDigits_ne_nil {input : List Char} (h : isWhole (leadingDigits input) = true) :
    leadingDigits input ≠ [] := by
  intro none
  simp [none, isWhole] at h

theorem length_scanUnsigned? {negative : Bool} {input rest : List Char} {token : Token}
    (h : scanUnsigned? negative input = some (token, rest)) : rest.length < input.length := by
  unfold scanUnsigned? at h
  simp only at h
  split at h
  · rename_i whole
    have behind := length_afterDigits_lt (leadingDigits_ne_nil whole)
    split at h
    · simp at h
    · rename_i fraction mid fractionRead
      have middle := length_scanFraction? fractionRead
      split at h
      · simp at h
      · rename_i exponent last exponentRead
        have final := length_scanExponent? exponentRead
        have same : last = rest := by
          split at h <;> simp_all
        subst same
        omega
  · simp at h

theorem length_afterWord? {word input rest : List Char}
    (h : afterWord? word input = some rest) : rest.length ≤ input.length := by
  fun_induction afterWord? word input with
  | case1 => simp_all
  | case2 => simp_all; omega
  | case3 => simp at h
  | case4 => simp at h

theorem length_scanToken? {input rest : List Char} {token : Token}
    (h : scanToken? input = some (token, rest)) : rest.length < input.length := by
  unfold scanToken? at h
  split at h
  · simp at h
  case h_8 tail =>
    simp only [Option.map_eq_some_iff, Prod.exists, Prod.mk.injEq] at h
    obtain ⟨pieces, tail', scanned, _, same⟩ := h
    have := Quoted.length_scanFrom scanned
    subst same
    simp only [List.length_cons]
    omega
  case h_9 tail =>
    simp only [Option.map_eq_some_iff, Prod.mk.injEq] at h
    obtain ⟨tail', found, _, same⟩ := h
    have := length_afterWord? found
    subst same
    simp only [List.length_cons]
    omega
  case h_10 tail =>
    simp only [Option.map_eq_some_iff, Prod.mk.injEq] at h
    obtain ⟨tail', found, _, same⟩ := h
    have := length_afterWord? found
    subst same
    simp only [List.length_cons]
    omega
  case h_11 tail =>
    simp only [Option.map_eq_some_iff, Prod.mk.injEq] at h
    obtain ⟨tail', found, _, same⟩ := h
    have := length_afterWord? found
    subst same
    simp only [List.length_cons]
    omega
  case h_12 tail =>
    have := length_scanUnsigned? h
    simp only [List.length_cons]
    omega
  case h_13 => exact length_scanUnsigned? h
  all_goals
    simp only [Option.some.injEq, Prod.mk.injEq] at h
    simp [← h.2]

/-!
# Lexing
-/

theorem length_after_lt {input after : List Char} {c : Char} {rest : List Char} {token : Token}
    (content : input.dropWhile isBlank = c :: rest)
    (scanned : scanToken? (c :: rest) = some (token, after)) : after.length < input.length := by
  have shorter := length_scanToken? scanned
  have blanks := (List.dropWhile_suffix (l := input) isBlank).length_le
  rw [content] at blanks
  omega

/-- The tokens of the input, put behind those in `before` (the last one first). -/
def lexFrom? (before : List Token) (input : List Char) : Option (List Token) :=
  match content : input.dropWhile isBlank with
  | [] => some before.reverse
  | c :: rest =>
      match scanned : scanToken? (c :: rest) with
      | none => none
      | some (token, after) =>
          have : after.length < input.length := length_after_lt content scanned
          lexFrom? (token :: before) after
termination_by input.length

def lex? (input : List Char) : Option (List Token) := lexFrom? [] input

end Json
end Disassembly
