import Disassembly.Json.Reader

/-!
# Reading what was written

What `render` writes, `read?` reads as the same value. A number ends where something
other than a digit, a point or an exponent follows, and in the text of a value each
number is followed by a comma, a colon or a closing bracket. Numbers that are kept as
their literals may spell anything, and are left out.
-/

namespace Disassembly
namespace Json

/-!
# Digits
-/

theorem isWhole_toDigits (n : Nat) : isWhole (Nat.toDigits 10 n) = true := by
  induction n using Nat.strongRecOn with
  | ind n ih =>
      rw [Nat.toDigits_eq_if (by decide)]
      by_cases small : n < 10
      · have all : ∀ d < 10, isWhole [d.digitChar] = true := by decide
        simp [small, all n small]
      · have front := ih (n / 10) (by omega)
        simp only [small, if_false]
        cases digits : Nat.toDigits 10 (n / 10) with
        | nil => exact absurd digits Nat.toDigits_ne_nil
        | cons c rest =>
            have nonzero : c ≠ '0' := by
              intro zero
              subst zero
              rw [digits] at front
              cases rest with
              | nil =>
                  have value := Nat.ofDigitChars_ten_toDigits (n := n / 10)
                  rw [digits] at value
                  simp only [Nat.ofDigitChars_cons, Nat.ofDigitChars_nil] at value
                  have none : '0'.toNat - '0'.toNat = 0 := by decide
                  omega
              | cons d tail => simp [isWhole] at front
            simp [isWhole, nonzero]

def isDelimited : List Char → Bool
  | [] => true
  | c :: _ => c == ',' || c == ':' || c == ']' || c == '\x7d'

theorem isDelimited_cons {c : Char} {rest : List Char} (h : isDelimited (c :: rest) = true) :
    c.isDigit = false ∧ c ≠ '.' ∧ c ≠ 'e' ∧ c ≠ 'E' := by
  simp only [isDelimited, Bool.or_eq_true, beq_iff_eq] at h
  rcases h with ((h | h) | h) | h <;> subst h <;> decide

theorem isDigit_head?_of_isDelimited {rest : List Char} (h : isDelimited rest = true) :
    ∀ c ∈ rest.head?, c.isDigit = false := by
  cases rest with
  | nil => simp
  | cons c tail => simp [(isDelimited_cons h).1]

theorem leadingDigits_append {digits rest : List Char} (all : ∀ c ∈ digits, c.isDigit = true)
    (apart : ∀ c ∈ rest.head?, c.isDigit = false) : leadingDigits (digits ++ rest) = digits := by
  rw [leadingDigits, List.takeWhile_append_of_pos all]
  cases rest with
  | nil => simp
  | cons c tail => simp [apart c rfl]

theorem afterDigits_append {digits rest : List Char} (all : ∀ c ∈ digits, c.isDigit = true)
    (apart : ∀ c ∈ rest.head?, c.isDigit = false) : afterDigits (digits ++ rest) = rest := by
  rw [afterDigits, List.dropWhile_append_of_pos all]
  cases rest with
  | nil => simp
  | cons c tail => simp [apart c rfl]

theorem scanFraction?_of_isDelimited {rest : List Char} (delimited : isDelimited rest = true) :
    scanFraction? rest = some ([], rest) := by
  unfold scanFraction?
  split
  · exact absurd rfl (isDelimited_cons delimited).2.1
  · rfl

theorem scanExponent?_of_isDelimited {rest : List Char} (delimited : isDelimited rest = true) :
    scanExponent? rest = some ([], rest) := by
  unfold scanExponent?
  split
  · rfl
  · simp [(isDelimited_cons delimited).2.2]

theorem scanUnsigned?_toDigits (negative : Bool) (n : Nat) {rest : List Char}
    (sign : ¬(negative = true ∧ n = 0)) (delimited : isDelimited rest = true) :
    scanUnsigned? negative (Nat.toDigits 10 n ++ rest) =
      some (.integer (if negative then -(n : Int) else n), rest) := by
  have all : ∀ c ∈ Nat.toDigits 10 n, c.isDigit = true := fun c held =>
    Nat.isDigit_of_mem_toDigits (by decide) (by decide) held
  have apart := isDigit_head?_of_isDelimited delimited
  simp only [scanUnsigned?, leadingDigits_append all apart, afterDigits_append all apart,
    isWhole_toDigits, scanFraction?_of_isDelimited delimited,
    scanExponent?_of_isDelimited delimited, Nat.ofDigitChars_ten_toDigits, if_true]
  simp [sign]

/-!
# Tokens
-/

theorem scanToken?_of_isDigit {c : Char} (h : c.isDigit = true) (rest : List Char) :
    scanToken? (c :: rest) = scanUnsigned? false (c :: rest) := by
  unfold scanToken?
  split
  case h_1 same => exact absurd same (List.cons_ne_nil c rest)
  case h_13 => rfl
  all_goals
    rename_i same
    rw [(List.cons.inj same).1] at h
    exact absurd h (by decide)

def Token.isReal : Token → Bool
  | .real _ => true
  | _ => false

/-- Whether the characters after a token cannot be taken for a part of it. -/
def Token.isSetOff (rest : List Char) : Token → Bool
  | .integer _ => isDelimited rest
  | .real _ => false
  | _ => true

theorem scanToken?_chars {token : Token} {rest : List Char}
    (setOff : token.isSetOff rest = true) :
    scanToken? (token.chars ++ rest) = some (token, rest) := by
  cases token with
  | openBracket => simp [Token.chars, scanToken?]
  | closeBracket => simp [Token.chars, scanToken?]
  | openBrace => simp [Token.chars, scanToken?]
  | closeBrace => simp [Token.chars, scanToken?]
  | comma => simp [Token.chars, scanToken?]
  | colon => simp [Token.chars, scanToken?]
  | null => simp [Token.chars, scanToken?, afterWord?]
  | bool value => cases value <;> simp [Token.chars, scanToken?, afterWord?]
  | integer value =>
      have delimited : isDelimited rest = true := setOff
      cases value with
      | ofNat n =>
          have scanned := scanUnsigned?_toDigits false n (by simp) delimited
          simp only [Token.chars]
          cases digits : Nat.toDigits 10 n with
          | nil => exact absurd digits Nat.toDigits_ne_nil
          | cons c tail =>
              have digit : c.isDigit = true :=
                Nat.isDigit_of_mem_toDigits (b := 10) (n := n) (by decide) (by decide)
                  (by simp [digits])
              rw [digits] at scanned
              rw [List.cons_append, scanToken?_of_isDigit digit, ← List.cons_append, scanned]
              simp
      | negSucc n =>
          have scanned := scanUnsigned?_toDigits true (n + 1) (by simp) delimited
          simp only [Token.chars, List.cons_append, scanToken?, scanned]
          simp [Int.negSucc_eq]
  | real literal => exact absurd setOff Bool.false_ne_true
  | string text =>
      cases text with
      | none =>
          simp [Token.chars, Quoted.quote, Quoted.unpaired, scanToken?, Quoted.scan,
            Quoted.scanFrom, Quoted.join?, Quoted.joinFrom?, Quoted.isHighSurrogate,
            Numeral.ofHex?, Numeral.hexFrom?, Numeral.hexValue?]
      | some s =>
          simp only [Token.chars, Quoted.quote, List.cons_append, List.append_assoc,
            List.nil_append, scanToken?, Quoted.scan_body, Option.map_some, Quoted.join?_pieces]

theorem scanToken?_of_isBlank {c : Char} (h : isBlank c = true) (rest : List Char) :
    scanToken? (c :: rest) = none := by
  simp only [isBlank, Bool.or_eq_true, beq_iff_eq] at h
  rcases h with ((h | h) | h) | h <;> subst h <;>
    simp [scanToken?, scanUnsigned?, leadingDigits, isWhole]

/-!
# Texts
-/

theorem dropWhile_isBlank_of_scanToken? {input rest : List Char} {token : Token}
    (scanned : scanToken? input = some (token, rest)) : input.dropWhile isBlank = input := by
  cases input with
  | nil => rfl
  | cons c tail =>
      cases blank : isBlank c with
      | false => simp [blank]
      | true =>
          rw [scanToken?_of_isBlank blank] at scanned
          exact absurd scanned (by simp)

theorem lexFrom?_of_scanToken? {input rest : List Char} {token : Token}
    (scanned : scanToken? (input.dropWhile isBlank) = some (token, rest)) (before : List Token) :
    lexFrom? before input = lexFrom? (token :: before) rest := by
  rw [lexFrom?]
  split
  · rename_i none
    rw [none] at scanned
    exact absurd scanned (by simp [scanToken?])
  · rename_i c tail content
    rw [content] at scanned
    split
    · rename_i failed
      rw [scanned] at failed
      exact absurd failed (by simp)
    · rename_i read after succeeded
      rw [scanned] at succeeded
      simp only [Option.some.injEq, Prod.mk.injEq] at succeeded
      rw [succeeded.1, succeeded.2]

theorem lexFrom?_chars {token : Token} {rest : List Char}
    (setOff : token.isSetOff rest = true) (before : List Token) :
    lexFrom? before (token.chars ++ rest) = lexFrom? (token :: before) rest := by
  have scanned := scanToken?_chars setOff
  apply lexFrom?_of_scanToken?
  rw [dropWhile_isBlank_of_scanToken? scanned, scanned]

@[simp] theorem lexFrom?_openBracket (before : List Token) (rest : List Char) :
    lexFrom? before (Token.openBracket.chars ++ rest) = lexFrom? (.openBracket :: before) rest :=
  lexFrom?_chars rfl before

@[simp] theorem lexFrom?_closeBracket (before : List Token) (rest : List Char) :
    lexFrom? before (Token.closeBracket.chars ++ rest) = lexFrom? (.closeBracket :: before) rest :=
  lexFrom?_chars rfl before

@[simp] theorem lexFrom?_openBrace (before : List Token) (rest : List Char) :
    lexFrom? before (Token.openBrace.chars ++ rest) = lexFrom? (.openBrace :: before) rest :=
  lexFrom?_chars rfl before

@[simp] theorem lexFrom?_closeBrace (before : List Token) (rest : List Char) :
    lexFrom? before (Token.closeBrace.chars ++ rest) = lexFrom? (.closeBrace :: before) rest :=
  lexFrom?_chars rfl before

@[simp] theorem lexFrom?_comma (before : List Token) (rest : List Char) :
    lexFrom? before (Token.comma.chars ++ rest) = lexFrom? (.comma :: before) rest :=
  lexFrom?_chars rfl before

@[simp] theorem lexFrom?_colon (before : List Token) (rest : List Char) :
    lexFrom? before (Token.colon.chars ++ rest) = lexFrom? (.colon :: before) rest :=
  lexFrom?_chars rfl before

@[simp] theorem lexFrom?_null (before : List Token) (rest : List Char) :
    lexFrom? before (Token.null.chars ++ rest) = lexFrom? (.null :: before) rest :=
  lexFrom?_chars rfl before

@[simp] theorem lexFrom?_bool (value : Bool) (before : List Token) (rest : List Char) :
    lexFrom? before ((Token.bool value).chars ++ rest) = lexFrom? (.bool value :: before) rest :=
  lexFrom?_chars rfl before

@[simp] theorem lexFrom?_string (text : JsonString) (before : List Token) (rest : List Char) :
    lexFrom? before ((Token.string text).chars ++ rest) = lexFrom? (.string text :: before) rest :=
  lexFrom?_chars rfl before

theorem lexFrom?_integer (value : Int) (before : List Token) {rest : List Char}
    (delimited : isDelimited rest = true) :
    lexFrom? before ((Token.integer value).chars ++ rest) =
      lexFrom? (.integer value :: before) rest := by
  have setOff : (Token.integer value).isSetOff rest = true := delimited
  exact lexFrom?_chars setOff before

def isExact (tokens : List Token) : Bool := tokens.all fun token => !token.isReal

theorem isExact_cons {token : Token} {tokens : List Token}
    (h : isExact (token :: tokens) = true) :
    token.isReal = false ∧ isExact tokens = true := by
  simpa [isExact] using h

theorem isExact_append {front back : List Token} (h : isExact (front ++ back) = true) :
    isExact front = true ∧ isExact back = true := by
  rw [isExact, List.all_append, Bool.and_eq_true] at h
  exact h

def spell (tokens : List Token) : List Char := tokens.flatMap Token.chars

@[simp] theorem spell_nil : spell [] = [] := rfl

@[simp] theorem spell_cons (token : Token) (tokens : List Token) :
    spell (token :: tokens) = token.chars ++ spell tokens := by
  simp [spell]

@[simp] theorem spell_append (front back : List Token) :
    spell (front ++ back) = spell front ++ spell back := by
  simp [spell]

theorem isDelimited_elementTokens (others : List Json) (rest : List Char) :
    isDelimited (spell (elementTokens others) ++ rest) = true := by
  cases others <;> simp [elementTokens, Token.chars, isDelimited]

theorem isDelimited_memberTokens (others : List (JsonString × Json)) (rest : List Char) :
    isDelimited (spell (memberTokens others) ++ rest) = true := by
  cases others with
  | nil => simp [memberTokens, Token.chars, isDelimited]
  | cons member others =>
      cases member
      simp [memberTokens, Token.chars, isDelimited]

mutual

/-- The text of a value is taken apart into the tokens of the value. -/
theorem lexFrom?_spell_tokens (value : Json) (kept : isExact value.tokens = true)
    (before : List Token) (rest : List Char) (delimited : isDelimited rest = true) :
    lexFrom? before (spell value.tokens ++ rest) =
      lexFrom? (value.tokens.reverse ++ before) rest := by
  match value with
  | .null => simp [tokens]
  | .bool _ => simp [tokens]
  | .integer _ => simp [tokens, lexFrom?_integer, delimited]
  | .real _ => simp [tokens, isExact, Token.isReal] at kept
  | .string _ => simp [tokens]
  | .array [] => simp [tokens]
  | .array (first :: others) =>
      have parts := isExact_append (isExact_cons (by simpa [tokens] using kept)).2
      have head := lexFrom?_spell_tokens first parts.1 (.openBracket :: before)
        (spell (elementTokens others) ++ rest) (isDelimited_elementTokens others rest)
      have tail := lexFrom?_spell_elementTokens others parts.2
        (first.tokens.reverse ++ .openBracket :: before) rest delimited
      simp [tokens, head, tail]
  | .object [] => simp [tokens]
  | .object ((key, first) :: others) =>
      have parts := isExact_append
        (isExact_cons (isExact_cons (isExact_cons (by simpa [tokens] using kept)).2).2).2
      have head := lexFrom?_spell_tokens first parts.1
        (.colon :: .string key :: .openBrace :: before)
        (spell (memberTokens others) ++ rest) (isDelimited_memberTokens others rest)
      have tail := lexFrom?_spell_memberTokens others parts.2
        (first.tokens.reverse ++ .colon :: .string key :: .openBrace :: before) rest delimited
      simp [tokens, head, tail]

theorem lexFrom?_spell_elementTokens (others : List Json)
    (kept : isExact (elementTokens others) = true) (before : List Token) (rest : List Char)
    (delimited : isDelimited rest = true) :
    lexFrom? before (spell (elementTokens others) ++ rest) =
      lexFrom? ((elementTokens others).reverse ++ before) rest := by
  match others with
  | [] => simp [elementTokens]
  | next :: others =>
      have parts := isExact_append (isExact_cons (by simpa [elementTokens] using kept)).2
      have head := lexFrom?_spell_tokens next parts.1 (.comma :: before)
        (spell (elementTokens others) ++ rest) (isDelimited_elementTokens others rest)
      have tail := lexFrom?_spell_elementTokens others parts.2
        (next.tokens.reverse ++ .comma :: before) rest delimited
      simp [elementTokens, head, tail]

theorem lexFrom?_spell_memberTokens (others : List (JsonString × Json))
    (kept : isExact (memberTokens others) = true) (before : List Token) (rest : List Char)
    (delimited : isDelimited rest = true) :
    lexFrom? before (spell (memberTokens others) ++ rest) =
      lexFrom? ((memberTokens others).reverse ++ before) rest := by
  match others with
  | [] => simp [memberTokens]
  | (key, next) :: others =>
      have parts := isExact_append
        (isExact_cons (isExact_cons (isExact_cons (by simpa [memberTokens] using kept)).2).2).2
      have head := lexFrom?_spell_tokens next parts.1 (.colon :: .string key :: .comma :: before)
        (spell (memberTokens others) ++ rest) (isDelimited_memberTokens others rest)
      have tail := lexFrom?_spell_memberTokens others parts.2
        (next.tokens.reverse ++ .colon :: .string key :: .comma :: before) rest delimited
      simp [memberTokens, head, tail]

end

theorem lex?_spell_tokens (value : Json) (kept : isExact value.tokens = true) :
    lex? (spell value.tokens) = some value.tokens := by
  have taken := lexFrom?_spell_tokens value kept [] [] rfl
  rw [List.append_nil] at taken
  rw [lex?, taken, lexFrom?]
  simp

theorem read?_render (value : Json) (kept : isExact value.tokens = true) :
    read? value.render = some value := by
  have taken := lex?_spell_tokens value kept
  simp only [spell] at taken
  simp [read?, render, taken, ofTokens?_tokens]

end Json
end Disassembly
