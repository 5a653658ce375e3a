import Disassembly.Proofs.Literals
import Mathlib.Data.List.Chain
import Mathlib.Data.List.TakeWhile

/-!
# Texts that spell a value

A text spells the tokens of a value if it writes each of them in one of the ways in
which it may be written, with blanks in front of it or none. The texts that are read as
a value are those that spell it, since no number of a value stands right behind another
one.
-/

namespace Disassembly
namespace Json

def leadingElements (elements : List Json) : List Token :=
  elements.flatMap fun element => element.tokens ++ [.comma]

def leadingMembers (members : List (JsonString × Json)) : List Token :=
  members.flatMap fun member => .string member.1 :: .colon :: member.2.tokens ++ [.comma]

def frameTokens : List Frame → List Token
  | [] => []
  | .array before :: frames =>
      frameTokens frames ++ .openBracket :: leadingElements before.reverse
  | .object before key :: frames =>
      frameTokens frames ++ .openBrace :: leadingMembers before.reverse ++ [.string key, .colon]

namespace ReaderState

/-- The tokens that lead to a state. -/
def taken : ReaderState → List Token
  | .atValue frames => frameTokens frames
  | .atFirstElement frames => frameTokens frames ++ [.openBracket]
  | .atFirstKey frames => frameTokens frames ++ [.openBrace]
  | .atKey before frames => frameTokens frames ++ .openBrace :: leadingMembers before.reverse
  | .atColon before key frames =>
      frameTokens frames ++ .openBrace :: leadingMembers before.reverse ++ [.string key]
  | .afterValue value frames => frameTokens frames ++ value.tokens

end ReaderState

def Token.isFixed : Token → Bool
  | .integer _ => false
  | .real _ => false
  | .string _ => false
  | _ => true

def Token.isNumber : Token → Bool
  | .integer _ => true
  | .real _ => true
  | _ => false

inductive Token.Spelled : Token → List Char → Prop
  | fixed {token : Token} (hfixed : token.isFixed = true) : Spelled token token.chars
  | number {n : NumberLiteral} (hliteral : n.WellFormed) : Spelled n.token n.chars
  | string {pieces : List Quoted.Piece} {chars : List Char}
      (hpieces : Quoted.SpelledPieces pieces chars) :
      Spelled (.string (Quoted.join? pieces)) ('"' :: (chars ++ ['"']))

/-- A natural number is spelled by digits alone that stand for it: there is no sign, no fraction
and no exponent. -/
theorem Token.spelled_natCast_iff {n : Nat} {chars : List Char} :
    Token.Spelled (.integer n) chars ↔ Whole chars ∧ Nat.ofDigitChars 10 chars 0 = n := by
  constructor
  · intro h
    generalize htoken : Token.integer n = token at h
    cases h with
    | fixed hfixed =>
        rw [← htoken] at hfixed
        cases hfixed
    | @number literal hliteral =>
        unfold NumberLiteral.token at htoken
        split at htoken
        · rename_i hinteger
          rcases hinteger with ⟨hfraction, hexponent, hzero⟩
          have hvalue := Token.integer.inj htoken
          cases hnegative : literal.negative with
          | true =>
              -- The sign leaves only zero, and zero with a sign is no integer.
              rw [hnegative, if_pos rfl] at hvalue
              exact absurd ⟨hnegative, by omega⟩ hzero
          | false =>
              rw [hnegative, if_neg Bool.false_ne_true] at hvalue
              simp only [NumberLiteral.chars, NumberLiteral.sign, NumberLiteral.unsigned,
                hnegative, hfraction, hexponent, List.append_nil, List.nil_append,
                Bool.false_eq_true, if_false]
              exact ⟨hliteral.whole, (Int.ofNat.inj hvalue).symm⟩
        · cases htoken
    | string _ => cases htoken
  · rintro ⟨hwhole, rfl⟩
    have hspelled := Spelled.number (n := ⟨false, chars, [], []⟩)
      ⟨hwhole, Fraction.none, Exponent.none⟩
    simpa [NumberLiteral.token, NumberLiteral.IsInteger, NumberLiteral.value, NumberLiteral.chars,
      NumberLiteral.sign, NumberLiteral.unsigned] using hspelled

def AreApart (tokens : List Token) : Prop :=
  tokens.IsChain fun token next => token.isNumber = true → next.isNumber = false

theorem areApart_cons {token : Token} {tokens : List Token} (hnumber : token.isNumber = false)
    (h : AreApart tokens) : AreApart (token :: tokens) := by
  refine List.isChain_cons.mpr ⟨fun next _ hnext => ?_, h⟩
  rw [hnumber] at hnext
  cases hnext

theorem areApart_append {front back : List Token} (hfront : AreApart front) (hback : AreApart back)
    (hhead : ∀ token ∈ back.head?, token.isNumber = false) : AreApart (front ++ back) :=
  List.isChain_append.mpr ⟨hfront, hback, fun _ _ next hnext _ => hhead next hnext⟩

theorem isNumber_head?_elementTokens (elements : List Json) :
    ∀ token ∈ (elementTokens elements).head?, token.isNumber = false := by
  cases elements <;> simp [elementTokens, Token.isNumber]

theorem isNumber_head?_memberTokens (members : List (JsonString × Json)) :
    ∀ token ∈ (memberTokens members).head?, token.isNumber = false := by
  cases members with
  | nil => simp [memberTokens, Token.isNumber]
  | cons member others =>
      cases member
      simp [memberTokens, Token.isNumber]

mutual

theorem areApart_tokens (value : Json) : AreApart value.tokens := by
  match value with
  | .null => simp [tokens, AreApart]
  | .bool _ => simp [tokens, AreApart]
  | .integer _ => simp [tokens, AreApart]
  | .real _ => simp [tokens, AreApart]
  | .string _ => simp [tokens, AreApart]
  | .array [] => simp [tokens, AreApart, Token.isNumber]
  | .array (first :: others) =>
      exact areApart_cons rfl (areApart_append (areApart_tokens first)
        (areApart_elementTokens others) (isNumber_head?_elementTokens others))
  | .object [] => simp [tokens, AreApart, Token.isNumber]
  | .object ((key, first) :: others) =>
      exact areApart_cons rfl (areApart_cons rfl (areApart_cons rfl (areApart_append
        (areApart_tokens first) (areApart_memberTokens others)
        (isNumber_head?_memberTokens others))))

theorem areApart_elementTokens (elements : List Json) : AreApart (elementTokens elements) := by
  match elements with
  | [] => simp [elementTokens, AreApart]
  | next :: others =>
      exact areApart_cons rfl (areApart_append (areApart_tokens next)
        (areApart_elementTokens others) (isNumber_head?_elementTokens others))

theorem areApart_memberTokens (members : List (JsonString × Json)) :
    AreApart (memberTokens members) := by
  match members with
  | [] => simp [memberTokens, AreApart]
  | (key, next) :: others =>
      exact areApart_cons rfl (areApart_cons rfl (areApart_cons rfl (areApart_append
        (areApart_tokens next) (areApart_memberTokens others)
        (isNumber_head?_memberTokens others))))

end

end Json
end Disassembly
