/-!
# JSON values

A string literal that escapes half of a surrogate pair stands for no text. Such a string
is `none` here.
-/

namespace Disassembly

abbrev JsonString : Type := Option String

inductive Json where
  | null
  | bool (value : Bool)
  /-- A number written without fraction and exponent, negative zero excepted. -/
  | integer (value : Int)
  /-- Any other number, by its literal. -/
  | real (literal : String)
  | string (text : JsonString)
  | array (elements : List Json)
  | object (members : List (JsonString × Json))
deriving Inhabited

namespace Json

inductive Token where
  | openBracket
  | closeBracket
  | openBrace
  | closeBrace
  | comma
  | colon
  | null
  | bool (value : Bool)
  | integer (value : Int)
  | real (literal : String)
  | string (text : JsonString)
deriving DecidableEq, Repr

mutual

def tokens : Json → List Token
  | .null => [.null]
  | .bool value => [.bool value]
  | .integer value => [.integer value]
  | .real literal => [.real literal]
  | .string text => [.string text]
  | .array [] => [.openBracket, .closeBracket]
  | .array (first :: rest) => .openBracket :: first.tokens ++ elementTokens rest
  | .object [] => [.openBrace, .closeBrace]
  | .object ((key, first) :: rest) =>
      .openBrace :: .string key :: .colon :: first.tokens ++ memberTokens rest

def elementTokens : List Json → List Token
  | [] => [.closeBracket]
  | next :: rest => .comma :: next.tokens ++ elementTokens rest

def memberTokens : List (JsonString × Json) → List Token
  | [] => [.closeBrace]
  | (key, next) :: rest =>
      .comma :: .string key :: .colon :: next.tokens ++ memberTokens rest

end

end Json
end Disassembly
