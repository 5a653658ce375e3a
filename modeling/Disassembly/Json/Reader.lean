import Disassembly.Json.Lexer

/-!
# Reading JSON values

The reader goes through the tokens once and keeps the containers that are still open, so
nesting of any depth is read without recursion on the input.
-/

namespace Disassembly
namespace Json

/-- A container that is still open, with what has been read of it, the last item first. -/
inductive Frame where
  | array (before : List Json)
  | object (before : List (JsonString × Json)) (key : JsonString)

inductive ReaderState where
  | atValue (frames : List Frame)
  | atFirstElement (frames : List Frame)
  | atFirstKey (frames : List Frame)
  | atKey (before : List (JsonString × Json)) (frames : List Frame)
  | atColon (before : List (JsonString × Json)) (key : JsonString) (frames : List Frame)
  | afterValue (value : Json) (frames : List Frame)

namespace ReaderState

def startValue (frames : List Frame) : Token → Option ReaderState
  | .null => some (.afterValue .null frames)
  | .bool value => some (.afterValue (.bool value) frames)
  | .integer value => some (.afterValue (.integer value) frames)
  | .real literal => some (.afterValue (.real literal) frames)
  | .string text => some (.afterValue (.string text) frames)
  | .openBracket => some (.atFirstElement frames)
  | .openBrace => some (.atFirstKey frames)
  | _ => none

def endValue (value : Json) : List Frame → Token → Option ReaderState
  | .array before :: frames, .comma => some (.atValue (.array (value :: before) :: frames))
  | .array before :: frames, .closeBracket =>
      some (.afterValue (.array (before.reverse ++ [value])) frames)
  | .object before key :: frames, .comma => some (.atKey ((key, value) :: before) frames)
  | .object before key :: frames, .closeBrace =>
      some (.afterValue (.object (before.reverse ++ [(key, value)])) frames)
  | _, _ => none

def step : ReaderState → Token → Option ReaderState
  | .atValue frames, token => startValue frames token
  | .atFirstElement frames, .closeBracket => some (.afterValue (.array []) frames)
  | .atFirstElement frames, token => startValue (.array [] :: frames) token
  | .atFirstKey frames, .closeBrace => some (.afterValue (.object []) frames)
  | .atFirstKey frames, .string key => some (.atColon [] key frames)
  | .atFirstKey _, _ => none
  | .atKey before frames, .string key => some (.atColon before key frames)
  | .atKey _ _, _ => none
  | .atColon before key frames, .colon => some (.atValue (.object before key :: frames))
  | .atColon _ _ _, _ => none
  | .afterValue value frames, token => endValue value frames token

end ReaderState

/-!
# Reading
-/

def ofTokens? (tokens : List Token) : Option Json :=
  match tokens.foldlM ReaderState.step (.atValue []) with
  | some (.afterValue value []) => some value
  | _ => none

def read? (text : String) : Option Json := (lex? text.toList).bind ofTokens?

/-!
# Reading the tokens of a value
-/

theorem step_firstElement_tokens (value : Json) (frames : List Frame) (rest : List Token) :
    (value.tokens ++ rest).foldlM ReaderState.step (.atFirstElement frames) =
      (value.tokens ++ rest).foldlM ReaderState.step (.atValue (.array [] :: frames)) := by
  cases value with
  | array elements =>
      cases elements <;> simp [tokens, ReaderState.step, ReaderState.startValue]
  | object members =>
      cases members with
      | nil => simp [tokens, ReaderState.step, ReaderState.startValue]
      | cons member others =>
          cases member
          simp [tokens, ReaderState.step, ReaderState.startValue]
  | _ => simp [tokens, ReaderState.step, ReaderState.startValue]

mutual

/-- The tokens of a value take the reader past that value. -/
theorem foldlM_step_tokens (value : Json) (frames : List Frame) (rest : List Token) :
    (value.tokens ++ rest).foldlM ReaderState.step (.atValue frames) =
      rest.foldlM ReaderState.step (.afterValue value frames) := by
  match value with
  | .null => simp [tokens, ReaderState.step, ReaderState.startValue]
  | .bool _ => simp [tokens, ReaderState.step, ReaderState.startValue]
  | .integer _ => simp [tokens, ReaderState.step, ReaderState.startValue]
  | .real _ => simp [tokens, ReaderState.step, ReaderState.startValue]
  | .string _ => simp [tokens, ReaderState.step, ReaderState.startValue]
  | .array [] => simp [tokens, ReaderState.step, ReaderState.startValue]
  | .array (first :: others) =>
      have start := step_firstElement_tokens first frames (elementTokens others ++ rest)
      have head := foldlM_step_tokens first (.array [] :: frames) (elementTokens others ++ rest)
      have tail := foldlM_step_elementTokens others first [] frames rest
      simp only [tokens, List.cons_append, List.append_assoc, List.foldlM_cons,
        ReaderState.step, ReaderState.startValue, Option.bind_eq_bind, Option.bind_some]
      rw [start, head, tail]
      simp
  | .object [] => simp [tokens, ReaderState.step, ReaderState.startValue]
  | .object ((key, first) :: others) =>
      have head := foldlM_step_tokens first (.object [] key :: frames)
        (memberTokens others ++ rest)
      have tail := foldlM_step_memberTokens others key first [] frames rest
      simp only [tokens, List.cons_append, List.append_assoc, List.foldlM_cons,
        ReaderState.step, ReaderState.startValue, Option.bind_eq_bind, Option.bind_some]
      rw [head, tail]
      simp

theorem foldlM_step_elementTokens (others : List Json) (last : Json) (before : List Json)
    (frames : List Frame) (rest : List Token) :
    (elementTokens others ++ rest).foldlM ReaderState.step
        (.afterValue last (.array before :: frames)) =
      rest.foldlM ReaderState.step
        (.afterValue (.array (before.reverse ++ last :: others)) frames) := by
  match others with
  | [] => simp [elementTokens, ReaderState.step, ReaderState.endValue]
  | next :: others =>
      have head := foldlM_step_tokens next (.array (last :: before) :: frames)
        (elementTokens others ++ rest)
      have tail := foldlM_step_elementTokens others next (last :: before) frames rest
      simp only [elementTokens, List.cons_append, List.append_assoc, List.foldlM_cons,
        ReaderState.step, ReaderState.endValue, Option.bind_eq_bind, Option.bind_some]
      rw [head, tail]
      simp

theorem foldlM_step_memberTokens (others : List (JsonString × Json)) (key : JsonString)
    (last : Json) (before : List (JsonString × Json)) (frames : List Frame)
    (rest : List Token) :
    (memberTokens others ++ rest).foldlM ReaderState.step
        (.afterValue last (.object before key :: frames)) =
      rest.foldlM ReaderState.step
        (.afterValue (.object (before.reverse ++ (key, last) :: others)) frames) := by
  match others with
  | [] => simp [memberTokens, ReaderState.step, ReaderState.endValue]
  | (nextKey, next) :: others =>
      have head := foldlM_step_tokens next (.object ((key, last) :: before) nextKey :: frames)
        (memberTokens others ++ rest)
      have tail := foldlM_step_memberTokens others nextKey next ((key, last) :: before) frames
        rest
      simp only [memberTokens, List.cons_append, List.append_assoc, List.foldlM_cons,
        ReaderState.step, ReaderState.endValue, Option.bind_eq_bind, Option.bind_some]
      rw [head, tail]
      simp

end

theorem ofTokens?_tokens (value : Json) : ofTokens? value.tokens = some value := by
  have read := foldlM_step_tokens value [] []
  simp only [List.append_nil] at read
  simp [ofTokens?, read]

end Json
end Disassembly
