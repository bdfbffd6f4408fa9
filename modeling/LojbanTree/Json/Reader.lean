import LojbanTree.Json.Token

/-!
Reading a JSON text.

The reader takes one token after the other and keeps the containers that are open on a stack. A
text is refused at the first token that does not fit, so an integer with too many digits is
reported only if all before it is in order. Of two fields with one key the later value counts, in
the place of the earlier.
-/

namespace LojbanTree.Json

/-- Why a text cannot be read. -/
inductive ReadError where
  | malformed
  | oversizedInteger (cause : Text.OversizedInteger)
  deriving DecidableEq, Repr

namespace Reader

/-- An open container around the value that is being read. -/
inductive Frame where
  /-- The items before the value, the last one first. -/
  | array (items : List Json)
  /-- The fields before the value, and its key. -/
  | object (fields : List (Text × Json)) (key : Text)
  deriving Repr

/-- What may come next; the frames go from the innermost container outwards. -/
inductive State where
  /-- A value. -/
  | value (stack : List Frame)
  /-- A value or the end of an array that has just been opened. -/
  | firstItem (stack : List Frame)
  /-- A key or the end of an object that has just been opened. -/
  | firstKey (stack : List Frame)
  /-- A key. -/
  | nextKey (fields : List (Text × Json)) (stack : List Frame)
  /-- The colon after a key. -/
  | colon (fields : List (Text × Json)) (key : Text) (stack : List Frame)
  /-- A comma or the end of the innermost container, after a value. -/
  | complete (value : Json) (stack : List Frame)
  deriving Repr

/-- A token where a value must come. -/
def beginValue (stack : List Frame) : Token → Except ReadError State
  | .scalar value => .ok (.complete value stack)
  | .str value => .ok (.complete (.str value) stack)
  | .openBracket => .ok (.firstItem stack)
  | .openBrace => .ok (.firstKey stack)
  | .oversized cause => .error (.oversizedInteger cause)
  | _ => .error .malformed

/-- A token after a value. -/
def afterValue (value : Json) : List Frame → Token → Except ReadError State
  | .array items :: stack, .comma => .ok (.value (.array (value :: items) :: stack))
  | .array items :: stack, .closeBracket => .ok (.complete (.arr (value :: items).reverse) stack)
  | .object fields key :: stack, .comma => .ok (.nextKey (putField fields key value) stack)
  | .object fields key :: stack, .closeBrace =>
    .ok (.complete (.obj (putField fields key value)) stack)
  | _, _ => .error .malformed

/-- One token. -/
def step : State → Token → Except ReadError State
  | .value stack, token => beginValue stack token
  | .firstItem stack, .closeBracket => .ok (.complete (.arr []) stack)
  | .firstItem stack, token => beginValue (.array [] :: stack) token
  | .firstKey stack, .closeBrace => .ok (.complete (.obj []) stack)
  | .firstKey stack, .str key => .ok (.colon [] key stack)
  | .nextKey fields stack, .str key => .ok (.colon fields key stack)
  | .colon fields key stack, .colon => .ok (.value (.object fields key :: stack))
  | .complete value stack, token => afterValue value stack token
  | _, _ => .error .malformed

/-- All tokens that are left. The text may end after one whole value. -/
def run : State → List Token → Except ReadError Json
  | .complete value [], [] => .ok value
  | _, [] => .error .malformed
  | state, token :: rest =>
    match step state token with
    | .ok next => run next rest
    | .error e => .error e

end Reader

/-- The value that a text stands for. -/
def read (text : Text) : Except ReadError Json :=
  Reader.run (.value []) (Token.scan text.toList)

end LojbanTree.Json
