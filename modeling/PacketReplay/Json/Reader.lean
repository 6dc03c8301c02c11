import PacketReplay.Json.Token

/-!
# Reading JSON values

The tokens of a text drive a machine with a stack of open containers, so that nesting is bounded by nothing.
A text is one value and nothing else.
-/
namespace PacketReplay.Json

/-- A container part way through: what is complete, in reverse, and the name that waits for a value. -/
inductive Open where
  | array (items : List Value)
  | object (fields : List (Content × Value)) (name : Content)
  deriving Repr

/-- What the machine waits for. -/
inductive State where
  | expectValue (stack : List Open)
  /-- After an opening bracket: a value or the closing bracket. -/
  | firstItem (stack : List Open)
  /-- After an opening brace: a name or the closing brace. -/
  | firstName (stack : List Open)
  | nextName (stack : List Open) (fields : List (Content × Value))
  | afterName (stack : List Open) (fields : List (Content × Value)) (name : Content)
  /-- A value is complete: a comma or a closing mark follows, or the end. -/
  | complete (stack : List Open) (value : Value)
  deriving Repr

/-- Read the first token of a value. -/
def beginValue (stack : List Open) : Token → Option State
  | .null => some (.complete stack .null)
  | .bool value => some (.complete stack (.bool value))
  | .number numeral => some (.complete stack (.number numeral))
  | .string content => some (.complete stack (.string content))
  | .openArray => some (.firstItem stack)
  | .openObject => some (.firstName stack)
  | _ => none

/-- Read the token after a complete value. -/
def endValue (value : Value) : List Open → Token → Option State
  | .array items :: stack, .comma => some (.expectValue (.array (value :: items) :: stack))
  | .array items :: stack, .closeArray => some (.complete stack (.array (value :: items).reverse))
  | .object fields name :: stack, .comma => some (.nextName stack ((name, value) :: fields))
  | .object fields name :: stack, .closeObject =>
    some (.complete stack (.object ((name, value) :: fields).reverse))
  | _, _ => none

def State.step : State → Token → Option State
  | .expectValue stack, token => beginValue stack token
  | .firstItem stack, .closeArray => some (.complete stack (.array []))
  | .firstItem stack, token => beginValue (.array [] :: stack) token
  | .firstName stack, .closeObject => some (.complete stack (.object []))
  | .firstName stack, .string name => some (.afterName stack [] name)
  | .nextName stack fields, .string name => some (.afterName stack fields name)
  | .afterName stack fields name, .colon => some (.expectValue (.object fields name :: stack))
  | .complete stack value, token => endValue value stack token
  | _, _ => none

/-- The value of a whole text. -/
def parse? (text : List Char) : Option Value := do
  match ← (← tokens? text).foldlM State.step (.expectValue []) with
  | .complete [] value => some value
  | _ => none

end PacketReplay.Json
