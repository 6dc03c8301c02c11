import PacketReplay.Decimal.Numeral

/-!
# JSON values

A value keeps what its text says and interprets nothing: a number is its numeral, an object the list of its
fields with repeated names, and a string that escapes half of a surrogate pair has no content.
-/
namespace PacketReplay.Json

/-- The content of a string; `none` if an escape in it stands for half of a surrogate pair. -/
abbrev Content := Option String

inductive Value where
  | null
  | bool (value : Bool)
  | number (numeral : Decimal.Numeral)
  | string (content : Content)
  | array (items : List Value)
  | object (fields : List (Content × Value))
  deriving Repr

namespace Value

def text (content : String) : Value := .string (some content)
def nat (number : Nat) : Value := .number (.ofNat number)
def word (word : UInt64) : Value := .nat word.toNat

/-- A field with a readable name. -/
def field (name : String) (value : Value) : Content × Value := (some name, value)

end Value
end PacketReplay.Json
