import PacketReplay.Json.Value
import PacketReplay.Text.Digit

/-!
# Writing JSON values

One writer with two layouts: on one line without blanks, or with a line for each item and field. Control
characters, quotes and backslashes are escaped, with the short escape where there is one.
-/
namespace PacketReplay.Json

/-- What stands in front of an item at a depth, and between a name and its value. -/
structure Layout where
  newLine : Nat → List Char
  afterName : List Char

def Layout.compact : Layout := ⟨fun _ => [], [':']⟩

/-- Two blanks a level. -/
def Layout.pretty : Layout := ⟨fun depth => '\n' :: List.replicate (2 * depth) ' ', [':', ' ']⟩

/-- A hexadecimal digit in lower case. -/
def hexDigit (value : Nat) : Char := if value < 10 then Char.ofNat (48 + value) else Char.ofNat (87 + value)

/-- The characters of a string that stand for one character. -/
def escapeChar (c : Char) : List Char :=
  match c with
  | '"' => ['\\', '"']
  | '\\' => ['\\', '\\']
  | '\x08' => ['\\', 'b']
  | '\x0c' => ['\\', 'f']
  | '\n' => ['\\', 'n']
  | '\r' => ['\\', 'r']
  | '\t' => ['\\', 't']
  | c =>
    if c < ' ' then ['\\', 'u', '0', '0', hexDigit (c.toNat / 16), hexDigit (c.toNat % 16)] else [c]

/-- The text of a string in quotes; a string without content is written as half of a surrogate pair. -/
def quote : Content → List Char
  | some content => '"' :: content.toList.flatMap escapeChar ++ ['"']
  | none => '"' :: "\\ud800".toList ++ ['"']

mutual

/-- The text of a value that stands at a depth. -/
def Value.write (layout : Layout) (depth : Nat) : Value → List Char
  | .null => "null".toList
  | .bool true => "true".toList
  | .bool false => "false".toList
  | .number numeral => numeral.text
  | .string content => quote content
  | .array [] => ['[', ']']
  | .array (first :: rest) =>
    '[' :: layout.newLine (depth + 1) ++ first.write layout (depth + 1) ++
      writeItems layout (depth + 1) rest ++ layout.newLine depth ++ [']']
  | .object [] => ['\x7b', '\x7d']
  | .object ((name, value) :: rest) =>
    '\x7b' :: layout.newLine (depth + 1) ++ quote name ++ layout.afterName ++
      value.write layout (depth + 1) ++ writeFields layout (depth + 1) rest ++ layout.newLine depth ++
      ['\x7d']

/-- The items of an array after the first. -/
def writeItems (layout : Layout) (depth : Nat) : List Value → List Char
  | [] => []
  | item :: rest =>
    ',' :: layout.newLine depth ++ item.write layout depth ++ writeItems layout depth rest

/-- The fields of an object after the first. -/
def writeFields (layout : Layout) (depth : Nat) : List (Content × Value) → List Char
  | [] => []
  | (name, value) :: rest =>
    ',' :: layout.newLine depth ++ quote name ++ layout.afterName ++ value.write layout depth ++
      writeFields layout depth rest

end

/-- The text on one line. -/
def Value.compact (value : Value) : String := String.ofList (value.write .compact 0)

/-- The text with a line for each item and field. -/
def Value.pretty (value : Value) : String := String.ofList (value.write .pretty 0)

end PacketReplay.Json
