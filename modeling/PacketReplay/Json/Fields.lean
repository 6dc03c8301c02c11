import PacketReplay.Decimal.Reading
import PacketReplay.Decimal.Style
import PacketReplay.Json.Value
import PacketReplay.OrderedMap

/-!
# Values as data

Readings of a JSON value as a number, a text, a list or a record. A record is an object with its fields in
any order, where unknown fields are passed over and a known field may occur once, or an array of its fields
in their order, where fields may be missing at the end.
-/
namespace PacketReplay.Json.Value

open Decimal

/-- The value of a floating-point number; what is not finite is written as null. -/
def float (value : Float) : Value :=
  match Style.json.numeral? value with
  | some numeral => .number numeral
  | none => .null

def float? : Value → Option Float
  | .number numeral => numeral.accumulated?
  | _ => none

/-- A number without sign, point and exponent that fits 64 bits. -/
def nat? : Value → Option Nat
  | .number ⟨false, whole, [], none⟩ => if whole ≤ maxWord then some whole else none
  | _ => none

def word64? (value : Value) : Option UInt64 := value.nat?.map UInt64.ofNat

def text? : Value → Option String
  | .string content => content
  | _ => none

/-- The items of an array, each read. -/
def listOf? {α : Type} (read : Value → Option α) : Value → Option (List α)
  | .array items => items.mapM read
  | _ => none

/-- An object as a map, where the last value of a repeated name counts. -/
def wordMap? : Value → Option (OrderedMap String UInt64)
  | .object fields =>
    (fields.mapM fun (field : Content × Value) => do
      return (← field.1, ← field.2.word64?)).map OrderedMap.ofList
  | _ => none

def wordMap (map : OrderedMap String UInt64) : Value :=
  .object (map.entries.map fun entry => field entry.1 (.word entry.2))

/-- The value of a field that occurs at most once; `some none` if it does not occur. -/
def field? (fields : List (Content × Value)) (name : String) : Option (Option Value) :=
  match fields.filter fun field => field.1 = some name with
  | [] => some none
  | [field] => some (some field.2)
  | _ => none

/-- The fields of a record with the given names, each with its value if it is there. -/
def record? (names : List String) : Value → Option (List (Option Value))
  | .object fields =>
    if fields.all fun field => field.1.isSome then names.mapM (field? fields) else none
  | .array items =>
    -- The first items are the first fields; no item is left over.
    if items.length ≤ names.length then
      some (items.map some ++ List.replicate (names.length - items.length) none)
    else none
  | _ => none

/-- Read a field that may be missing. -/
def orElse? {α : Type} (read : Value → Option α) (default : α) : Option Value → Option α
  | none => some default
  | some value => read value

end PacketReplay.Json.Value
