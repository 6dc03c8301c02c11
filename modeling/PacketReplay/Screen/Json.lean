import PacketReplay.Json.Fields
import PacketReplay.Json.Reader
import PacketReplay.Json.Writer
import PacketReplay.Screen.Effect

/-!
# Effects as JSON

An effect is an object with the field `kind` and the fields of that kind; the place of `kind` among them
does not matter. It may also be an array of the kind and the fields in order. Because the kind may come
last, everything has to be readable before the fields are looked at: numbers that are too large, strings
without content and deep nesting are refused even in fields that are passed over.
-/
namespace PacketReplay

open Json

namespace Json.Value

mutual

/-- Whether every number and every string in a value can be read, and no more than `depth` containers are
nested in it. -/
def isReadable (depth : Nat) : Value → Bool
  | .number numeral => numeral.accumulated?.isSome
  | .string content => content.isSome
  | .array items =>
    match depth with
    | 0 => false
    | inner + 1 => areReadable inner items
  | .object fields =>
    match depth with
    | 0 => false
    | inner + 1 => fieldsReadable inner fields
  | _ => true

def areReadable (depth : Nat) : List Value → Bool
  | [] => true
  | item :: rest => item.isReadable depth && areReadable depth rest

def fieldsReadable (depth : Nat) : List (Content × Value) → Bool
  | [] => true
  | (name, value) :: rest => name.isSome && value.isReadable depth && fieldsReadable depth rest

end

end Json.Value

/-- How many containers may be nested in the text of an effect. -/
def depthLimit : Nat := 127

/-- The word for the kind of an effect. -/
def Effect.kind : Effect → String
  | clear => "clear"
  | addMarker _ => "add_marker"
  | removeMarker _ => "remove_marker"
  | addFlag _ _ => "add_flag"
  | removeFlag _ _ => "remove_flag"
  | readout _ => "readout"

/-- The fields of an effect after its kind. -/
def Effect.fields : Effect → List (Content × Value)
  | clear => []
  | addMarker id | removeMarker id => [Value.field "id" (.word id)]
  | addFlag id reason | removeFlag id reason =>
    [Value.field "id" (.word id), Value.field "reason" (.text reason.token)]
  | readout shown => [Value.field "index" (.nat shown.index), Value.field "t" (.float shown.t),
      Value.field "metrics" (.wordMap shown.metrics)]

def Effect.toJson (effect : Effect) : Value :=
  .object (Value.field "kind" (.text effect.kind) :: effect.fields)

def idOfJson? (value : Value) : Option UInt64 := do
  match ← value.record? ["id"] with
  | [some id] => id.word64?
  | _ => none

def flagOfJson? (value : Value) : Option (UInt64 × Reason) := do
  match ← value.record? ["id", "reason"] with
  | [some id, some reason] => return (← id.word64?, Reason.ofToken (← reason.text?))
  | _ => none

def Readout.ofJson? (value : Value) : Option Readout := do
  match ← value.record? ["index", "t", "metrics"] with
  | [some index, some t, metrics] =>
    return ⟨← index.nat?, ← t.float?, ← Value.orElse? Value.wordMap? .empty metrics⟩
  | _ => none

/-- The effect of a kind from the record of its fields. Clearing has none: an object may have any others,
an array has nothing left. -/
def Effect.ofKind? (kind : String) (fields : Value) : Option Effect :=
  match kind with
  | "clear" => match fields with
    | .array (_ :: _) => none
    | _ => some .clear
  | "add_marker" => (idOfJson? fields).map .addMarker
  | "remove_marker" => (idOfJson? fields).map .removeMarker
  | "add_flag" => (flagOfJson? fields).map fun (id, reason) => .addFlag id reason
  | "remove_flag" => (flagOfJson? fields).map fun (id, reason) => .removeFlag id reason
  | "readout" => (Readout.ofJson? fields).map .readout
  | _ => none

def Effect.ofJson? (value : Value) : Option Effect :=
  if value.isReadable depthLimit then
    match value with
    | .object fields => do
      -- The field of the kind stays among the others, where no kind looks at it.
      let kind ← (← Value.field? fields "kind") >>= Value.text?
      Effect.ofKind? kind (.object fields)
    | .array (kind :: fields) => do Effect.ofKind? (← kind.text?) (.array fields)
    | _ => none
  else none

/-- The effect of a JSON text. -/
def Effect.parse? (text : String) : Option Effect := do
  Effect.ofJson? (← Json.parse? text.toList)

end PacketReplay
