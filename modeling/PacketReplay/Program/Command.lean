import PacketReplay.Decimal.Reading
import PacketReplay.Text.Blank

/-!
# Commands

A replay is driven by lines of one or two words. Only the first two words of a line are looked at; an index
is a numeral of at most 64 bits with an optional plus sign.
-/
namespace PacketReplay

open Text

inductive Command where
  | next
  | previous
  | jump (index : Nat)
  | time (t : Float)
  | play
  | pause
  | quit
  deriving DecidableEq, Repr

inductive CommandError where
  | badIndex (word : String)
  | badTime (word : String)
  | unknown (line : String)
  deriving DecidableEq, Repr

def CommandError.message : CommandError → String
  | badIndex word => "bad index: " ++ word
  | badTime word => "bad time: " ++ word
  | unknown line => "unknown command \x60" ++ line ++ "\x60 (n, p, j <index>, t <seconds>, play, pause, q)"

/-- An index with an optional plus sign. -/
def readIndex? : List Char → Option Nat
  | '+' :: digits => (word64? digits).map UInt64.toNat
  | digits => (word64? digits).map UInt64.toNat

/-- The first two words of a line. -/
def firstWords (line : List Char) : String × Option String :=
  match nextWord? line with
  | none => ("", none)
  | some (word, rest) => (String.ofList word, (nextWord? rest).map fun second => String.ofList second.1)

def Command.ofLine (line : List Char) : Except CommandError Command :=
  match firstWords line with
  | ("n", none) | ("next", none) => .ok .next
  | ("p", none) | ("prev", none) => .ok .previous
  | ("j", some index) | ("jump", some index) =>
    match readIndex? index.toList with
    | some index => .ok (.jump index)
    | none => .error (.badIndex index)
  | ("t", some t) | ("time", some t) =>
    match Decimal.readFloat? t.toList with
    | some t => .ok (.time t)
    | none => .error (.badTime t)
  | ("play", none) => .ok .play
  | ("pause", none) => .ok .pause
  | ("q", none) | ("quit", none) => .ok .quit
  | _ => .error (.unknown (String.ofList (trim line)))

end PacketReplay
