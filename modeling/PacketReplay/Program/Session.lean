import PacketReplay.Player.Autoplay
import PacketReplay.Program.Command
import PacketReplay.Program.Outcome

/-!
# Replay sessions

The replay program prints every effect that its screen accepts, and carries out the commands of its input
line by line. Lines that start with a number sign are remarks. While playback goes on, only `pause` and
`quit` are heard; here the rest of the input arrives during the first wait of a playback.
-/
namespace PacketReplay

open Text (decimalText)

/-- A screen with the lines that have been printed, the last one first. -/
structure Console where
  screen : Screen
  printed : List String
  deriving DecidableEq, Repr

namespace Console

def new : Console := ⟨.empty, []⟩

def print (console : Console) (line : String) : Console :=
  { console with printed := line :: console.printed }

def lines (console : Console) : List String := console.printed.reverse

/-- What the screen accepts is printed. -/
instance : Host Console where
  receive console effect :=
    match console.screen.apply effect with
    | .ok screen => ⟨none, false, { console.print effect.text with screen }⟩
    | .error refusal => ⟨some refusal, false, console⟩

end Console

abbrev Session := Player Console

namespace Session

def start (settings : Settings) : Session :=
  ((Player.new .new).withScale settings.autoplayScale).withEpsilon settings.mergeEpsilon

def remark (session : Session) (text : String) : Session :=
  { session with host := session.host.print ("# " ++ text) }

/-- The session after an operation, with a remark on its error. -/
def settle {α : Type} (outcome : Except PlayerError α × Session) : Session :=
  match outcome with
  | (.ok _, session) => session
  | (.error error, session) => session.remark error.message

/-- Carry out a command while nothing is played. -/
def obey (session : Session) : Command → Session
  | .next => settle session.forward
  | .previous => settle session.backward
  | .jump index => settle (session.jump index)
  | .time t => settle (session.seek t)
  | .pause => session.remark "not playing"
  | .play | .quit => session

/-- What a line does during playback. -/
inductive Heard where
  | pause
  | quit
  | other
  deriving DecidableEq, Repr

def Heard.ofLine (line : List Char) : Heard :=
  match Command.ofLine line with
  | .ok .pause => .pause
  | .ok .quit => .quit
  | _ => .other

/-- Hear a line during playback: whether it ends the playback, and the session. -/
def hear (session : Session) (line : List Char) : Heard × Session :=
  match Heard.ofLine line with
  | .other => (.other, session.remark "playing; only \x60pause\x60 and \x60q\x60 are accepted")
  | heard => (heard, session)

/-- Hear the lines of an input during playback, up to one that is no text. -/
def hearAll (paused : Bool) (session : Session) : List Text.InputLine → Bool × Session
  | [] => (paused, session)
  | .error _ :: _ => (paused, session)
  | .ok line :: rest =>
    match session.hear line with
    | (heard, session) => hearAll (paused || decide (heard ≠ .other)) session rest

/-- The remark on the end of a playback. -/
def concludePlay (result : Except PlayerError Ending) (session : Session) : Session :=
  match result with
  | .ok ending => session.remark (ending.text ++ " at " ++ decimalText (session.index?.getD 0))
  | .error error => session.remark error.message

/-- Play with the rest of the input arriving during the first wait. -/
def play (session : Session) (rest : List Text.InputLine) : Session :=
  let (paused, session) := hearAll false session rest
  let run := Player.play .milliseconds session (if paused then [0] else [])
  concludePlay run.result run.player

/-- Whether there is something to play. -/
def canPlay (session : Session) : Bool :=
  match session.playhead with
  | none => false
  | some head => decide (head.index ≠ head.last)

/-- Carry out the lines of an input. A playback that waits uses up the input; one at the last frame is
over at once. A line that is no text ends the session. -/
def run (session : Session) : List Text.InputLine → Option Text.Utf8Fault × Session
  | [] => (none, session)
  | .error fault :: _ => (some fault, session)
  | .ok line :: rest =>
    if Text.allBlank line then run session rest
    else match Command.ofLine line with
      | .error error => run (session.remark error.message) rest
      | .ok .quit => (none, session)
      -- Playback reads the input to its end, so the session ends with it.
      | .ok .play =>
        if session.canPlay then (none, session.play rest) else run (session.play []) rest
      | .ok command => run (session.obey command) rest

end Session

/-- Load a timeline and say how long it is. -/
def Session.open (session : Session) (timeline : Timeline) : Except PlayerError Session :=
  match session.load timeline with
  | (.ok _, session) => .ok (remark session ("loaded " ++ decimalText timeline.size ++ " frames"))
  | (.error error, _) => .error error

/-- A session at the first frame of the capture. -/
def CaptureOptions.session (options : CaptureOptions) (contents : Contents) : Except Failure Session := do
  let settings ← options.settings contents
  let timeline ← contents.timeline settings
  ((Session.start settings).open timeline).mapError .player

/-- Replay the capture, driven by what is left of standard input. -/
def CaptureOptions.replay (options : CaptureOptions) (contents : Contents) : Outcome :=
  match options.session contents with
  | .error failure => ⟨.failed failure, "", none⟩
  | .ok session =>
    match session.run (Text.inputLines contents.input) with
    | (none, session) => ⟨.well, unlines session.host.lines, none⟩
    | (some fault, session) => ⟨.failed (.input fault), unlines session.host.lines, none⟩

/-- The replay program. -/
def replay (files : Files) (arguments : List String) (input : List UInt8) : Outcome :=
  .ofRequest (fun options : CaptureOptions => options.replay (options.contents files input))
    (CaptureOptions.ofArguments? arguments)

end PacketReplay
