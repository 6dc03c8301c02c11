import PacketReplay.Text.Lines
import PacketReplay.Capture.Line

/-!
# Captures

A capture is read line by line: a line carries an event or is skipped, and each requested key is looked
for on every line. Times are counted from the first event, which need not be the earliest; a sample may
lie before it.
-/
namespace PacketReplay

/-- The events of a text with their absolute times, and the number of lines without one. -/
structure Scan where
  events : List Event
  skipped : Nat
  deriving DecidableEq, Repr

def Scan.ofLines (lines : List (List Char)) : Scan where
  events := lines.filterMap Line.event?
  skipped := lines.countP fun line => (Line.event? line).isNone

def Scan.ofText (text : String) : Scan := Scan.ofLines (Text.lines text.toList)

/-- The samples of a key with their absolute times. -/
def samplesOf (text : String) (key : String) : List Sample :=
  (Text.lines text.toList).filterMap (Line.sample? key.toList)

/-- Every line carries an event or is skipped. -/
theorem Scan.length_events_add_skipped (lines : List (List Char)) :
    (Scan.ofLines lines).events.length + (Scan.ofLines lines).skipped = lines.length := by
  induction lines with
  | nil => rfl
  | cons line rest ih =>
    simp only [Scan.ofLines] at ih
    cases found : Line.event? line <;> simp [Scan.ofLines, found] <;> omega

theorem Scan.events_append (left right : List (List Char)) :
    (Scan.ofLines (left ++ right)).events = (Scan.ofLines left).events ++ (Scan.ofLines right).events := by
  simp [Scan.ofLines]

theorem Scan.skipped_append (left right : List (List Char)) :
    (Scan.ofLines (left ++ right)).skipped = (Scan.ofLines left).skipped + (Scan.ofLines right).skipped := by
  simp [Scan.ofLines]

inductive CaptureError where
  /-- No line of the text carries an event. -/
  | noEvents
  deriving DecidableEq, Repr

def CaptureError.message : CaptureError → String
  | noEvents => "no events parsed"

/-- A capture with times counted from its first event, which happened at `origin`. -/
structure Capture where
  events : List Event
  series : List Series
  origin : Float
  skipped : Nat
  deriving DecidableEq, Repr

/-- The series of a key with times counted from `origin`. -/
def seriesSince (text : String) (origin : Float) (key : String) : Series :=
  ⟨key, (samplesOf text key).map (Sample.since origin)⟩

/-- Read a text with the series of the given keys; a repeated key gives one series. -/
def Capture.ofText (text : String) (keys : List String) : Except CaptureError Capture :=
  match Scan.ofText text with
  | ⟨[], _⟩ => .error .noEvents
  | ⟨first :: rest, skipped⟩ => .ok {
      events := (first :: rest).map (Event.since first.t)
      series := keys.eraseDups.map (seriesSince text first.t)
      origin := first.t
      skipped }

theorem Capture.ofText_eq_error_iff (text : String) (keys : List String) (error : CaptureError) :
    Capture.ofText text keys = .error error ↔ (Scan.ofText text).events = [] := by
  unfold Capture.ofText
  split
  next found => simp [found]
  next found => simp [found]

end PacketReplay
