import PacketReplay.Timeline.Frame

/-!
# Aligning series with frames

A series is a step function: a frame gets the value of the last sample up to its time, within the
tolerance. A cursor walks over the samples, never back; a frame that even the sample under the cursor comes
after gets no value.
-/
namespace PacketReplay

/-- Move the cursor past every sample whose successor is not after `limit`. The cursor is a sample and the
samples after it. -/
def advance (limit : Float) (current : Sample) : List Sample → Sample × List Sample
  | [] => (current, [])
  | next :: later =>
    if next.t ≤ limit then advance limit next later else (current, next :: later)

/-- The frame with the value of the sample, unless the sample comes after it. -/
def Frame.align (frame : Frame) (key : String) (epsilon : Float) (sample : Sample) : Frame :=
  if sample.t ≤ frame.t + epsilon then frame.withMetric key sample.value else frame

/-- Align the frames after `done`, which is in reverse, with the cursor at `current`. -/
def alignFrom (key : String) (epsilon : Float) (done : List Frame) (current : Sample)
    (later : List Sample) : List Frame → List Frame
  | [] => done.reverse
  | frame :: rest =>
    match advance (frame.t + epsilon) current later with
    | (sample, later) => alignFrom key epsilon (frame.align key epsilon sample :: done) sample later rest

/-- The frames with the values of one series. -/
def alignOne (epsilon : Float) (frames : List Frame) (series : Series) : List Frame :=
  match series.samples with
  | [] => frames
  | first :: later => alignFrom series.key epsilon [] first later frames

/-- The frames with the values of several series, one after the other. -/
def alignAll (epsilon : Float) (frames : List Frame) (series : List Series) : List Frame :=
  series.foldl (alignOne epsilon) frames

theorem alignFrom_done (key : String) (epsilon : Float) (done : List Frame) (current : Sample)
    (later : List Sample) (frames : List Frame) :
    alignFrom key epsilon done current later frames =
      done.reverse ++ alignFrom key epsilon [] current later frames := by
  induction frames generalizing done current later with
  | nil => simp [alignFrom]
  | cons frame rest ih =>
    simp only [alignFrom]
    rw [ih (frame.align key epsilon _ :: done), ih [frame.align key epsilon _]]
    simp

@[simp] theorem length_alignFrom (key : String) (epsilon : Float) (done : List Frame) (current : Sample)
    (later : List Sample) (frames : List Frame) :
    (alignFrom key epsilon done current later frames).length = done.length + frames.length := by
  induction frames generalizing done current later with
  | nil => simp [alignFrom]
  | cons frame rest ih =>
    simp only [alignFrom, ih, List.length_cons]
    omega

@[simp] theorem length_alignOne (epsilon : Float) (frames : List Frame) (series : Series) :
    (alignOne epsilon frames series).length = frames.length := by
  unfold alignOne; split <;> simp

@[simp] theorem length_alignAll (epsilon : Float) (frames : List Frame) (series : List Series) :
    (alignAll epsilon frames series).length = frames.length := by
  induction series generalizing frames with
  | nil => rfl
  | cons first rest ih => simp only [alignAll, List.foldl_cons] at *; rw [ih]; simp

end PacketReplay
