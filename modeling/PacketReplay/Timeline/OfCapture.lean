import PacketReplay.Settings.Basic
import PacketReplay.Timeline.Alignment
import PacketReplay.Timeline.Basic
import PacketReplay.Timeline.Grouping

/-!
# From a capture to a timeline

The events of a capture are grouped into frames, and then each series is aligned with them.
-/
namespace PacketReplay

def Capture.timeline (capture : Capture) (epsilon : Float) : Except CaptureError Timeline := do
  let frames ← groupEvents epsilon capture.events
  Timeline.ofFrames (alignAll epsilon frames capture.series) (capture.series.map Series.key)

/-- The timeline of a text under the given settings. -/
def Timeline.ofText (settings : Settings) (text : String) : Except CaptureError Timeline := do
  (← Capture.ofText text settings.seriesKeys).timeline settings.mergeEpsilon

theorem Capture.frames_of_timeline {capture : Capture} {epsilon : Float} {timeline : Timeline}
    (built : capture.timeline epsilon = .ok timeline) :
    ∃ frames, groupEvents epsilon capture.events = .ok frames ∧
      timeline.frames = alignAll epsilon frames capture.series := by
  unfold Capture.timeline at built
  cases grouped : groupEvents epsilon capture.events with
  | error error =>
    rw [grouped] at built
    cases built
  | ok frames =>
    simp only [grouped, bind, Except.bind, Timeline.ofFrames] at built
    split at built
    · cases built
    · cases built
      exact ⟨frames, rfl, rfl⟩

theorem Timeline.capture_of_ofText {settings : Settings} {text : String} {timeline : Timeline}
    (built : Timeline.ofText settings text = .ok timeline) :
    ∃ capture, Capture.ofText text settings.seriesKeys = .ok capture ∧
      capture.timeline settings.mergeEpsilon = .ok timeline := by
  unfold Timeline.ofText at built
  cases read : Capture.ofText text settings.seriesKeys with
  | error error =>
    rw [read] at built
    cases built
  | ok capture =>
    rw [read] at built
    exact ⟨capture, rfl, built⟩

end PacketReplay
