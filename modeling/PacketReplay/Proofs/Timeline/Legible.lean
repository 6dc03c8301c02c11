import Mathlib.Data.List.Infix
import PacketReplay.Proofs.Capture.SampleGrammar
import PacketReplay.Proofs.Timeline.OfText

/-!
# What a capture puts into a timeline

The reasons of a timeline are tokens of its capture, and a key under which a frame has a value stands in a
line of it. So neither breaks a line in which it is shown. A capture with at least one event has a timeline.
-/
namespace PacketReplay

/-- The tokens of a frame are runs without blanks, and the keys of its values break no line. -/
structure Frame.Legible (frame : Frame) : Prop where
  tokens : ∀ action ∈ frame.actions, Line.IsToken action.reason.token.toList
  keys : ∀ entry ∈ frame.metrics.entries, '\n' ∉ entry.1.toList

def Timeline.Legible (timeline : Timeline) : Prop := ∀ frame ∈ timeline.frames, frame.Legible

/-! ### Lines -/

theorem Line.isToken_of_event? {line : List Char} {event : Event} (found : Line.event? line = some event) :
    Line.IsToken event.reason.token.toList := by
  have yields := (Line.yields_iff line _).mpr found
  cases yields with
  | event leftmost numbers =>
    rw [Reason.token_ofToken, String.toList_ofList]
    exact leftmost.fits.reason

/-- The key of a sample stands in its line. -/
theorem Line.infix_of_sample? {key line : List Char} {sample : Sample}
    (read : Line.sample? key line = some sample) : key <:+: line := by
  have yields := (Line.yieldsSample_iff key line _).mpr read
  cases yields with
  | sample found _ =>
    obtain ⟨before, behind, split, _⟩ := found.stands.hasWord
    exact ⟨before, ' ' :: behind, split.symm⟩

/-- A key with a sample breaks no line. -/
theorem lineFeed_notMem_of_samplesOf {text key : String} (samples : samplesOf text key ≠ []) :
    '\n' ∉ key.toList := by
  obtain ⟨sample, member⟩ := List.exists_mem_of_ne_nil _ samples
  obtain ⟨line, isLine, read⟩ := List.mem_filterMap.mp member
  intro inside
  exact Text.LineMarks.characters.lineFeed_notMem_of_mem_lines isLine
    ((Line.infix_of_sample? read).subset inside)

/-! ### Frames -/

theorem legible_groupEvents {epsilon : Float} {events : List Event} {frames : List Frame}
    (tokens : ∀ event ∈ events, Line.IsToken event.reason.token.toList)
    (grouped : groupEvents epsilon events = .ok frames) : ∀ frame ∈ frames, frame.Legible := by
  cases events with
  | nil => cases grouped
  | cons first rest =>
    cases grouped
    intro frame member
    constructor
    · intro action inFrame
      have inAll := List.mem_flatMap_of_mem member inFrame
      rw [flatMap_actions_groupFrom] at inAll
      have mapped : action ∈ (first :: rest).map Event.action := by simpa using inAll
      obtain ⟨event, isEvent, rfl⟩ := List.mem_map.mp mapped
      exact tokens event isEvent
    · have none : ∀ frame ∈ ([] : List Frame), frame.metrics = .empty := nofun
      rw [metrics_groupFrom none frame member]
      intro entry inEmpty
      cases inEmpty

theorem Frame.Legible.align {frame : Frame} (legible : frame.Legible) {key : String}
    (unbroken : '\n' ∉ key.toList) (epsilon : Float) (sample : Sample) :
    (frame.align key epsilon sample).Legible := by
  unfold Frame.align
  split
  · refine ⟨legible.tokens, ?_⟩
    intro entry member
    rcases OrderedMap.mem_alterEntries member with same | earlier
    · rw [same]
      exact unbroken
    · exact legible.keys entry earlier
  · exact legible

theorem legible_alignFrom {key : String} (unbroken : '\n' ∉ key.toList) {epsilon : Float}
    {done frames : List Frame} {current : Sample} {later : List Sample}
    (before : ∀ frame ∈ done, frame.Legible) (legible : ∀ frame ∈ frames, frame.Legible) :
    ∀ frame ∈ alignFrom key epsilon done current later frames, frame.Legible := by
  induction frames generalizing done current later with
  | nil => simpa [alignFrom] using before
  | cons frame rest ih =>
    apply ih
    · rw [List.forall_mem_cons]
      exact ⟨(legible frame List.mem_cons_self).align unbroken epsilon _, before⟩
    · exact fun other member => legible other (List.mem_cons_of_mem _ member)

theorem legible_alignAll {epsilon : Float} {frames : List Frame} {series : List Series}
    (legible : ∀ frame ∈ frames, frame.Legible)
    (keys : ∀ one ∈ series, one.samples ≠ [] → '\n' ∉ one.key.toList) :
    ∀ frame ∈ alignAll epsilon frames series, frame.Legible := by
  induction series generalizing frames with
  | nil => exact legible
  | cons one rest ih =>
    refine ih ?_ fun other member => keys other (List.mem_cons_of_mem _ member)
    unfold alignOne
    split
    · exact legible
    next first later samples =>
      have unbroken := keys one List.mem_cons_self (by rw [samples]; simp)
      exact legible_alignFrom unbroken (by simp) legible

/-! ### Timelines -/

theorem Capture.events_of_ofText {text : String} {keys : List String} {capture : Capture}
    (read : Capture.ofText text keys = .ok capture) :
    capture.events ≠ [] ∧
      (∀ event ∈ capture.events, Line.IsToken event.reason.token.toList) ∧
      ∀ one ∈ capture.series, one.samples ≠ [] → '\n' ∉ one.key.toList := by
  unfold Capture.ofText at read
  split at read
  · cases read
  next first rest skipped scanned =>
    have events : (Scan.ofText text).events = first :: rest := by rw [scanned]
    cases read
    refine ⟨by simp, ?_, ?_⟩
    · intro event member
      obtain ⟨absolute, inScan, rfl⟩ := List.mem_map.mp member
      rw [← events] at inScan
      obtain ⟨line, _, found⟩ := List.mem_filterMap.mp inScan
      exact (Line.isToken_of_event? found : Line.IsToken absolute.reason.token.toList)
    · intro one member samples
      obtain ⟨key, _, rfl⟩ := List.mem_map.mp member
      have found : samplesOf text key ≠ [] := by simpa [seriesSince] using samples
      exact lineFeed_notMem_of_samplesOf found

theorem Timeline.legible_ofText {settings : Settings} {text : String} {timeline : Timeline}
    (built : Timeline.ofText settings text = .ok timeline) : timeline.Legible := by
  obtain ⟨capture, read, made⟩ := Timeline.capture_of_ofText built
  obtain ⟨frames, grouped, aligned⟩ := Capture.frames_of_timeline made
  obtain ⟨_, tokens, keys⟩ := Capture.events_of_ofText read
  rw [Timeline.Legible, aligned]
  exact legible_alignAll (legible_groupEvents tokens grouped) keys

/-- A text in which an event is found has a timeline. -/
theorem Timeline.exists_ofText (settings : Settings) {text : String} (events : (Scan.ofText text).events ≠ []) :
    ∃ timeline, Timeline.ofText settings text = .ok timeline :=
  (Timeline.exists_ofText_iff settings text).mpr events

end PacketReplay
