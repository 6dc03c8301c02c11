import PacketReplay.Directory
import PacketReplay.Proofs.Program.Transcript
import PacketReplay.Proofs.Settings.Validity

/-!
# What a session prints

A session stands at a frame of its timeline: its screen is the canonical one of the frame, and what its console
has printed is a record of effects that lead to that screen. Every command leads from one such session to
another, and the index of its frame is that of the walk over indices.
-/
namespace PacketReplay

open Text

/-! ### Messages -/

theorem lineFeed_notMem_append {front back : String} (noneInFront : '\n' ∉ front.toList)
    (noneBehind : '\n' ∉ back.toList) : '\n' ∉ (front ++ back).toList := by
  rw [String.toList_append, List.mem_append, not_or]
  exact ⟨noneInFront, noneBehind⟩

theorem lineFeed_notMem_decimalText (number : Nat) : '\n' ∉ (decimalText number).toList := by
  rw [decimalText, String.toList_ofList]
  exact notMem_decimal rfl number

theorem PlayerError.lineFeed_notMem_outOfRange (requested : Int) (last : Nat) :
    '\n' ∉ (PlayerError.outOfRange requested last).message.toList := by
  have integer : '\n' ∉ (integerText requested).toList := by
    unfold integerText
    split <;> simp [lineFeed_notMem_decimalText]
  simp [message, integer, lineFeed_notMem_decimalText]

theorem subset_of_nextWord? {line word rest : List Char} (next : nextWord? line = some (word, rest)) :
    word ⊆ line ∧ rest ⊆ line := by
  unfold nextWord? at next
  split at next
  · cases next
  · cases next
    exact ⟨List.Subset.trans (List.takeWhile_subset _) (List.dropWhile_subset _),
      List.Subset.trans (List.dropWhile_subset _) (List.dropWhile_subset _)⟩

theorem subset_of_firstWords {line : List Char} {word second : String}
    (first : firstWords line = (word, some second)) : second.toList ⊆ line := by
  unfold firstWords at first
  split at first
  · cases first
  next word rest next =>
    cases other : nextWord? rest with
    | none => simp [other] at first
    | some found =>
      simp only [other, Option.map_some, Prod.mk.injEq, Option.some.injEq] at first
      rw [← first.2, String.toList_ofList]
      exact List.Subset.trans (subset_of_nextWord? other).1 (subset_of_nextWord? next).2

theorem trim_subset (line : List Char) : trim line ⊆ line := by
  intro c member
  have inFront := List.dropWhile_subset _ (List.mem_reverse.mp member)
  exact List.dropWhile_subset _ (List.mem_reverse.mp inFront)

/-- Why a line is no command: its second word is no value, or nothing fits. -/
theorem Command.error_of_ofLine {line : List Char} {error : CommandError}
    (read : Command.ofLine line = .error error) :
    (∃ word second, firstWords line = (word, some second) ∧
      (error = .badIndex second ∨ error = .badTime second)) ∨
    error = .unknown (String.ofList (trim line)) := by
  unfold Command.ofLine at read
  split at read
  -- Only an index or a time can be bad; lines of all other commands are read, and the rest is unknown.
  case h_5 words | h_6 words =>
    split at read
    · cases read
    · cases read
      exact .inl ⟨_, _, words, .inl rfl⟩
  case h_7 words | h_8 words =>
    split at read
    · cases read
    · cases read
      exact .inl ⟨_, _, words, .inr rfl⟩
  case h_13 =>
    cases read
    exact .inr rfl
  all_goals cases read

/-- The message on a line that is no command stays on one line. -/
theorem CommandError.lineFeed_notMem_message {line : List Char} {error : CommandError}
    (unbroken : '\n' ∉ line) (read : Command.ofLine line = .error error) : '\n' ∉ error.message.toList := by
  rcases Command.error_of_ofLine read with ⟨word, second, words, isError⟩ | rfl
  · have noFeed : '\n' ∉ second.toList := fun member => unbroken (subset_of_firstWords words member)
    rcases isError with rfl | rfl <;> exact lineFeed_notMem_append (by decide) noFeed
  · have noFeed : '\n' ∉ (String.ofList (trim line)).toList := by
      rw [String.toList_ofList]
      exact fun member => unbroken (trim_subset line member)
    exact lineFeed_notMem_append (lineFeed_notMem_append (by decide) noFeed) (by decide)

/-! ### Consoles -/

/-- What was printed is a record of effects that lead to the screen. -/
def Console.Records (console : Console) : Prop :=
  ∃ effects, Transcribes console.lines effects ∧ Screen.empty.applyAll effects = .ok console.screen

namespace Console

theorem records_new : Records .new := ⟨[], .nothing, rfl⟩

/-- A console prints effects that can be applied one after the other. -/
theorem deliver_of_applyAll {console : Console} {after : Screen} {effects : List Effect}
    (applied : console.screen.applyAll effects = .ok after) :
    deliver false console effects =
      ⟨none, false, ⟨after, (effects.map Effect.text).reverse ++ console.printed⟩⟩ := by
  induction effects generalizing console with
  | nil =>
    cases applied
    rfl
  | cons effect rest ih =>
    obtain ⟨next, first, applies⟩ := Screen.exists_of_applyAll_cons applied
    have later : ({ console.print effect.text with screen := next } : Console).screen.applyAll rest =
        .ok after := applies
    simp only [deliver, Host.receive, first, Bool.or_false, ih later]
    simp [print]

theorem Records.effects {console : Console} (records : console.Records) {after : Screen}
    {effects : List Effect} (applied : console.screen.applyAll effects = .ok after)
    (oneLine : ∀ effect ∈ effects, effect.OnOneLine) :
    Records ⟨after, (effects.map Effect.text).reverse ++ console.printed⟩ := by
  obtain ⟨before, transcribes, led⟩ := records
  refine ⟨before ++ effects, ?_, ?_⟩
  · simpa [lines] using transcribes.effects_append oneLine
  · rw [Screen.applyAll_append_ok _ led, applied]

theorem Records.remark {console : Console} (records : console.Records) {text : String}
    (unbroken : '\n' ∉ text.toList) : Records (console.print ("# " ++ text)) := by
  obtain ⟨effects, transcribes, led⟩ := records
  refine ⟨effects, ?_, led⟩
  simpa [lines, print] using transcribes.remark unbroken

end Console

/-! ### Sessions at a frame -/

/-- A session that shows the frame at an index of a timeline, with a record of how that came about. -/
structure Session.At (timeline : Timeline) (epsilon : Float) (index : Nat) (session : Session) : Prop where
  inside : index < timeline.size
  playhead : session.playhead = some ⟨timeline, index, inside⟩
  epsilon : session.epsilon = epsilon
  screen : session.host.screen = Playhead.canonical ⟨timeline, index, inside⟩
  records : session.host.Records

namespace Session

/-- A delivery that the screen accepts leads to its target. -/
theorem move_at {session : Session} (records : session.host.Records) (origin : Playhead) {target : Playhead}
    {effects : List Effect} (applied : session.host.screen.applyAll effects = .ok target.canonical)
    (oneLine : ∀ effect ∈ effects, effect.OnOneLine) :
    ∃ moved : Session, session.move origin target effects = (.ok target.index, moved) ∧
      moved.playing = session.playing ∧ moved.At target.timeline session.epsilon target.index := by
  have delivered := Console.deliver_of_applyAll applied
  have accepted : (deliver false session.host effects).refusal = none := by rw [delivered]
  refine ⟨_, Player.move_of_accepted accepted origin target, ?_, ?_⟩
  · simp [delivered]
  · refine ⟨target.inside, rfl, rfl, ?_, ?_⟩
    · simp [delivered]
    · simp only [delivered]
      exact records.effects applied oneLine

namespace At

variable {timeline : Timeline} {epsilon : Float} {index : Nat} {session : Session}

theorem remark (here : session.At timeline epsilon index) {text : String} (unbroken : '\n' ∉ text.toList) :
    (session.remark text).At timeline epsilon index :=
  ⟨here.inside, here.playhead, here.epsilon, here.screen, here.records.remark unbroken⟩

theorem settle (here : session.At timeline epsilon index) {origin target : Playhead} {effects : List Effect}
    (applied : session.host.screen.applyAll effects = .ok target.canonical)
    (oneLine : ∀ effect ∈ effects, effect.OnOneLine) (same : target.timeline = timeline) :
    (Session.settle (session.move origin target effects)).At timeline epsilon target.index := by
  obtain ⟨moved, result, _, reached⟩ := move_at here.records origin applied oneLine
  rw [result, ← same, ← here.epsilon]
  exact reached

/-- The frame at which a session stands. -/
abbrev head (here : session.At timeline epsilon index) : Playhead := ⟨timeline, index, here.inside⟩

variable (here : session.At timeline epsilon index) (legible : timeline.Legible)

include here legible

/-- A step forward succeeds if there is a next frame. -/
theorem forward {next : Playhead} (found : here.head.next? = some next) :
    ∃ moved : Session, session.forward = (.ok next.index, moved) ∧ moved.playing = session.playing ∧
      moved.At timeline epsilon (index + 1) := by
  obtain ⟨same, isNext⟩ := Playhead.next?_eq_some found
  have applied : session.host.screen.applyAll next.advance = .ok next.canonical := by
    rw [here.screen]
    exact Screen.applyAll_advance found
  have oneLine : ∀ effect ∈ next.advance, effect.OnOneLine :=
    Frame.Legible.applied (Playhead.legible_frame (same ▸ legible)) _
  obtain ⟨moved, result, playing, reached⟩ := move_at here.records here.head applied oneLine
  rw [same, isNext, here.epsilon] at reached
  exact ⟨moved, (Player.forward_of_next here.playhead found).trans result, playing, reached⟩

theorem next : (Session.settle session.forward).At timeline epsilon
    (if index < timeline.lastIndex then index + 1 else index) := by
  cases found : here.head.next? with
  | none =>
    have last : index = timeline.lastIndex := here.head.next?_eq_none_iff.mp found
    rw [if_neg (Nat.not_lt.mpr (Nat.le_of_eq last.symm))]
    simp only [Player.forward, here.playhead, found]
    exact here.remark (PlayerError.lineFeed_notMem_outOfRange _ _)
  | some next =>
    have notLast := mt here.head.next?_eq_none_iff.mpr (by rw [found]; exact Option.some_ne_none _)
    have before : index < timeline.lastIndex := Nat.lt_of_le_of_ne here.head.index_le_last notLast
    obtain ⟨moved, result, _, reached⟩ := here.forward legible found
    rw [if_pos before, result]
    exact reached

theorem previous : (Session.settle session.backward).At timeline epsilon (index - 1) := by
  cases found : here.head.previous? with
  | none =>
    -- The walk does not go below zero either.
    have first : index = 0 := here.head.previous?_eq_none_iff.mp found
    have stays : index - 1 = index := by omega
    simp only [Player.backward, here.playhead, found, stays]
    exact here.remark (PlayerError.lineFeed_notMem_outOfRange _ _)
  | some previous =>
    obtain ⟨same, isNext⟩ := Playhead.next?_eq_some (Playhead.previous?_eq_some found)
    have isPrevious : index - 1 = previous.index := Nat.sub_eq_of_eq_add isNext
    simp only [Player.backward, here.playhead, found, isPrevious]
    refine here.settle ?_ ?_ same.symm
    · rw [here.screen]
      exact Screen.applyAll_retreat found
    · exact Playhead.onOneLine_retreat legible same.symm

/-- A replay leads to its frame. -/
theorem replay (origin target : Playhead) (same : target.timeline = timeline) :
    (Session.settle (session.move origin target target.replay)).At timeline epsilon target.index :=
  here.settle (Screen.applyAll_replay _ _) (Playhead.onOneLine_replay (same ▸ legible)) same

theorem jump (target : Nat) : (Session.settle (session.jump target)).At timeline epsilon
    (if target ≤ timeline.lastIndex then target else index) := by
  cases found : here.head.at? target with
  | none =>
    have beyond : timeline.lastIndex < target := (here.head.at?_eq_none_iff target).mp found
    rw [if_neg (Nat.not_le.mpr beyond)]
    simp only [Player.jump, here.playhead, found]
    exact here.remark (PlayerError.lineFeed_notMem_outOfRange _ _)
  | some there =>
    obtain ⟨same, isTarget⟩ := Playhead.at?_eq_some found
    have within : target ≤ timeline.lastIndex := by
      rw [← Nat.not_lt]
      exact mt (here.head.at?_eq_none_iff target).mpr (by rw [found]; exact Option.some_ne_none _)
    have reached := here.replay legible here.head there same
    rw [isTarget] at reached
    rw [if_pos within]
    simp only [Player.jump, here.playhead, found]
    exact reached

theorem seek (t : Float) : (Session.settle (session.seek t)).At timeline epsilon (timeline.indexAt t epsilon) := by
  simp only [Player.seek, here.playhead, here.epsilon]
  exact here.replay legible here.head (here.head.atTime t epsilon) rfl

/-- A command leads where the walk over indices says. -/
theorem obey {command : Command} (notPlay : command ≠ .play) :
    (session.obey command).At timeline epsilon (timeline.indexAfter epsilon index command) := by
  cases command with
  | next => exact here.next legible
  | previous => exact here.previous legible
  | jump target => exact here.jump legible target
  | time t => exact here.seek legible t
  | play => exact absurd rfl notPlay
  | pause => exact here.remark (by decide)
  | quit => exact here

/-! ### Playback -/

omit legible in
/-- Whether playback is on does not matter. -/
theorem switched (playing : Bool) : At timeline epsilon index { session with playing } :=
  ⟨here.inside, here.playhead, here.epsilon, here.screen, here.records⟩

omit here in
/-- Playback that nothing disturbs finishes at the last frame. The induction is on the number of frames to
come. -/
theorem playFrom {toCome : Nat} (here : session.At timeline epsilon index) (on : session.playing = true)
    (ahead : timeline.lastIndex - index = toCome) (clock : Clock) {interruptions : Interruptions}
    (undisturbed : ∀ waits ended, interruptions waits ended = false) (waits elapsed : Nat) :
    (session.playFrom clock interruptions waits elapsed toCome).result = .ok .finished ∧
      At timeline epsilon timeline.lastIndex
        (session.playFrom clock interruptions waits elapsed toCome).player := by
  induction toCome generalizing index session waits elapsed with
  | zero =>
    have last : index = timeline.lastIndex := by
      have bound : index ≤ timeline.lastIndex := here.head.index_le_last
      omega
    -- No frame is to come, and playback was not paused: it is over.
    simp only [Player.playFrom, on, if_true]
    exact ⟨trivial, last ▸ here⟩
  | succ toCome ih =>
    cases found : here.head.next? with
    | none =>
      have last : index = timeline.lastIndex := here.head.next?_eq_none_iff.mp found
      omega
    | some next =>
      obtain ⟨moved, result, playing, reached⟩ := here.forward legible found
      rw [Player.playFrom_of_step here.playhead found on toCome (undisturbed _ _) result]
      exact ih reached (playing.trans on) (by omega) _ _

/-- With nothing more to hear, playback finishes. -/
theorem play : At timeline epsilon timeline.lastIndex (Session.play session []) := by
  have started : At timeline epsilon index session.resume := here.switched true
  have undisturbed : ∀ waits ended, Interruptions.ofMoments [] waits ended = false := fun _ _ => rfl
  obtain ⟨finished, reached⟩ := started.playFrom legible rfl rfl .milliseconds undisturbed 0 0
  have run := Player.playAmid_of_loaded here.playhead .milliseconds (.ofMoments [])
  have concluded : Session.play session [] =
      concludePlay (session.playAmid .milliseconds (.ofMoments [])).result
        (session.playAmid .milliseconds (.ofMoments [])).player := rfl
  rw [concluded, run]
  simp only [Playhead.last, finished, concludePlay]
  exact (reached.switched false).remark
    (lineFeed_notMem_append (by decide) (lineFeed_notMem_decimalText _))

/-! ### Runs -/

/-- A run over lines ends where the walk over indices does, if nothing follows a command to play. -/
theorem run {lines : List (List Char)} (unbroken : ∀ line ∈ lines, '\n' ∉ line)
    (playsLast : ∀ line ∈ lines.dropLast, commandOf? line ≠ some .play) :
    ∃ final, session.run (lines.map .ok) = (none, final) ∧
      At timeline epsilon (timeline.walk epsilon index lines) final := by
  induction lines generalizing index session with
  | nil => exact ⟨session, rfl, here⟩
  | cons line rest ih =>
    have noFeed := unbroken line List.mem_cons_self
    -- The other lines are obeyed from wherever this one leads.
    have later : ∀ {index : Nat} {session : Session}, At timeline epsilon index session →
        ∃ final, session.run (rest.map .ok) = (none, final) ∧
          At timeline epsilon (timeline.walk epsilon index rest) final := by
      intro index session there
      refine ih there (fun other member => unbroken other (List.mem_cons_of_mem _ member)) ?_
      intro other member
      have more : rest ≠ [] := by
        rintro rfl
        cases member
      apply playsLast other
      rw [List.dropLast_cons_of_ne_nil more]
      exact List.mem_cons_of_mem _ member
    rw [List.map_cons, Timeline.walk]
    unfold Session.run
    split
    next blank =>
      rw [commandOf?_of_allBlank blank]
      exact later here
    next =>
      cases read : Command.ofLine line with
      | error error =>
        rw [commandOf?_eq_none read]
        exact later (here.remark (CommandError.lineFeed_notMem_message noFeed read))
      | ok command =>
        rw [commandOf?_eq_some read]
        cases command with
        | quit => exact ⟨session, rfl, here⟩
        | play =>
          -- Nothing follows, so it makes no difference whether there is something to play.
          cases rest with
          | nil =>
            refine ⟨_, ?_, here.play legible⟩
            simp only [List.map_nil]
            split <;> rfl
          | cons second more => exact absurd (commandOf?_eq_some read) (playsLast line (by simp))
        | next => exact later (here.obey legible nofun)
        | previous => exact later (here.obey legible nofun)
        | jump target => exact later (here.obey legible nofun)
        | time t => exact later (here.obey legible nofun)
        | pause => exact later (here.obey legible nofun)

end At

/-- A session that has loaded a timeline stands at its first frame. -/
theorem open_at {settings : Settings} (valid : settings.isValid = true) {timeline : Timeline}
    (legible : timeline.Legible) :
    ∃ opened, (Session.start settings).open timeline = .ok opened ∧
      At timeline settings.mergeEpsilon 0 opened := by
  let start := Playhead.start timeline
  let fresh := (Session.start settings).pause
  have records : fresh.host.Records := Console.records_new
  have replayed : fresh.host.screen.applyAll start.replay = .ok start.canonical := Screen.applyAll_replay _ _
  have oneLine : ∀ effect ∈ start.replay, effect.OnOneLine := Playhead.onOneLine_replay legible
  obtain ⟨moved, result, _, reached⟩ := move_at records start replayed oneLine
  have tolerance : fresh.epsilon = settings.mergeEpsilon := by
    have amount : isAmount settings.mergeEpsilon = true := by
      simp only [Settings.isValid, Bool.and_eq_true] at valid
      exact valid.1.1
    exact if_pos amount
  rw [tolerance] at reached
  refine ⟨moved.remark ("loaded " ++ decimalText timeline.size ++ " frames"), ?_, reached.remark ?_⟩
  · have loaded : (Session.start settings).load timeline = (.ok (), moved) := by
      simp only [Player.load]
      rw [result]
      rfl
    rw [Session.open, loaded]
  · exact lineFeed_notMem_append (lineFeed_notMem_append (by decide) (lineFeed_notMem_decimalText _)) (by decide)

end Session

/-! ### Transcripts -/

theorem CaptureOptions.settings_eq_ok_iff {options : CaptureOptions} {contents : Contents} {settings : Settings} :
    options.settings contents = .ok settings ↔
      Settings.effective contents.settings options.overrides = .ok settings := by
  rw [CaptureOptions.settings, mapError_eq_ok_iff]

theorem CaptureOptions.isValid_settings {options : CaptureOptions} {contents : Contents}
    {settings : Settings} (valid : options.settings contents = .ok settings) : settings.isValid = true :=
  settings.valid_iff.mp (Settings.valid_of_effective (settings_eq_ok_iff.mp valid))

theorem CaptureOptions.session_at {options : CaptureOptions} {contents : Contents} {settings : Settings}
    (valid : options.settings contents = .ok settings) {text : String}
    (read : contents.log.text = .ok text) {timeline : Timeline}
    (built : Timeline.ofText settings text = .ok timeline) :
    ∃ opened, options.session contents = .ok opened ∧
      Session.At timeline settings.mergeEpsilon 0 opened := by
  obtain ⟨opened, loaded, here⟩ :=
    Session.open_at (CaptureOptions.isValid_settings valid) (Timeline.legible_ofText built)
  refine ⟨opened, ?_, here⟩
  simp [CaptureOptions.session, Contents.timeline, valid, read, built, loaded, bind, Except.bind,
    Except.mapError]

/-- What a session has printed can be read back and applied, up to the screen of its frame. -/
theorem Session.At.reads_back {timeline : Timeline} {epsilon : Float} {index : Nat} {session : Session}
    (here : Session.At timeline epsilon index session) :
    ∃ effects screen, (effectLines (unlines session.host.lines)).mapM Effect.ofLine? = some effects ∧
      Screen.empty.applyAll effects = .ok screen ∧ screen.markers = here.head.canonical.markers ∧
      (effects.filterMap Effect.index?).getLast? = some index := by
  obtain ⟨effects, transcribes, led⟩ := here.records
  obtain ⟨screen, applied, alike⟩ := Screen.Resembles.applyAll ⟨rfl, rfl⟩ led
  rw [here.screen] at alike
  have shown : screen.readout.map Readout.index = some index := alike.index.symm
  refine ⟨effects.map Effect.shown, screen, transcribes.mapM_effectLines, applied, alike.markers.symm, ?_⟩
  simpa [Screen.empty] using Screen.getLast?_indices applied shown

/-- What a replay prints, remarks apart, reads back as effects that a new screen accepts one after the other.
They leave on it the counts of all frames up to the one where the walk over indices ends, and the last readout
is that of this frame. Playback may only be asked for at the end. -/
theorem replay_transcript (files : Files) (arguments : List String) (input : List UInt8)
    {options : CaptureOptions} {settings : Settings} {text : String} {lines : List (List Char)}
    (asked : CaptureOptions.ofArguments? arguments = some (.run options))
    (valid : options.settings (options.contents files input) = .ok settings)
    (read : (options.contents files input).log.text = .ok text)
    (events : (Scan.ofText text).events ≠ [])
    (decoded : inputLines (options.contents files input).input = lines.map .ok)
    (playsLast : ∀ line ∈ lines.dropLast, commandOf? line ≠ some .play) :
    ∃ timeline, Timeline.ofText settings text = .ok timeline ∧
      let last := timeline.walk settings.mergeEpsilon 0 lines
      let actions := (timeline.frames.take (last + 1)).flatMap Frame.actions
      (replay files arguments input).ended = .well ∧ last < timeline.size ∧
      ∃ effects screen,
        (effectLines (replay files arguments input).printed).mapM Effect.ofLine? = some effects ∧
        Screen.empty.applyAll effects = .ok screen ∧
        screen.markers = OrderedMap.tabulate (actions.map Action.source) (Marker.ofActions actions) ∧
        ((∀ action, timeline.actions.count action < 2 ^ 32) → ∀ counter, screen.count counter < 2 ^ 32) ∧
        (effects.filterMap Effect.index?).getLast? = some last := by
  obtain ⟨timeline, built⟩ := Timeline.exists_ofText settings events
  obtain ⟨opened, session, here⟩ := CaptureOptions.session_at valid read built
  have unbroken : ∀ line ∈ lines, '\n' ∉ line := by
    intro line member
    apply lineFeed_notMem_of_inputLines
    rw [decoded]
    exact List.mem_map_of_mem member
  obtain ⟨final, ran, there⟩ := here.run (Timeline.legible_ofText built) unbroken playsLast
  have outcome : replay files arguments input = ⟨.well, unlines final.host.lines, none⟩ := by
    simp only [replay, asked, Outcome.ofRequest, CaptureOptions.replay, session, decoded, ran]
  obtain ⟨effects, screen, backRead, applied, markers, lastIndex⟩ := there.reads_back
  rw [outcome]
  refine ⟨timeline, built, rfl, there.inside, effects, screen, backRead, applied, markers, ?_, lastIndex⟩
  intro rare counter
  have same : screen.count counter = there.head.canonical.count counter := by
    cases counter <;> simp only [Screen.count, Screen.markerAt, Screen.marker?, markers]
  rw [same]
  exact Playhead.count_canonical_lt rare counter

/-- A packet is sent and acknowledged a second later. -/
def sentThenAckedCapture : String :=
  unlines ["quack_log Instant \x7b tv_sec: 0, tv_nsec: 0 \x7d 1 (sent)",
    "quack_log Instant \x7b tv_sec: 1, tv_nsec: 0 \x7d 1 (acked)"]

theorem replay_transcript_sentThenAcked :
    let directory : Directory := [("capture.log", sentThenAckedCapture.toUTF8)]
    let lines := ["n", "nonsense", "p", "jump +1", "", "time 0.2", "play"]
    let outcome := replay directory.files ["--log", "capture.log"] (unlines lines).toUTF8.toList
    outcome.ended = .well ∧ ∃ effects screen,
      (effectLines outcome.printed).mapM Effect.ofLine? = some effects ∧
      Screen.empty.applyAll effects = .ok screen ∧ screen.visible = [1] ∧
      (effects.filterMap Effect.index?).getLast? = some 1 := by
  intro directory lines outcome
  let options : CaptureOptions := ⟨"capture.log", none, .none⟩
  let input := (unlines lines).toUTF8.toList
  have asked : CaptureOptions.ofArguments? ["--log", "capture.log"] = some (.run options) := by decide +kernel
  have contents : options.contents directory.files input =
      ⟨none, ⟨"capture.log", .ok sentThenAckedCapture⟩, input⟩ := by
    have found : directory.lookup "capture.log" = some sentThenAckedCapture.toUTF8 := rfl
    simp only [CaptureOptions.contents, options, Directory.text_of_lookup found]
  have valid : options.settings (options.contents directory.files input) = .ok .standard := by
    rw [contents]
    decide +kernel
  have events : (Scan.ofText sentThenAckedCapture).events ≠ [] := by decide +kernel
  have decoded : inputLines input = (lines.map String.toList).map .ok := by decide +kernel
  have playsLast : ∀ line ∈ (lines.map String.toList).dropLast, commandOf? line ≠ some .play := by
    decide +kernel
  -- Where the walk ends, and the actions up to there.
  have walked : (Timeline.ofText .standard sentThenAckedCapture).toOption.map (fun timeline =>
      (timeline.walk Settings.standard.mergeEpsilon 0 (lines.map String.toList),
        (timeline.frames.take 2).flatMap Frame.actions)) = some (1, [⟨1, .sent⟩, ⟨1, .acked⟩]) := by
    decide +kernel
  obtain ⟨timeline, built, ended, _, effects, screen, backRead, applied, markers, _, lastIndex⟩ :=
    replay_transcript directory.files _ input asked valid (by rw [contents]) events (by rw [contents, decoded])
      playsLast
  simp only [built, Except.toOption, Option.map_some, Option.some.injEq, Prod.mk.injEq] at walked
  obtain ⟨last, actions⟩ := walked
  rw [last] at markers lastIndex
  rw [actions] at markers
  refine ⟨ended, effects, screen, backRead, applied, ?_, lastIndex⟩
  rw [Screen.visible, markers]
  decide +kernel

end PacketReplay
