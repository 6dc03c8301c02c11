import PacketReplay.Proofs.Program.Arguments
import PacketReplay.Proofs.Program.JumpLine
import PacketReplay.Proofs.Program.Printed
import PacketReplay.Proofs.Timeline.Conservation

/-!
# The two programs agree

A report and a replay of one capture succeed or fail together, for the same reason, and a replay that is sent to
the last frame gives the figures of the report. Both begin with the same options, contents, settings and timeline,
and nothing that comes after the timeline can fail.
-/
namespace PacketReplay

open Text

/-! ### What is printed -/

theorem lineFeed_notMem_summaryLines {timeline : Timeline} (legible : timeline.Legible) :
    ∀ line ∈ timeline.summary.lines, '\n' ∉ line.toList := by
  rw [Summary.lines, List.forall_mem_append, List.forall_mem_cons, List.forall_mem_map, List.forall_mem_map]
  refine ⟨⟨?_, ?_⟩, ?_⟩
  · simp [lineFeed_notMem_decimalText, Effect.lineFeed_notMem_fixedText]
  · intro entry member
    have solid : '\n' ∉ entry.1.toList := fun feed =>
      absurd ((isToken_of_mem_perReason legible member).2 _ feed) (by decide)
    simp [solid, lineFeed_notMem_decimalText]
  · intro entry member
    have unbroken : '\n' ∉ entry.1.toList := (legible _ (List.getLast_mem timeline.nonempty)).keys entry member
    simp [unbroken, lineFeed_notMem_decimalText]

namespace Session

/-- A session that has loaded a timeline has said how long it is. -/
theorem loaded_mem_lines {session opened : Session} {timeline : Timeline}
    (loaded : session.open timeline = .ok opened) :
    "# loaded " ++ decimalText timeline.size ++ " frames" ∈ opened.host.lines := by
  rw [Session.open] at loaded
  split at loaded
  · cases loaded
    have remarked : "# loaded " ++ decimalText timeline.size ++ " frames" =
        "# " ++ ("loaded " ++ decimalText timeline.size ++ " frames") := by
      rw [← String.toList_inj]
      simp
    rw [remarked]
    exact List.mem_reverse.mpr List.mem_cons_self
  · cases loaded

/-- A jump clears the screen and shows all frames up to its target. -/
theorem At.lines_jump {timeline : Timeline} {epsilon : Float} {index : Nat} {session : Session}
    (here : session.At timeline epsilon index) (target : Playhead) (same : target.timeline = timeline) :
    (session.obey (.jump target.index)).host.lines = session.host.lines ++ target.replay.map Effect.text := by
  subst same
  -- From wherever it starts, the screen accepts all of a replay.
  have found : here.head.at? target.index = some target := dif_pos target.inside
  have delivered := Console.deliver_of_applyAll (Screen.applyAll_replay session.host.screen target)
  have accepted : (deliver false session.host target.replay).refusal = none := by rw [delivered]
  simp only [Session.obey, Player.jump, here.playhead, found, Player.move_of_accepted accepted, Session.settle,
    delivered]
  simp [Console.lines]

theorem run_jumpLine (session : Session) {index : Nat} (small : index < 2 ^ 64) :
    session.run [.ok (jumpLine index)] = (none, session.obey (.jump index)) := by
  have notBlank : allBlank (jumpLine index) = false := rfl
  simp [Session.run, notBlank, Command.ofLine_jumpLine small]

end Session

/-! ### Agreement -/

/-- The head of a summary gives the number of frames. -/
theorem Summary.head?_lines (summary : Summary) :
    ∃ rest, summary.lines.head? = some ("frames=" ++ decimalText summary.frames ++ " " ++ rest) := by
  refine ⟨"actions=" ++ decimalText summary.actions ++ " sources=" ++ decimalText summary.sources ++
    " duration_s=" ++ String.ofList (Decimal.fixedText 6 summary.duration), ?_⟩
  rw [Summary.lines, List.cons_append, List.head?_cons, Option.some.injEq, ← String.toList_inj]
  simp

/-- What both programs begin with. -/
def CaptureOptions.timeline (options : CaptureOptions) (contents : Contents) : Except Failure Timeline := do
  contents.timeline (← options.settings contents)

theorem CaptureOptions.timeline_eq_ok {options : CaptureOptions} {contents : Contents} {timeline : Timeline}
    (built : options.timeline contents = .ok timeline) :
    ∃ settings, options.settings contents = .ok settings ∧ contents.timeline settings = .ok timeline := by
  cases valid : options.settings contents with
  | error failure => simp [CaptureOptions.timeline, valid, bind, Except.bind] at built
  | ok settings =>
    simp only [CaptureOptions.timeline, valid, bind, Except.bind] at built
    exact ⟨settings, rfl, built⟩

/-- A report without options of its own prints the summary. -/
theorem report_of_onlyShared (files : Files) {arguments : List String} (shared : OnlyShared arguments)
    (input : List UInt8) {options : CaptureOptions}
    (asked : CaptureOptions.ofArguments? arguments = some (.run options)) :
    report files arguments input =
      match options.timeline (options.contents files input) with
      | .error failure => ⟨.failed failure, "", none⟩
      | .ok timeline => ⟨.well, unlines timeline.summary.lines, none⟩ := by
  have timeline (contents : Contents) :
      ReportOptions.timeline ⟨options, false, none, false⟩ contents = options.timeline contents := by
    rw [ReportOptions.timeline, ReportOptions.settings, CaptureOptions.timeline]
    cases options.settings contents <;> rfl
  simp only [report, ReportOptions.ofArguments?_of_onlyShared shared, asked, Option.map_some, Request.map,
    Outcome.ofRequest, ReportOptions.run, timeline]
  rfl

/-- A replay that has no timeline fails before it has printed anything. -/
theorem CaptureOptions.replay_of_error {options : CaptureOptions} {contents : Contents} {failure : Failure}
    (failed : options.timeline contents = .error failure) :
    options.replay contents = ⟨.failed failure, "", none⟩ := by
  have session : options.session contents = .error failure := by
    cases valid : options.settings contents with
    | error other =>
      simp only [CaptureOptions.timeline, valid, bind, Except.bind, Except.error.injEq] at failed
      simp only [CaptureOptions.session, valid, bind, Except.bind, failed]
    | ok settings =>
      simp only [CaptureOptions.timeline, valid, bind, Except.bind] at failed
      simp only [CaptureOptions.session, valid, bind, Except.bind, failed]
  simp only [CaptureOptions.replay, session]

/-- A replay that has a timeline ends well. If it is sent to the last frame, it gives the figures of the
summary. -/
theorem CaptureOptions.replay_of_ok {options : CaptureOptions} {files : Files} {index : Nat} {timeline : Timeline}
    (built : options.timeline (options.contents files (jumpInput index)) = .ok timeline) :
    ∃ lines, options.replay (options.contents files (jumpInput index)) = ⟨.well, unlines lines, none⟩ ∧
      (∀ line ∈ lines, '\n' ∉ line.toList) ∧
      (index < 2 ^ 64 → index + 1 = timeline.size → SameFigures timeline.size timeline.summary.lines lines) := by
  obtain ⟨settings, valid, made⟩ := CaptureOptions.timeline_eq_ok built
  obtain ⟨text, read, ofText⟩ := Contents.timeline_eq_ok_iff.mp made
  have legible := Timeline.legible_ofText ofText
  obtain ⟨opened, loaded, here⟩ := Session.open_at (CaptureOptions.isValid_settings valid) legible
  have session : options.session (options.contents files (jumpInput index)) = .ok opened := by
    simp [CaptureOptions.session, valid, made, loaded, bind, Except.bind, Except.mapError]
  have unbroken : ∀ line ∈ [jumpLine index], '\n' ∉ line := by
    rw [List.forall_mem_singleton]
    exact notMem_jumpLine index (by decide)
  -- The input is still the line alone, and the run over it is one command.
  obtain ⟨final, ran, there⟩ := here.run legible unbroken (List.forall_mem_nil _)
  have outcome : options.replay (options.contents files (jumpInput index)) =
      ⟨.well, unlines final.host.lines, none⟩ := by
    simp only [CaptureOptions.replay, session, CaptureOptions.input_of_timeline valid made, inputLines_jumpInput]
    rw [List.map_singleton] at ran
    rw [ran]
  obtain ⟨_, transcribes, _⟩ := there.records
  refine ⟨final.host.lines, outcome, transcribes.unbroken, fun small last => ?_⟩
  -- The jump shows all frames of the timeline.
  have inside : index < timeline.size := by omega
  have jumped : final = opened.obey (.jump index) := by
    rw [List.map_singleton, Session.run_jumpLine opened small] at ran
    exact (congrArg Prod.snd ran).symm
  have shown : (Playhead.mk timeline index inside).replay = .clear :: appliedFrom 0 timeline.frames := by
    rw [Playhead.replay, last, Timeline.size, List.take_length]
  rw [jumped, here.lines_jump ⟨timeline, index, inside⟩ rfl, shown, List.map_cons]
  exact sameFigures legible (Session.loaded_mem_lines loaded)

/-- A report and a replay of one capture, on a command line that both understand. They end alike, and if they
fail neither prints anything. If they end well, the report gives the number of frames, and a replay that is sent
to the last of them gives the figures of the report. -/
theorem programs_agree (files : Files) {arguments : List String} (shared : OnlyShared arguments) (index : Nat)
    (few : ∀ options text, CaptureOptions.ofArguments? arguments = some (.run options) →
      (options.contents files (jumpInput index)).log.text = .ok text →
      (Scan.ofText text).events.length < 2 ^ 32) :
    let reported := report files arguments (jumpInput index)
    let replayed := replay files arguments (jumpInput index)
    replayed.ended = reported.ended ∧
    (reported.ended.exitCode ≠ 0 → reported.printed = "" ∧ replayed.printed = "") ∧
    (reported.ended = .well → ∃ size rest,
      (printedLines reported.printed).head? = some ("frames=" ++ decimalText size ++ " " ++ rest) ∧
      (index + 1 = size →
        SameFigures size (printedLines reported.printed) (printedLines replayed.printed))) := by
  intro reported replayed
  cases asked : CaptureOptions.ofArguments? arguments with
  | none =>
    -- Neither program understands the command line.
    have refusedR : reported = .refused := by
      simp only [reported, report, ReportOptions.ofArguments?_of_onlyShared shared, asked, Option.map_none,
        Outcome.ofRequest]
    have refusedP : replayed = .refused := by simp only [replayed, replay, asked, Outcome.ofRequest]
    rw [refusedR, refusedP]
    exact ⟨rfl, fun _ => ⟨rfl, rfl⟩, fun well => absurd well (by decide)⟩
  | some request =>
  cases request with
  | help =>
    have helpedR : reported = .helped := by
      simp only [reported, report, ReportOptions.ofArguments?_of_onlyShared shared, asked, Option.map_some,
        Request.map, Outcome.ofRequest]
    have helpedP : replayed = .helped := by simp only [replayed, replay, asked, Outcome.ofRequest]
    rw [helpedR, helpedP]
    exact ⟨rfl, fun _ => ⟨rfl, rfl⟩, fun well => absurd well (by decide)⟩
  | run options =>
    have reports : reported = _ := report_of_onlyShared files shared (jumpInput index) asked
    have replays : replayed = options.replay (options.contents files (jumpInput index)) := by
      simp only [replayed, replay, asked, Outcome.ofRequest]
    cases built : options.timeline (options.contents files (jumpInput index)) with
    | error failure =>
      -- Both fail before they print anything.
      rw [built] at reports
      rw [reports, replays, CaptureOptions.replay_of_error built]
      exact ⟨rfl, fun _ => ⟨rfl, rfl⟩, fun well => by cases well⟩
    | ok timeline =>
      obtain ⟨settings, valid, made⟩ := CaptureOptions.timeline_eq_ok built
      obtain ⟨text, read, ofText⟩ := Contents.timeline_eq_ok_iff.mp made
      obtain ⟨lines, outcome, unbroken, figures⟩ := CaptureOptions.replay_of_ok built
      obtain ⟨rest, first⟩ := timeline.summary.head?_lines
      rw [built] at reports
      rw [reports, replays, outcome]
      refine ⟨rfl, fun failed => absurd rfl failed, fun _ => ⟨timeline.size, rest, ?_, fun last => ?_⟩⟩
      · rw [printedLines_unlines (lineFeed_notMem_summaryLines (Timeline.legible_ofText ofText))]
        exact first
      · -- There are no more frames than events, so a command can hold the index.
        have size : timeline.size ≤ (Scan.ofText text).events.length := Timeline.size_ofText_le ofText
        have events : (Scan.ofText text).events.length < 2 ^ 32 := few options text asked read
        rw [printedLines_unlines (lineFeed_notMem_summaryLines (Timeline.legible_ofText ofText)),
          printedLines_unlines unbroken]
        exact figures (by omega) last

/-- A packet is sent and acknowledged, and in between the window is given. -/
def windowCapture : String :=
  unlines ["quack_log Instant \x7b tv_sec: 0, tv_nsec: 0 \x7d 1 (sent)",
    "cwnd 12000 Instant \x7b tv_sec: 0, tv_nsec: 500000000 \x7d",
    "quack_log Instant \x7b tv_sec: 1, tv_nsec: 0 \x7d 1 (acked)"]

theorem programs_agree_windowCapture :
    let directory : Directory := [("capture.log", windowCapture.toUTF8)]
    let arguments := ["--log", "capture.log", "--series=cwnd"]
    let reported := report directory.files arguments (jumpInput 1)
    let replayed := replay directory.files arguments (jumpInput 1)
    printedLines reported.printed = ["frames=2 actions=2 sources=1 duration_s=1.000000", "reason acked 1",
      "reason sent 1", "metric cwnd 12000"] ∧
    replayed.ended = .well ∧ SameFigures 2 (printedLines reported.printed) (printedLines replayed.printed) := by
  intro directory arguments reported replayed
  let options : CaptureOptions := ⟨"capture.log", none, ⟨none, none, ["cwnd"]⟩⟩
  have asked : CaptureOptions.ofArguments? arguments = some (.run options) := by decide +kernel
  have shared : OnlyShared arguments := by decide +kernel
  have contents : options.contents directory.files (jumpInput 1) =
      ⟨none, ⟨"capture.log", .ok windowCapture⟩, jumpInput 1⟩ := by
    have found : directory.lookup "capture.log" = some windowCapture.toUTF8 := rfl
    simp only [CaptureOptions.contents, options, Directory.text_of_lookup found]
  have few : ∀ asking text, CaptureOptions.ofArguments? arguments = some (.run asking) →
      (asking.contents directory.files (jumpInput 1)).log.text = .ok text →
      (Scan.ofText text).events.length < 2 ^ 32 := by
    intro asking text asks read
    obtain rfl : options = asking := Request.run.inj (Option.some.inj (asked.symm.trans asks))
    rw [contents, Except.ok.injEq] at read
    subst read
    decide +kernel
  have reports : reported.ended = .well ∧ printedLines reported.printed =
      ["frames=2 actions=2 sources=1 duration_s=1.000000", "reason acked 1", "reason sent 1",
        "metric cwnd 12000"] := by
    have summarised : reported = _ := report_of_onlyShared directory.files shared (jumpInput 1) asked
    rw [summarised, contents]
    decide +kernel
  obtain ⟨well, lines⟩ := reports
  obtain ⟨ended, _, agree⟩ := programs_agree directory.files shared 1 few
  obtain ⟨size, rest, first, figures⟩ := agree well
  -- The first line says how many frames there are.
  have two : size = 2 := by
    rw [show printedLines reported.printed = _ from lines, List.head?_cons, Option.some.injEq] at first
    have number : indexAt? (("frames=" ++ decimalText size ++ " " ++ rest).toList.drop 7) = some size := by
      have behind : ("frames=" ++ decimalText size ++ " " ++ rest).toList.drop 7 =
          decimal size ++ ' ' :: rest.toList := by simp [decimalText]
      rw [behind, indexAt?_decimal]
    rw [← first] at number
    exact (Option.some.inj number).symm
  subst two
  exact ⟨lines, ended.trans well, figures rfl⟩

end PacketReplay
