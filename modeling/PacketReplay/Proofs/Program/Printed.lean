import Mathlib.Data.List.DropRight
import PacketReplay.Program.Report
import PacketReplay.Proofs.Player.Statistics
import PacketReplay.Proofs.Program.Transcript

/-!
# Figures in print

A report prints what its summary counts, and a transcript can be counted by its lines: behind the last line that
clears the screen, each addition stands for an action and the last readout is that of the frame. If that frame is
the last of the timeline, both texts give the same figures.
-/
namespace PacketReplay

open Text

/-! ### Reading what was printed -/

/-- The lines of what a program has printed. -/
def printedLines (printed : String) : List String := (printed.toList.splitOn '\n').dropLast.map String.ofList

/-- The lines that begin with a mark. -/
def linesWith (mark : String) (lines : List String) : List String :=
  lines.filter fun line => mark.toList.isPrefixOf line.toList

/-- The lines behind the last one that clears the screen. -/
def sinceClear (transcript : List String) : List String := transcript.rtakeWhile (· ≠ "clear")

/-- Whether a line adds something for a token: a packet alone if it was sent, else a packet with the token. -/
def addsFor (token : String) (line : String) : Bool :=
  match line.toList.splitOn ' ' with
  | [['+'], _] => token = "sent"
  | [['+'], _, word] => token ≠ "sent" && word = token.toList
  | _ => false

/-- A report of so many frames and a transcript that ends at the last of them give the same figures: the values
of the series, in one order, and for each token how many packets were added. -/
structure SameFigures (size : Nat) (report transcript : List String) : Prop where
  loaded : "# loaded " ++ decimalText size ++ " frames" ∈ transcript
  metrics : ∃ (t : Float) (items : List (String × UInt64)),
    linesWith "metric " report =
      items.map (fun item => "metric " ++ item.1 ++ " " ++ decimalText item.2.toNat) ∧
    (linesWith "@ " transcript).getLast? =
      some ("@ " ++ decimalText (size - 1) ++ " t=" ++ String.ofList (Decimal.fixedText 6 t) ++
        String.join (items.map fun item => " " ++ item.1 ++ "=" ++ decimalText item.2.toNat))
  cleared : "clear" ∈ transcript
  counts : ∀ token count, "reason " ++ token ++ " " ++ decimalText count ∈ report ↔
    0 < count ∧ count = (sinceClear transcript).countP (addsFor token)

theorem printedLines_unlines {lines : List String} (unbroken : ∀ line ∈ lines, '\n' ∉ line.toList) :
    printedLines (unlines lines) = lines := by
  induction lines with
  | nil => rfl
  | cons line rest ih =>
    have later := ih fun other member => unbroken other (List.mem_cons_of_mem _ member)
    -- The piece that is dropped at the end stands behind the last line feed.
    rw [printedLines, toList_unlines_cons,
      List.splitOn_append_cons_self_of_not_mem (unbroken line List.mem_cons_self),
      List.dropLast_cons_of_ne_nil (List.splitOn_ne_nil _ _), List.map_cons, String.ofList_toList]
    exact congrArg (line :: ·) later

theorem linesWith_append (mark : String) (front back : List String) :
    linesWith mark (front ++ back) = linesWith mark front ++ linesWith mark back :=
  List.filter_append front back

theorem sinceClear_append (front : List String) {back : List String} (absent : "clear" ∉ back) :
    sinceClear (front ++ "clear" :: back) = back := by
  -- Read from the end, the lines behind pass and the line that clears stops.
  have pass : ∀ line ∈ back.reverse, decide (line ≠ "clear") = true := by
    intro line member
    rw [decide_eq_true_eq]
    rintro rfl
    exact absent (List.mem_reverse.mp member)
  rw [sinceClear, List.rtakeWhile, List.reverse_append, List.reverse_cons, List.append_assoc,
    List.takeWhile_append_of_pos pass]
  simp

/-! ### Additions in a transcript -/

theorem space_notMem_decimal (number : Nat) : ' ' ∉ decimal number := notMem_decimal rfl number

/-- An action is shown as an addition for its own token. -/
theorem addsFor_added {action : Action} (isToken : Line.IsToken action.reason.token.toList) (token : String) :
    addsFor token action.added.text = decide (action.reason.token = token) := by
  have solid : ' ' ∉ action.reason.token.toList := fun member => absurd (isToken.2 _ member) (by decide)
  have plus : ∀ rest : List Char, ('+' :: ' ' :: rest).splitOn ' ' = ['+'] :: rest.splitOn ' ' :=
    List.splitOn_append_cons_self_of_not_mem (show ' ' ∉ ['+'] by decide)
  rw [Action.added]
  split
  next sent =>
    -- A packet alone: the sign and its number.
    have words : (Effect.addMarker action.source).text.toList.splitOn ' ' =
        [['+'], decimal action.source.toNat] := by
      rw [Effect.toList_text, plus, List.splitOn_eq_singleton (space_notMem_decimal _)]
    simp only [addsFor, words, sent, Reason.token, eq_comm]
  next notSent =>
    -- A packet with a token, which has no blanks in it.
    have words : (Effect.addFlag action.source action.reason).text.toList.splitOn ' ' =
        [['+'], decimal action.source.toNat, action.reason.token.toList] := by
      rw [Effect.toList_text, plus, List.splitOn_append_cons_self_of_not_mem (space_notMem_decimal _),
        List.splitOn_eq_singleton solid]
    have other : action.reason.token ≠ "sent" := fun same => notSent (Reason.token_injective same)
    simp only [addsFor, words, String.toList_inj]
    by_cases same : action.reason.token = token
    · subst same
      simp [other]
    · simp [same]

theorem addsFor_readout (numbers : Readout) (token : String) :
    addsFor token (Effect.readout numbers).text = false := by
  have sign : ∀ rest : List Char, ('@' :: ' ' :: rest).splitOn ' ' = ['@'] :: rest.splitOn ' ' :=
    List.splitOn_append_cons_self_of_not_mem (show ' ' ∉ ['@'] by decide)
  rw [addsFor, Effect.toList_text, sign]
  split <;> simp_all

/-- Frames are shown with an addition for each action. -/
theorem countP_appliedFrom {frames : List Frame} (legible : ∀ frame ∈ frames, frame.Legible) (index : Nat)
    (token : String) : ((appliedFrom index frames).map Effect.text).countP (addsFor token) =
      (frames.flatMap Frame.actions).countP fun action => action.reason.token = token := by
  induction frames generalizing index with
  | nil => rfl
  | cons frame rest ih =>
    have here : (frame.actions.map fun action => action.added.text).countP (addsFor token) =
        frame.actions.countP fun action => action.reason.token = token := by
      rw [List.countP_map]
      refine List.countP_congr fun action member => ?_
      have isToken := (legible frame List.mem_cons_self).tokens action member
      simp [addsFor_added isToken]
    have later := ih (fun other member => legible other (List.mem_cons_of_mem _ member)) (index + 1)
    simp [appliedFrom, Frame.applied, Frame.readout, List.countP_append, addsFor_readout, later, ← here,
      Function.comp_def]

theorem clear_notMem_appliedFrom (index : Nat) (frames : List Frame) :
    "clear" ∉ (appliedFrom index frames).map Effect.text := by
  have absent : Effect.clear ∉ appliedFrom index frames := by
    induction frames generalizing index with
    | nil => exact List.not_mem_nil
    | cons frame rest ih =>
      have added (action : Action) : action.added ≠ .clear := by
        rw [Action.added]
        split <;> nofun
      simp [appliedFrom, Frame.applied, Frame.readout, added, ih]
  intro member
  obtain ⟨effect, shown, text⟩ := List.mem_map.mp member
  -- The line reads back as the effect that clears, so it is one.
  have read := Effect.ofLine?_text effect
  rw [text] at read
  have clears : effect.shown = .clear := (Option.some.inj read).symm
  cases effect <;> first | exact absent shown | cases clears

/-- The last line is the readout of the last frame. -/
theorem exists_appliedFrom_eq_append (timeline : Timeline) : ∃ front,
    (appliedFrom 0 timeline.frames).map Effect.text =
      front ++ [(timeline.lastFrame.readout timeline.lastIndex).text] := by
  refine ⟨(appliedFrom 0 timeline.frames.dropLast ++
    timeline.lastFrame.actions.map Action.added).map Effect.text, ?_⟩
  have length : timeline.frames.dropLast.length = timeline.lastIndex := List.length_dropLast
  have split : timeline.frames = timeline.frames.dropLast ++ [timeline.lastFrame] :=
    (List.dropLast_append_getLast timeline.nonempty).symm
  rw [split, appliedFrom_append, length]
  simp [appliedFrom, Frame.applied]

/-! ### The lines of a summary -/

theorem decimal_injective {left right : Nat} (same : decimal left = decimal right) : left = right := by
  have numbers := congrArg (fun text => (asciiDigits? text).map numberOf) same
  simpa only [asciiDigits?_decimal, Option.some.injEq] using numbers

/-- Reasons are printed behind the totals. -/
theorem linesWith_reason (summary : Summary) : linesWith "reason " summary.lines =
    summary.perReason.entries.map fun entry => "reason " ++ entry.1 ++ " " ++ decimalText entry.2 := by
  rw [Summary.lines, linesWith_append, linesWith, linesWith, List.filter_cons_of_neg (by simp),
    List.filter_eq_self.mpr, List.filter_eq_nil_iff.mpr, List.append_nil]
  · rw [List.forall_mem_map]
    exact fun entry _ => by simp
  · rw [List.forall_mem_map]
    exact fun entry _ => by simp

/-- The values of the series are printed behind everything else. -/
theorem linesWith_metric (summary : Summary) : linesWith "metric " summary.lines =
    summary.finalMetrics.entries.map fun entry =>
      "metric " ++ entry.1 ++ " " ++ decimalText entry.2.toNat := by
  rw [Summary.lines, linesWith_append, linesWith, linesWith, List.filter_eq_nil_iff.mpr,
    List.filter_eq_self.mpr, List.nil_append]
  · rw [List.forall_mem_map]
    exact fun entry _ => by simp
  · rw [List.forall_mem_cons, List.forall_mem_map]
    exact ⟨by simp, fun entry _ => by simp⟩

/-- The line of a reason says which it is and how often it occurs, since no token holds a blank. -/
theorem reasonLine_inj {token other : String} {count number : Nat} (solid : ' ' ∉ token.toList) :
    "reason " ++ token ++ " " ++ decimalText count = "reason " ++ other ++ " " ++ decimalText number ↔
      token = other ∧ count = number := by
  constructor
  · intro same
    have characters := congrArg String.toList same
    simp only [String.append_assoc, String.toList_append, List.append_cancel_left_eq, decimalText,
      String.toList_ofList] at characters
    obtain ⟨tokens, -, numbers⟩ :=
      (List.append_cons_inj_of_notMem solid (space_notMem_decimal count)).mp characters
    exact ⟨String.toList_inj.mp tokens, decimal_injective numbers⟩
  · rintro ⟨rfl, rfl⟩
    rfl

theorem isToken_of_mem_perReason {timeline : Timeline} (legible : timeline.Legible) {entry : String × Nat}
    (member : entry ∈ timeline.summary.perReason.entries) : Line.IsToken entry.1.toList := by
  have isKey := (OrderedMap.get?_eq_some_iff _ _ _).mpr member
  have occurs : entry.1 ∈ timeline.actions.map fun action => action.reason.token :=
    (OrderedMap.isSome_get?_tally _ _).mp (Option.isSome_of_eq_some isKey)
  obtain ⟨action, isAction, token⟩ := List.mem_map.mp occurs
  obtain ⟨frame, isFrame, inFrame⟩ := List.mem_flatMap.mp isAction
  rw [← token]
  exact (legible frame isFrame).tokens action inFrame

/-- A reason is printed with its count if it occurs. -/
theorem mem_reasonLines {timeline : Timeline} (legible : timeline.Legible) (token : String) (count : Nat) :
    "reason " ++ token ++ " " ++ decimalText count ∈ timeline.summary.lines ↔
      0 < count ∧ count = timeline.actions.countP fun action => action.reason.token = token := by
  have counted : timeline.summary.perReason.get? token =
      OrderedMap.positive? (timeline.actions.countP fun action => action.reason.token = token) := by
    rw [Timeline.get?_perReason]
    simp only [Reason.token_eq_iff]
  calc "reason " ++ token ++ " " ++ decimalText count ∈ timeline.summary.lines
      ↔ "reason " ++ token ++ " " ++ decimalText count ∈ linesWith "reason " timeline.summary.lines := by
        simp [linesWith]
    _ ↔ (token, count) ∈ timeline.summary.perReason.entries := by
        rw [linesWith_reason, List.mem_map]
        constructor
        · rintro ⟨entry, member, line⟩
          have solid : ' ' ∉ entry.1.toList := fun blank =>
            absurd ((isToken_of_mem_perReason legible member).2 _ blank) (by decide)
          obtain ⟨rfl, rfl⟩ := (reasonLine_inj solid).mp line
          exact member
        · exact fun member => ⟨_, member, rfl⟩
    _ ↔ 0 < count ∧ count = timeline.actions.countP fun action => action.reason.token = token := by
        rw [← OrderedMap.get?_eq_some_iff, counted, OrderedMap.positive?_eq_some_iff]

/-! ### Both texts -/

/-- A transcript that clears the screen and then shows all frames gives the figures of the summary. -/
theorem sameFigures {timeline : Timeline} (legible : timeline.Legible) {front : List String}
    (loaded : "# loaded " ++ decimalText timeline.size ++ " frames" ∈ front) :
    SameFigures timeline.size timeline.summary.lines
      (front ++ "clear" :: (appliedFrom 0 timeline.frames).map Effect.text) where
  loaded := List.mem_append_left _ loaded
  metrics := by
    obtain ⟨before, whole⟩ := exists_appliedFrom_eq_append timeline
    refine ⟨timeline.lastFrame.t, timeline.lastFrame.metrics.entries, linesWith_metric _, ?_⟩
    have marked : linesWith "@ " [(timeline.lastFrame.readout timeline.lastIndex).text] =
        [(timeline.lastFrame.readout timeline.lastIndex).text] := by
      simp [linesWith, Frame.readout, Effect.text, Readout.text]
    rw [whole, ← List.cons_append, ← List.append_assoc, linesWith_append, marked, List.getLast?_concat]
    rfl
  cleared := List.mem_append_right _ List.mem_cons_self
  counts := by
    intro token count
    rw [mem_reasonLines legible, sinceClear_append front (clear_notMem_appliedFrom 0 _),
      countP_appliedFrom legible, Timeline.actions]

end PacketReplay
