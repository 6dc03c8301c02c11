import Mathlib.Data.List.Induction
import PacketReplay.Proofs.Player.Recovery
import PacketReplay.Proofs.Player.Registers

/-!
# Requests that miss

Whatever has happened to a player, a request fails without any effect in two cases only: there has never been a
timeline, or it leads beyond the first or the last frame of the timeline that was loaded last. Then neither the
player nor its host is touched. In no case is a frame looked up that is not there.
-/
namespace PacketReplay

/-! ### Histories -/

/-- What can happen to a player: a call; its playback switched on or off by someone else, or left on by a
playback that was abandoned; its host changed by its owner; a new pace or tolerance. -/
inductive Incident (η : Type) where
  | call (made : Call) (fits : ∀ timeline, made = .navigate (.load timeline) → timeline.Fits)
  | turn (playing : Bool)
  | exchange (host : η)
  | scale (value : Float)
  | epsilon (value : Float)

/-- The timeline that a call loads, even if the host refuses to show it. -/
def Call.loaded? : Call → Option Timeline
  | .navigate (.load timeline) => some timeline
  | _ => none

theorem Call.eq_load_of_loaded? {call : Call} {timeline : Timeline} (loads : call.loaded? = some timeline) :
    call = .navigate (.load timeline) := by
  unfold loaded? at loads
  split at loads
  · cases loads
    rfl
  · cases loads

def Incident.loaded? {η : Type} : Incident η → Option Timeline
  | .call made _ => made.loaded?
  | _ => none

variable {η : Type} [Host η]

def Incident.after (player : Player η) : Incident η → Player η
  | .call made _ => (made.perform player).2
  | .turn playing => { player with playing }
  | .exchange host => { player with host }
  | .scale value => player.withScale value
  | .epsilon value => player.withEpsilon value

def Player.undergo (player : Player η) (incidents : List (Incident η)) : Player η := incidents.foldl Incident.after player

def Registers.new (host : η) : Registers η :=
  ⟨none, 0, false, Settings.standard.autoplayScale, Settings.standard.mergeEpsilon, host⟩

def Incident.onRegisters (registers : Registers η) : Incident η → Except Fault (Registers η)
  | .call made _ => return (← registers.perform made).2
  | .turn playing => return { registers with playing }
  | .exchange host => return { registers with host }
  | .scale value => return { registers with scale := amountOrZero value }
  | .epsilon value => return { registers with epsilon := amountOrZero value }

def Registers.undergo (registers : Registers η) (incidents : List (Incident η)) : Except Fault (Registers η) :=
  incidents.foldlM Incident.onRegisters registers

/-! ### The timeline that was loaded last -/

theorem Player.timeline?_move (player : Player η) {origin target : Playhead}
    (same : target.timeline = origin.timeline) (effects : List Effect) :
    (player.move origin target effects).2.timeline? = some origin.timeline := by
  rcases player.move_cases origin target effects with ⟨playing, host, moved⟩ | ⟨refusal, playing, host, moved⟩
  · rw [moved, ← same]
    rfl
  · rw [moved]
    rfl

theorem Navigation.timeline?_perform (navigation : Navigation) (player : Player η) :
    (navigation.perform player).2.timeline? = (Call.navigate navigation).loaded?.or player.timeline? := by
  rcases navigation.perform_cases player with ⟨error, _, notLoad, failed⟩ | ⟨origin, target, effects, leads, moved⟩
  · rw [failed]
    cases navigation with
    | load timeline => exact absurd rfl (notLoad timeline)
    | _ => rfl
  · rw [moved, Player.timeline?_move _ leads.target_timeline]
    cases leads with
    | load timeline => rfl
    | forward here _ | backward here _ | jump here _ | seek here =>
      rw [Player.timeline?, here]
      rfl

theorem Player.timeline?_steps (player : Player η) (count : Nat) :
    (player.steps count).2.timeline? = player.timeline? := by
  induction count generalizing player with
  | zero => rfl
  | succ count ih =>
    have stepped : (player.steps (count + 1)).2 = ((Navigation.forward.perform player).2.steps count).2 := rfl
    rw [stepped, ih, Navigation.timeline?_perform]
    rfl

theorem Player.timeline?_playAmid (player : Player η) (clock : Clock) (interruptions : Interruptions) :
    (player.playAmid clock interruptions).player.timeline? = player.timeline? := by
  cases loaded : player.playhead with
  | none => rw [playAmid_of_unloaded loaded]
  | some head =>
    obtain ⟨count, _, after, _⟩ := player.resume.playFrom_steps clock interruptions 0 0 (head.last - head.index) head
      loaded rfl
    rw [playAmid_of_loaded loaded]
    exact (congrArg Player.timeline? after).trans (player.resume.timeline?_steps count)

theorem Incident.timeline?_after (incident : Incident η) (player : Player η) :
    (incident.after player).timeline? = incident.loaded?.or player.timeline? := by
  cases incident with
  | call made fits =>
    cases made with
    | navigate navigation => exact navigation.timeline?_perform player
    | pause => rfl
    | play clock interruptions => exact player.timeline?_playAmid clock interruptions
  | _ => rfl

theorem Player.undergo_concat (player : Player η) (incidents : List (Incident η)) (incident : Incident η) :
    player.undergo (incidents ++ [incident]) = incident.after (player.undergo incidents) := by
  simp [undergo]

theorem Player.timeline?_undergo (player : Player η) (incidents : List (Incident η)) :
    (player.undergo incidents).timeline? = (incidents.filterMap Incident.loaded?).getLast?.or player.timeline? := by
  -- By induction on the incidents from the last one, which decides if it loads a timeline.
  induction incidents using List.reverseRecOn with
  | nil => rfl
  | append_singleton incidents incident ih =>
    have last : ([incident].filterMap Incident.loaded?).getLast? = incident.loaded? := by
      cases loaded : incident.loaded? <;> simp [loaded]
    rw [undergo_concat, incident.timeline?_after, ih, List.filterMap_append, List.getLast?_append, last, Option.or_assoc]

section New

variable (host : η) (incidents : List (Incident η))

theorem Player.timeline?_of_new :
    ((Player.new host).undergo incidents).timeline? = (incidents.filterMap Incident.loaded?).getLast? := by
  rw [timeline?_undergo]
  exact Option.or_none

theorem Player.unloaded_iff :
    ((Player.new host).undergo incidents).playhead = none ↔ ∀ incident ∈ incidents, incident.loaded? = none := by
  have shown : ((Player.new host).undergo incidents).playhead = none ↔
      ((Player.new host).undergo incidents).timeline? = none := by rw [timeline?, Option.map_eq_none_iff]
  rw [shown, timeline?_of_new, List.getLast?_eq_none_iff, List.filterMap_eq_nil_iff]

theorem Player.fits_undergo (timeline : Timeline)
    (loaded : ((Player.new host).undergo incidents).timeline? = some timeline) : timeline.Fits := by
  rw [timeline?_of_new] at loaded
  obtain ⟨incident, _, loads⟩ := List.mem_filterMap.mp (List.mem_of_getLast? loaded)
  cases incident with
  | call made fits => exact fits timeline (Call.eq_load_of_loaded? loads)
  | _ => cases loads

/-- The registers follow the player through its history. -/
theorem Player.undergo_registers :
    (Registers.new host).undergo incidents = .ok ((Player.new host).undergo incidents).registers := by
  induction incidents using List.reverseRecOn with
  | nil => rfl
  | append_singleton incidents incident ih =>
    have step : incident.onRegisters ((Player.new host).undergo incidents).registers =
        .ok (incident.after ((Player.new host).undergo incidents)).registers := by
      cases incident with
      | call made fits =>
        -- The one invariant that a call needs: whatever was loaded last fits.
        have performed := perform_registers (fits_undergo host incidents) made
        simp only [Incident.onRegisters, performed]
        rfl
      | _ => rfl
    unfold Registers.undergo at ih ⊢
    rw [List.foldlM_append, ih, undergo_concat]
    simp [bind, Except.bind, step, pure, Except.pure]

end New

/-! ### Requests that miss -/

/-- A call that makes sense only with a timeline. -/
def Call.NeedsTimeline : Call → Prop
  | .navigate (.load _) | .pause => False
  | _ => True

/-- A request that leads beyond the first or the last frame, and the index that it asks for. -/
def Call.Beyond (head : Playhead) (requested : Int) : Call → Prop
  | .navigate .forward => head.index = head.last ∧ requested = head.index + 1
  | .navigate .backward => head.index = 0 ∧ requested = -1
  | .navigate (.jump index) => head.last < index ∧ requested = min (index : Int) 9223372036854775807
  | _ => False

/-- The error of a call at a frame, if it fails before anything is done. -/
inductive Call.Misses : Option Playhead → Call → PlayerError → Prop where
  | unloaded {call : Call} (needs : call.NeedsTimeline) : Misses none call .notLoaded
  | forward {head : Playhead} (atLast : head.next? = none) :
    Misses (some head) (.navigate .forward) (.outOfRange (shownIndex (head.index + 1)) head.last)
  | backward {head : Playhead} (atFirst : head.previous? = none) :
    Misses (some head) (.navigate .backward) (.outOfRange (-1) head.last)
  | jump {head : Playhead} {index : Nat} (beyond : head.at? index = none) :
    Misses (some head) (.navigate (.jump index)) (.outOfRange (shownIndex index) head.last)

theorem Call.perform_of_misses {player : Player η} {call : Call} {error : PlayerError}
    (misses : call.Misses player.playhead error) : call.perform player = (.error error, player) := by
  generalize loaded : player.playhead = shown at misses
  cases misses with
  | unloaded needs =>
    cases call with
    | navigate navigation =>
      cases navigation with
      | load timeline => cases needs
      | _ =>
        simp only [perform, Navigation.perform, Player.forward, Player.backward, Player.jump, Player.seek, loaded]
        rfl
    | pause => cases needs
    | play clock interruptions => rw [perform, Player.playAmid_of_unloaded loaded]; rfl
  | forward atLast => simp only [perform, Navigation.perform, Player.forward, loaded, atLast]; rfl
  | backward atFirst => simp only [perform, Navigation.perform, Player.backward, loaded, atFirst]; rfl
  | jump beyond => simp only [perform, Navigation.perform, Player.jump, loaded, beyond]; rfl

/-- The error of a delivery is a refusal. -/
theorem Player.not_early_of_move {player : Player η} {origin target : Playhead} {effects : List Effect}
    {answer : Nat → Answer} {error : PlayerError}
    (failed : (player.move origin target effects).1.map answer = .error error) : ¬error.Early := by
  rcases player.move_cases origin target effects with ⟨playing, host, moved⟩ | ⟨refusal, playing, host, moved⟩
  · rw [moved] at failed
    cases failed
  · rw [moved] at failed
    cases failed
    exact id

/-- A request for a frame that may be missing fails early only if it is. -/
theorem Player.missing_of_early {player : Player η} {head : Playhead} {found : Option Playhead}
    {effects : Playhead → List Effect} {missed error : PlayerError} (early : error.Early)
    (failed : Except.map Answer.shown (match found with
      | none => ((.error missed, player) : Except PlayerError Nat × Player η)
      | some target => player.move head target (effects target)).1 = .error error) :
    found = none ∧ missed = error := by
  cases found with
  | none => exact ⟨rfl, Except.error.inj failed⟩
  | some target => exact absurd early (not_early_of_move failed)

theorem Navigation.misses_of_early {navigation : Navigation} {player : Player η} {error : PlayerError}
    (early : error.Early) (failed : (navigation.perform player).1 = .error error) :
    (Call.navigate navigation).Misses player.playhead error := by
  rcases navigation.perform_cases player with ⟨_, _, notLoad, _⟩ | ⟨origin, target, effects, _, moved⟩
  · -- The frame says which of the errors it is.
    cases loaded : player.playhead with
    | none =>
      cases navigation with
      | load timeline => exact absurd rfl (notLoad timeline)
      | _ =>
        simp only [perform, Player.forward, Player.backward, Player.jump, Player.seek, loaded] at failed
        cases failed
        exact .unloaded trivial
    | some head =>
      cases navigation with
      | load timeline => exact absurd rfl (notLoad timeline)
      | forward =>
        simp only [perform, Player.forward, loaded] at failed
        obtain ⟨atLast, rfl⟩ := Player.missing_of_early early failed
        exact .forward atLast
      | backward =>
        simp only [perform, Player.backward, loaded] at failed
        obtain ⟨atFirst, rfl⟩ := Player.missing_of_early early failed
        exact .backward atFirst
      | jump index =>
        simp only [perform, Player.jump, loaded] at failed
        obtain ⟨beyond, rfl⟩ := Player.missing_of_early early failed
        exact .jump beyond
      | seek t =>
        simp only [perform, Player.seek, loaded] at failed
        exact absurd early (Player.not_early_of_move failed)
  · rw [moved] at failed
    exact absurd early (Player.not_early_of_move failed)

theorem Call.misses_of_early {call : Call} {player : Player η} {error : PlayerError} (early : error.Early)
    (failed : (call.perform player).1 = .error error) : call.Misses player.playhead error := by
  cases call with
  | navigate navigation => exact navigation.misses_of_early early failed
  | pause => cases failed
  | play clock interruptions =>
    cases loaded : player.playhead with
    | none =>
      rw [perform, Player.playAmid_of_unloaded loaded] at failed
      cases failed
      exact .unloaded trivial
    | some head =>
      obtain ⟨count, _, _, _, ends⟩ := player.resume.playFrom_steps clock interruptions 0 0 (head.last - head.index)
        head loaded rfl
      rw [perform, Player.playAmid_of_loaded loaded] at failed
      simp only at failed
      generalize (player.resume.playFrom clock interruptions 0 0 (head.last - head.index)).result = result
        at ends failed
      cases ends with
      | finished | paused => cases failed
      | failed =>
        cases failed
        cases early

theorem Call.perform_eq_notLoaded_iff {call : Call} {player : Player η} :
    (call.perform player).1 = .error .notLoaded ↔ call.NeedsTimeline ∧ player.playhead = none := by
  constructor
  · intro failed
    have early : PlayerError.notLoaded.Early := trivial
    have misses := misses_of_early early failed
    generalize player.playhead = shown at misses
    cases misses with
    | unloaded needs => exact ⟨needs, rfl⟩
  · rintro ⟨needs, unloaded⟩
    have misses : call.Misses player.playhead .notLoaded := unloaded ▸ .unloaded needs
    rw [perform_of_misses misses]

theorem shownIndex_next {head : Playhead} (fits : head.timeline.Fits) :
    shownIndex (head.index + 1) = head.index + 1 := by
  have inside := head.inside
  unfold Timeline.Fits at fits
  unfold shownIndex
  omega

theorem Call.misses_outOfRange_iff {call : Call} {head : Playhead} (fits : head.timeline.Fits) {requested : Int}
    {last : Nat} : call.Misses (some head) (.outOfRange requested last) ↔ head.last = last ∧ call.Beyond head requested := by
  constructor
  · intro misses
    generalize missed : PlayerError.outOfRange requested last = error at misses
    cases misses with
    | forward atLast =>
      obtain ⟨asked, isLast⟩ := PlayerError.outOfRange.inj missed
      exact ⟨isLast.symm, head.next?_eq_none_iff.mp atLast, asked.trans (shownIndex_next fits)⟩
    | backward atFirst =>
      obtain ⟨asked, isLast⟩ := PlayerError.outOfRange.inj missed
      exact ⟨isLast.symm, head.previous?_eq_none_iff.mp atFirst, asked⟩
    | jump beyond =>
      obtain ⟨asked, isLast⟩ := PlayerError.outOfRange.inj missed
      exact ⟨isLast.symm, (head.at?_eq_none_iff _).mp beyond, asked⟩
  · rintro ⟨rfl, beyond⟩
    unfold Beyond at beyond
    split at beyond
    · obtain ⟨atLast, rfl⟩ := beyond
      rw [← shownIndex_next fits]
      exact .forward (head.next?_eq_none_iff.mpr atLast)
    · obtain ⟨atFirst, rfl⟩ := beyond
      exact .backward (head.previous?_eq_none_iff.mpr atFirst)
    · obtain ⟨outside, rfl⟩ := beyond
      exact .jump ((head.at?_eq_none_iff _).mpr outside)
    · cases beyond

theorem Call.perform_eq_outOfRange_iff {call : Call} {player : Player η}
    (fits : ∀ timeline, player.timeline? = some timeline → timeline.Fits) {requested : Int} {last : Nat} :
    (call.perform player).1 = .error (.outOfRange requested last) ↔
      ∃ head, player.playhead = some head ∧ head.last = last ∧ call.Beyond head requested := by
  have misses : (call.perform player).1 = .error (.outOfRange requested last) ↔
      call.Misses player.playhead (.outOfRange requested last) :=
    ⟨misses_of_early trivial, fun misses => by rw [perform_of_misses misses]⟩
  rw [misses]
  cases loaded : player.playhead with
  | none => exact iff_of_false (by rintro ⟨⟩) (by simp)
  | some head =>
    rw [misses_outOfRange_iff (fits head.timeline (by rw [Player.timeline?, loaded, Option.map_some]))]
    simp

omit [Host η] in
theorem Player.waitTime_eq_error_iff {player : Player η} {error : PlayerError} :
    player.waitTime = .error error ↔ error = .notLoaded ∧ player.playhead = none := by
  unfold waitTime
  cases player.playhead <;> simp [eq_comm]

/-! ### Every state -/

/-- After any history of a player on any host: requests that need a timeline fail without one, and only then;
a request fails at an index out of range if and only if it leads beyond the ends of the timeline that was
loaded last; and if it fails so, the player and its host stay as they are, and the host is given nothing. The
same history on registers runs into no fault and ends with what the player has, and so does every call that
comes next. -/
theorem Player.missed_requests_do_nothing (host : η) (incidents : List (Incident η)) :
    let player := (Player.new host).undergo incidents
    player.timeline? = (incidents.filterMap Incident.loaded?).getLast? ∧
    (∀ call : Call, (call.perform player).1 = .error .notLoaded ↔
      call.NeedsTimeline ∧ ∀ incident ∈ incidents, incident.loaded? = none) ∧
    (player.waitTime = .error .notLoaded ↔ ∀ incident ∈ incidents, incident.loaded? = none) ∧
    (∀ (call : Call) requested last, (call.perform player).1 = .error (.outOfRange requested last) ↔
      ∃ head, player.playhead = some head ∧ head.last = last ∧ call.Beyond head requested) ∧
    (∀ requested last, player.waitTime ≠ .error (.outOfRange requested last)) ∧
    (∀ (call : Call) (error : PlayerError), error.Early → (call.perform player).1 = .error error →
      (call.perform player).2 = player ∧ (call.perform player.recorded).1 = .error error ∧
        (call.perform player.recorded).2.host.effects = []) ∧
    (Registers.new host).undergo incidents = .ok player.registers ∧
    player.registers.waitTime = .ok player.waitTime ∧
    ∀ call : Call, player.registers.perform call =
      .ok ((call.perform player).1, (call.perform player).2.registers) := by
  intro player
  have never := unloaded_iff host incidents
  have fits := fits_undergo host incidents
  refine ⟨timeline?_of_new host incidents, fun call => ?notLoaded, ?wait, fun call requested last => ?outOfRange,
    fun requested last => ?waitInside, fun call error early failed => ?noEffect, undergo_registers host incidents,
    waitTime_registers fits, fun call => perform_registers fits call⟩
  case notLoaded => rw [Call.perform_eq_notLoaded_iff, never]
  case wait => rw [waitTime_eq_error_iff, never, eq_self, true_and]
  case outOfRange => exact Call.perform_eq_outOfRange_iff fits
  case waitInside => simp [waitTime_eq_error_iff]
  case noEffect =>
    have misses := Call.misses_of_early early failed
    -- Only the frame decides whether a call misses, so it does so while a record is kept, too.
    have onRecord : call.perform player.recorded = (.error error, player.recorded) := Call.perform_of_misses misses
    rw [Call.perform_of_misses misses, onRecord]
    exact ⟨rfl, rfl, rfl⟩

end PacketReplay
