import StreamDB.ChannelPhase
import StreamDB.RunSteps

/-!
# How a run ends

Over an orderly stream, the way the channels end decides how the run does: with the outcome of
the interrupt query, with an error row for the first failure, or with one for a cancellation.
-/

namespace StreamDB

open ChannelPhase

namespace Scenario

/-- The stream and the hook keep to their part, and nothing but the channels is cancelled. -/
structure Orderly (s : Scenario) (ph : ChannelPhase) : Prop where
  joined : ph.Joined
  channels : s.channels = ph.outcome
  enter : s.enter = none
  exit : s.exit = .passes
  hook : ∀ exc, s.preFinish = some (some exc) → exc.isException
  interrupted : ∃ paused, s.interrupted = .ok paused
  interrupts : ∃ interrupts, s.interrupts = .ok interrupts
  cancelAt : s.cancelAt = none

/-- The stream lets through how the channels end, and nothing but the channels is cancelled. -/
structure Undisturbed (s : Scenario) (ph : ChannelPhase) : Prop where
  joined : ph.Joined
  channels : s.channels = ph.outcome
  enter : s.enter = none
  exit : s.exit = .passes
  cancelAt : s.cancelAt = none

/-- How a run exits and which terminal row it writes, by the ends of its channels. -/
structure Classified (s : Scenario) (ph : ChannelPhase) (exit : Except PyException Unit)
    (before : List WriterCall) (final : Frame) : Prop where
  clean : (∀ f ∈ ph.finished, f.did = .returns) → ph.parentCancelled = false →
    exit = .ok () ∧
      final.status = some (.str (if s.items = [] then "complete" else "interrupt")) ∧
      ∀ item ∈ s.items, interruptCall item ∈ before
  selfCancelled : (∃ f ∈ ph.finished, f.SelfCancelled) →
    exit = .error .cancelled ∧ final = s.errorFrame "cancelled"
  failed : (¬ ∃ f ∈ ph.finished, f.SelfCancelled) →
    ∀ exc, (ph.finished.filterMap Finish.raised).head? = some exc →
      exit = .error ph.group ∧ final = s.errorFrame exc.message
  parentCancelled : ph.parentCancelled →
    exit = .error .cancelled ∧ final = s.errorFrame "cancelled"

variable {s : Scenario} {ph : ChannelPhase}

namespace Undisturbed

theorem not_cutShort (h : s.Undisturbed ph) (started : Bool) : ¬ s.CutShort started := by
  simp [CutShort, AnnounceCut, h.cancelAt]

theorem leaving (h : s.Undisturbed ph) : s.leaving = ph.outcome := by
  simp [Scenario.leaving, h.cancelAt, h.enter, h.exit, h.channels]

end Undisturbed

namespace Orderly

theorem undisturbed (h : s.Orderly ph) : s.Undisturbed ph :=
  ⟨h.joined, h.channels, h.enter, h.exit, h.cancelAt⟩

theorem finaliseCompletes (h : s.Orderly ph) : s.FinaliseCompletes := by
  obtain ⟨paused, hpaused⟩ := h.interrupted
  obtain ⟨interrupts, hinterrupts⟩ := h.interrupts
  refine ⟨?_, ⟨by simp [h.cancelAt], paused, hpaused, fun _ => ⟨by simp [h.cancelAt], _,
    hinterrupts⟩⟩, by simp [h.cancelAt], by simp [h.cancelAt], by simp [h.cancelAt]⟩
  intro raised hook
  refine ⟨by simp [h.cancelAt], ?_⟩
  rintro exc rfl
  exact h.hook exc hook

end Orderly

theorem classified_clean (herrors : ph.errors = []) (hparent : ph.parentCancelled = false)
    {before : List WriterCall} (hbefore : ∀ item ∈ s.items, interruptCall item ∈ before) :
    s.Classified ph (.ok ()) before s.outcomeFrame where
  clean _ _ := ⟨rfl, s.outcomeFrame_status, hbefore⟩
  selfCancelled hself := by
    have hmem := mem_errors.mpr (.inr ⟨rfl, hself⟩)
    rw [herrors] at hmem
    cases hmem
  failed hself exc hfirst := by
    rw [← errors_of_not_selfCancelled hself, herrors] at hfirst
    cases hfirst
  parentCancelled hp := by
    rw [hparent] at hp
    cases hp

theorem classified_parentCancelled (herrors : ph.errors = []) (hparent : ph.parentCancelled)
    (before : List WriterCall) :
    s.Classified ph (.error .cancelled) before (s.errorFrame "cancelled") where
  clean _ hp := by
    rw [hparent] at hp
    cases hp
  selfCancelled _ := ⟨rfl, rfl⟩
  failed hself exc hfirst := by
    rw [← errors_of_not_selfCancelled hself, herrors] at hfirst
    cases hfirst
  parentCancelled _ := ⟨rfl, rfl⟩

theorem classified_failed (hsound : ph.Sound) (herrors : ph.errors ≠ [])
    (before : List WriterCall) :
    s.Classified ph (.error (reraised ph.group)) before
      (s.errorFrame (abortMessage ph.group)) where
  clean hreturns _ := absurd (errors_eq_nil_of_returns hreturns) herrors
  selfCancelled hself := by
    have hwrapper := hsound.hasChannelCancelled_iff.mpr hself
    simp [reraised, abortMessage, hwrapper]
  failed hself exc hfirst := by
    have hwrapper : ¬ ph.group.hasChannelCancelled := fun hw =>
      hself (hsound.hasChannelCancelled_iff.mp hw)
    rw [← errors_of_not_selfCancelled hself] at hfirst
    obtain ⟨rest, hrest⟩ : ∃ rest, ph.errors = exc :: rest := by
      cases he : ph.errors with
      | nil => exact absurd he herrors
      | cons e rest =>
          rw [he, List.head?_cons, Option.some.injEq] at hfirst
          exact ⟨rest, by rw [hfirst]⟩
    have hexc : exc.isException := hsound.isException exc (by simp [hrest])
    have hmessage : ph.group.message = exc.message := by
      rw [group, hrest]
      exact PyException.message_group hexc
    have hcancelled : ph.group.isCancelled = false := rfl
    simp [reraised, abortMessage, hwrapper, hcancelled, hmessage]
  parentCancelled hp := absurd (hsound.parent hp) herrors

theorem caught_group (hsound : ph.Sound) : Caught ph.group := by
  right
  rw [group, PyException.isException]
  exact PyException.allExceptions_iff.mpr hsound.isException

/-- A run whose channels end without a failure ends with the row of the outcome, after the rows
of its interrupts. -/
theorem finished_of_no_errors (h : s.Orderly ph) (herrors : ph.errors = [])
    (hparent : ph.parentCancelled = false) (started : Bool) :
    ∃ before, (∀ c ∈ before, Quiet c) ∧ (∀ item ∈ s.items, interruptCall item ∈ before) ∧
      (s.run (s.startState started)).1 = .ok () ∧
      (s.run (s.startState started)).2.calls = before ++ [.frame s.outcomeFrame, .close] := by
  obtain ⟨st, hquiet, hst, hguarded⟩ := s.run_of_not_cutShort (h.undisturbed.not_cutShort started)
  have hleaving := h.undisturbed.leaving
  rw [ChannelPhase.outcome, if_neg (by simp [herrors]), if_neg (by simp [hparent])] at hleaving
  obtain ⟨st', hquiet', hend⟩ := s.guarded_of_none hleaving h.finaliseCompletes hquiet hst
  rw [hguarded, hend]
  refine ⟨st'.calls ++ s.items.map interruptCall, ?_, ?_, rfl, by simp⟩
  · intro c hc
    rcases List.mem_append.mp hc with hc | hc
    · exact hquiet' c hc
    · obtain ⟨item, _, rfl⟩ := List.mem_map.mp hc
      exact quiet_interruptCall item
  · intro item hitem
    exact List.mem_append_right _ (List.mem_map_of_mem hitem)

/-- However the channels end and in whatever order, the last two calls of the writer are the one
terminal run row and the one close, and the ends of the channels decide which row it is and how
the run exits. -/
theorem run_classified (hrun : ChannelPhase.Reaches ph) (h : s.Orderly ph) (started : Bool) :
    ∃ before final, (s.run (s.startState started)).2.calls =
        before ++ [.frame final, .close] ∧
      (∀ c ∈ before, Quiet c) ∧ TerminalRunRow final ∧
      s.Classified ph (s.run (s.startState started)).1 before final := by
  have hsound := hrun.sound
  obtain ⟨st, hquiet, hst, hguarded⟩ := s.run_of_not_cutShort (h.undisturbed.not_cutShort started)
  have hrow : s.cancelAt ≠ some .abortRow := by simp [h.cancelAt]
  have hclose : s.cancelAt ≠ some .abortClose := by simp [h.cancelAt]
  have hleaving := h.undisturbed.leaving
  rw [hguarded]
  by_cases herrors : ph.errors = []
  · cases hparent : ph.parentCancelled with
    | false =>
        obtain ⟨before, hquiet', hitems, hok, hcalls⟩ :=
          finished_of_no_errors h herrors hparent started
        rw [← hguarded]
        refine ⟨before, s.outcomeFrame, hcalls, hquiet', s.terminal_outcomeFrame, ?_⟩
        rw [hok]
        exact classified_clean herrors hparent hitems
    | true =>
        rw [ChannelPhase.outcome, if_neg (by simp [herrors]), if_pos hparent] at hleaving
        obtain ⟨st', hquiet', hend⟩ :=
          s.guarded_of_caught hleaving (.inl rfl) hrow hquiet hst
        rw [hend, if_neg hclose]
        exact ⟨st'.calls, _, rfl, hquiet', s.terminal_runFrame (by decide) _,
          classified_parentCancelled herrors hparent _⟩
  · rw [ChannelPhase.outcome, if_pos herrors] at hleaving
    obtain ⟨st', hquiet', hend⟩ :=
      s.guarded_of_caught hleaving (caught_group hsound) hrow hquiet hst
    rw [hend, if_neg hclose]
    exact ⟨st'.calls, _, rfl, hquiet', s.terminal_runFrame (by decide) _,
      classified_failed hsound herrors _⟩

/-- The tool drain fails, and the three channels that are left are cancelled. -/
def toolsFailed : ChannelPhase where
  finished := [⟨.messages, .returns, false⟩, ⟨.toolCalls, .raises (.exception "boom"), false⟩,
    ⟨.values, .raisesCancelled, true⟩, ⟨.custom, .raisesCancelled, true⟩,
    ⟨.subgraphs, .raisesCancelled, true⟩]
  aborting := true
  parentCancelled := false

theorem reaches_toolsFailed : ChannelPhase.Reaches toolsFailed := by
  have hmessages := Reaches.start.returns .messages (by decide)
  have htools : ChannelPhase.Reaches ⟨[⟨.messages, .returns, false⟩,
      ⟨.toolCalls, .raises (.exception "boom"), false⟩], false, false⟩ := by
    refine .step hmessages (.finish (by decide) ?_)
    rintro exc ⟨⟩
    exact ⟨⟨rfl, rfl⟩, rfl⟩
  have habort := htools.step (.abort (by simp [errors, Finish.error]) rfl)
  have hvalues := habort.raisesCancelled .values (by decide)
  have hcustom := hvalues.raisesCancelled .custom (by decide)
  exact hcustom.raisesCancelled .subgraphs (by decide)

def failedTools : Scenario := { calm with channels := toolsFailed.outcome }

theorem orderly_failedTools : failedTools.Orderly toolsFailed where
  joined ch := by
    cases ch with
    | _ => decide
  channels := rfl
  enter := rfl
  exit := rfl
  hook _ h := nomatch h
  interrupted := ⟨false, rfl⟩
  interrupts := ⟨[], rfl⟩
  cancelAt := rfl

theorem run_classified_failedTools :
    ∃ before final, (failedTools.run (failedTools.startState false)).2.calls =
        before ++ [.frame final, .close] ∧
      (∀ c ∈ before, Quiet c) ∧ TerminalRunRow final ∧
      failedTools.Classified toolsFailed (failedTools.run (failedTools.startState false)).1
        before final :=
  run_classified reaches_toolsFailed orderly_failedTools false

end Scenario

end StreamDB
