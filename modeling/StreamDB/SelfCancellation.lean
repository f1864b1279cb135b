import StreamDB.RunClosure
import StreamDB.TaskTree

/-!
# Cancellations that nobody has asked for

A run reports a projection that cancels itself when `_run_channel` sees it: when a channel's own
drain is cancelled and the channel leaves with that. A cancellation of a tool call's deltas, or of
anything a subagent streams, is not seen; if nothing else happens, the run is complete.
-/

namespace StreamDB

/-- The last run row is an error, and the run raises `CancelledError`. -/
structure CancelReported (r : Except PyException Unit × RunState) : Prop where
  exit : r.1 = .error .cancelled
  lastRow : ∃ f, (runRows r.2.calls).getLast? = some f ∧ f.status = some (.str "error")

namespace Scenario

variable {s : Scenario} {ph : ChannelPhase}

theorem not_cancelReported_guarded (hleaving : s.leaving = none) {st : RunState}
    (hquiet : ∀ c ∈ st.calls, Quiet c) (hst : st.errored = false) :
    ¬ CancelReported (s.guarded st) := by
  rintro ⟨_, f, hlast, hstatus⟩
  obtain ⟨st', hquiet', _, hstream⟩ := s.withStream_spec hquiet hst
  rw [hleaving] at hstream
  have hcalls := Effect.withFinally_state s.finalise (Effect.catching_of_ok s.handle hstream)
  rw [guarded, hcalls] at hlast
  exact lastRow_of_notError (s.notError_finalise hquiet') hlast hstatus

theorem reraised_group_eq_cancelled_iff :
    reraised ph.group = .cancelled ↔ ph.group.hasChannelCancelled := by
  rw [reraised]
  by_cases h : ph.group.hasChannelCancelled
  · simp [h]
  · rw [if_neg h]
    refine iff_of_false (fun heq => ?_) h
    cases heq

/-- A run that is not cancelled from outside reports a cancellation exactly when a channel ends
in one that it has inflicted on itself. -/
theorem cancelReported_iff_selfCancelled (hrun : ChannelPhase.Reaches ph)
    (h : s.Undisturbed ph) (hparent : ph.parentCancelled = false) (started : Bool) :
    CancelReported (s.run (s.startState started)) ↔ ∃ f ∈ ph.finished, f.SelfCancelled := by
  have hsound := hrun.sound
  obtain ⟨st, hquiet, hst, hguarded⟩ := s.run_of_not_cutShort (h.not_cutShort started)
  have hleaving := h.leaving
  rw [hguarded]
  by_cases herrors : ph.errors = []
  · rw [ChannelPhase.outcome, if_neg (by simp [herrors]), if_neg (by simp [hparent])]
      at hleaving
    refine iff_of_false (not_cancelReported_guarded hleaving hquiet hst) fun hself => ?_
    have hmem := ChannelPhase.mem_errors.mpr (.inr ⟨rfl, hself⟩)
    rw [herrors] at hmem
    cases hmem
  · rw [ChannelPhase.outcome, if_pos herrors] at hleaving
    obtain ⟨st', hquiet', hend⟩ := s.guarded_of_caught hleaving (caught_group hsound)
      (by simp [h.cancelAt]) hquiet hst
    rw [if_neg (by simp [h.cancelAt])] at hend
    rw [hend, ← hsound.hasChannelCancelled_iff, ← reraised_group_eq_cancelled_iff]
    constructor
    · rintro ⟨hexit, _⟩
      exact Except.error.inj hexit
    · intro hreraised
      refine ⟨congrArg Except.error hreraised, ?_⟩
      obtain ⟨f, hlast, status, _, hstatus, herror⟩ :=
        (s.closed_of_abort hquiet' (abortMessage ph.group) .cancelled).lastRow
      rw [herror ⟨_, rfl⟩] at hstatus
      exact ⟨f, hlast, hstatus⟩

variable {t : TaskTree}

/-- Whatever the tasks below the channels do to themselves, a run whose drains return and whose
tasks do not fail is reported as finished. -/
theorem finished_of_drains_return (hrun : TaskTree.Reaches t) (h : s.Orderly t.phase)
    (started : Bool) (hfailures : ∀ ch, (t.group ch).failures = [])
    (hdrains : ∀ ch e, (t.group ch).body = some e → e.did = .returns) :
    (s.run (s.startState started)).1 = .ok () ∧
      ∃ before final, (s.run (s.startState started)).2.calls =
          before ++ [.frame final, .close] ∧
        final.status = some (.str (if s.items = [] then "complete" else "interrupt")) := by
  have herrors := hrun.sound.errors_eq_nil hfailures hdrains
  obtain ⟨before, _, _, hok, hcalls⟩ := finished_of_no_errors h herrors hrun.sound.parent started
  exact ⟨hok, before, s.outcomeFrame, hcalls, s.outcomeFrame_status⟩

end Scenario

/-! ## A tool call that cancels itself -/

/-- The task of a call that nobody gives up on ends with what its output deltas raise. -/
theorem consumeToolCallExecution_raises (rt : Runtime) {tc : ToolCallExecution}
    {exc : PyException} (h : tc.deltasError = some exc) (w w' w'' : World) :
    ∃ blocks, (consumeToolCallExecution rt tc).code.legs
      [.resume w, .resume w', .resume w''] = some (blocks, .fail exc) := by
  obtain ⟨toolCallId, toolName, input, deltasError, settled, unsettled⟩ := tc
  cases h
  exact ⟨_, rfl⟩

namespace TaskTree

def cancelledCall : ToolCallExecution :=
  { searchCall "call" with deltasError := some .cancelled }

/-- The tool drain has returned while its one call was still running. -/
def callRunning : TaskTree :=
  (start.setGroup .toolCalls ⟨[.toolCall cancelledCall], [], none, false, false⟩).setGroup
    .toolCalls ⟨[.toolCall cancelledCall], [], some ⟨.returns, false⟩, false, false⟩

def callCancelled : TaskTree :=
  callRunning.setGroup .toolCalls ⟨[], [(.toolCall cancelledCall, ⟨.cancelled, false⟩)],
    some ⟨.returns, false⟩, false, false⟩

def returned (t : TaskTree) (ch : Channel) : TaskTree :=
  (t.setGroup ch ((t.group ch).leave
    ⟨.returns, (t.group ch).aborting || t.phase.cancelling⟩)).finish ch

def swallowed : TaskTree :=
  ((((callCancelled.finish .toolCalls).returned .messages).returned .custom).returned
    .subgraphs).returned .values

theorem Reaches.finish {t : TaskTree} (h : Reaches t) (ch : Channel)
    (hpending : t.phase.Pending ch) (hjoined : (t.group ch).Joined) : Reaches (t.finish ch) :=
  h.step (.join hpending hjoined)

theorem Reaches.returned {t : TaskTree} (h : Reaches t) (ch : Channel)
    (hpending : t.phase.Pending ch) (hfirst : (t.group ch).body = none)
    (halone : (t.group ch).running = []) : Reaches (t.returned ch) :=
  h.step (.leave hpending hfirst halone trivial)

theorem reaches_callCancelled : Reaches callCancelled := by
  have hlisted : Creates .toolCalls none (.toolCall cancelledCall) := .toolCall _
  have hcreated : Reaches (start.setGroup .toolCalls
      ⟨[.toolCall cancelledCall], [], none, false, false⟩) :=
    Reaches.start.step (.inside (by decide) (.create (by rfl) hlisted rfl) fun _ h => nomatch h)
  have hleft : Reaches callRunning :=
    hcreated.step (.inside (by decide) (.leave rfl trivial) fun _ _ h => nomatch h)
  have hrunning : (callRunning.group .toolCalls).running = [] ++ .toolCall cancelledCall :: [] :=
    rfl
  exact hleft.step (.inside (by decide) (.finish hrunning trivial) fun h => nomatch h)

theorem reaches_swallowed : Reaches swallowed :=
  ((((reaches_callCancelled.finish .toolCalls (by decide) ⟨rfl, rfl⟩).returned .messages
    (by decide) rfl rfl).returned .custom (by decide) rfl rfl).returned .subgraphs
    (by decide) rfl rfl).returned .values (by decide) rfl rfl

theorem selfCancelled_swallowed :
    swallowed.SelfCancelled .toolCalls (some (.toolCall cancelledCall)) :=
  ⟨⟨.cancelled, false⟩, List.mem_singleton_self _, rfl⟩

end TaskTree

namespace Scenario

variable {s : Scenario} {t : TaskTree}

theorem orderly_swallowed : calm.Orderly TaskTree.swallowed.phase where
  joined ch := by
    cases ch with
    | _ => decide
  channels := rfl
  enter := rfl
  exit := rfl
  hook _ h := nomatch h
  interrupted := ⟨false, rfl⟩
  interrupts := ⟨[], rfl⟩
  cancelAt := rfl

/-- The run of that call ends without an exception. -/
theorem not_cancellation_reported :
    ¬ ∀ (s : Scenario) (t : TaskTree) (started : Bool), TaskTree.Reaches t →
      s.Undisturbed t.phase → (∃ ch task, t.SelfCancelled ch task) →
      CancelReported (s.run (s.startState started)) := by
  intro h
  have hreported := h calm TaskTree.swallowed false TaskTree.reaches_swallowed
    orderly_swallowed.undisturbed ⟨_, _, TaskTree.selfCancelled_swallowed⟩
  have hfailures : ∀ ch, (TaskTree.swallowed.group ch).failures = [] := by
    intro ch
    cases ch with
    | _ => rfl
  have hdrains : ∀ ch e, (TaskTree.swallowed.group ch).body = some e → e.did = .returns := by
    intro ch e he
    cases ch with
    | _ =>
        cases he
        rfl
  have hok := (finished_of_drains_return TaskTree.reaches_swallowed orderly_swallowed false
    hfailures hdrains).1
  rw [hreported.exit] at hok
  cases hok

/-- Wherever projections cancel themselves, the run reports it if and only if one that does is a
channel's own, no task below that channel fails, and nobody asks the channel to stop before they
are joined. -/
theorem cancelReported_iff_surfaces (hrun : TaskTree.Reaches t) (h : s.Undisturbed t.phase)
    (started : Bool) :
    ((∃ ch task, t.SelfCancelled ch task) → CancelReported (s.run (s.startState started))) ↔
      ((∃ ch task, t.SelfCancelled ch task) → ∃ ch, t.Surfaces ch) := by
  refine imp_congr_right fun _ => ?_
  rw [cancelReported_iff_selfCancelled hrun.sound.reaches h hrun.sound.parent started]
  exact hrun.sound.exists_selfCancelled_iff

theorem cancelReported_iff_surfaces_swallowed :
    ((∃ ch task, TaskTree.swallowed.SelfCancelled ch task) →
        CancelReported (calm.run (calm.startState false))) ↔
      ((∃ ch task, TaskTree.swallowed.SelfCancelled ch task) →
        ∃ ch, TaskTree.swallowed.Surfaces ch) :=
  cancelReported_iff_surfaces TaskTree.reaches_swallowed orderly_swallowed.undisturbed false

end Scenario

end StreamDB
