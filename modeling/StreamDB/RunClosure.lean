import StreamDB.RunSteps

/-!
# When a run leaves its stream closed

A run is closed when its last run row is terminal, an error whenever the run exits with an
exception, and the writer has been closed once. This takes more than the `try` statement gives:
nothing may cut into the awaits before it, the exception that leaves the stream must be one an
`except` clause catches, and nothing may cut into the row that reports it or, on a clean exit,
into `_finalise`.
-/

namespace StreamDB

/-- The drain loop of `iter_state_rows` over what a queue writer has put on the queue: the frames
up to the sentinel, or nothing when the loop waits for it forever. -/
def drainQueue : List WriterCall → Option (List Frame)
  | [] => none
  | .close :: _ => some []
  | .frame f :: rest => (drainQueue rest).map (f :: ·)

theorem drainQueue_isSome {calls : List WriterCall} (h : closes calls ≠ 0) :
    (drainQueue calls).isSome := by
  induction calls with
  | nil => exact absurd rfl h
  | cons c calls ih =>
      cases c with
      | close => rfl
      | frame f =>
          rw [closes, List.countP_cons_of_neg (by simp [WriterCall.isClose])] at h
          rw [drainQueue, Option.isSome_map]
          exact ih h

structure Closed (r : Except PyException Unit × RunState) : Prop where
  lastRow : ∃ f, (runRows r.2.calls).getLast? = some f ∧
    ∃ status ∈ terminalStatuses, f.status = some (.str status) ∧
      ((∃ exc, r.1 = .error exc) → status = "error")
  closedOnce : closes r.2.calls = 1
  drained : (drainQueue r.2.calls).isSome

namespace Scenario

variable (s : Scenario)

theorem closes_of_quiet {calls : List WriterCall} (h : ∀ c ∈ calls, Quiet c) :
    closes calls = 0 := by
  rw [closes, List.countP_eq_zero]
  intro c hc
  simp [(h c hc).1]

theorem notError_of_quiet {c : WriterCall} (h : Quiet c) : NotError c := by
  intro f hf herror
  rw [h.2 f hf] at herror
  simp at herror

theorem not_closed_of_closes {r : Except PyException Unit × RunState}
    (h : closes r.2.calls = 0) : ¬ Closed r := by
  intro hclosed
  rw [hclosed.closedOnce] at h
  cases h

theorem lastRow_of_notError {calls : List WriterCall} (h : ∀ c ∈ calls, NotError c) {f : Frame}
    (hlast : (runRows calls).getLast? = some f) : f.status ≠ some (.str "error") := by
  obtain ⟨c, hc, hf⟩ := List.mem_filterMap.mp (List.mem_of_getLast? hlast)
  exact h c hc f hf

/-- A run that raises without having written an error is not closed. -/
theorem not_closed_of_notError {r : Except PyException Unit × RunState}
    (hraise : ∃ exc, r.1 = .error exc) (h : ∀ c ∈ r.2.calls, NotError c) : ¬ Closed r := by
  intro hclosed
  obtain ⟨f, hlast, status, _, hstatus, herror⟩ := hclosed.lastRow
  rw [herror hraise] at hstatus
  exact lastRow_of_notError h hlast hstatus

/-- Whatever `_finalise` does to a run, it writes no error. -/
theorem notError_finalise {st : RunState} (hquiet : ∀ c ∈ st.calls, Quiet c) :
    ∀ c ∈ (s.finalise st).2.calls, NotError c :=
  ((s.appends_finalise st).mono fun _ => s.notError_of_onlyOutcome).mem
    fun c hc => notError_of_quiet (hquiet c hc)

theorem closed_of_abort {st : RunState} (hquiet : ∀ c ∈ st.calls, Quiet c) (message : String)
    (exc : PyException) :
    Closed (.error exc,
      { st with
        errored := true
        calls := st.calls ++ [.frame (s.errorFrame message), .close] }) := by
  have honce : closes (st.calls ++ [.frame (s.errorFrame message), .close]) = 1 := by
    rw [closes_append, closes_of_quiet hquiet]
    rfl
  have hlast : (runRows (st.calls ++ [.frame (s.errorFrame message), .close])).getLast? =
      some (s.errorFrame message) := by
    rw [runRows_append]
    exact List.getLast?_concat
  have hstatus : (s.errorFrame message).status = some (.str "error") := s.runFrame_status _ _
  exact ⟨⟨s.errorFrame message, hlast, "error", by decide, hstatus, fun _ => rfl⟩, honce,
    drainQueue_isSome (by simp [honce])⟩

theorem closes_interruptCalls (items : List (String × Row)) :
    closes (items.map interruptCall) = 0 := by
  rw [closes, List.countP_eq_zero]
  intro c hc
  obtain ⟨item, _, rfl⟩ := List.mem_map.mp hc
  simp [interruptCall, WriterCall.isClose]

theorem closed_of_finalise {st : RunState} (hquiet : ∀ c ∈ st.calls, Quiet c) :
    Closed (.ok (),
      { st with
        calls := st.calls ++
          (s.items.map interruptCall ++ [.frame s.outcomeFrame, .close]) }) := by
  have honce : closes (st.calls ++
      (s.items.map interruptCall ++ [.frame s.outcomeFrame, .close])) = 1 := by
    rw [closes_append, closes_append, closes_of_quiet hquiet, closes_interruptCalls]
    rfl
  have hrow : runRows [.frame s.outcomeFrame, .close] = [s.outcomeFrame] := by
    rw [runRows, List.filterMap_cons_some s.runRow?_outcomeFrame]
    rfl
  have hlast : (runRows (st.calls ++
      (s.items.map interruptCall ++ [.frame s.outcomeFrame, .close]))).getLast? =
        some s.outcomeFrame := by
    rw [runRows_append, runRows_append, hrow, ← List.append_assoc]
    exact List.getLast?_concat
  obtain ⟨_, status, hmem, hstatus⟩ := s.terminal_outcomeFrame
  refine ⟨⟨s.outcomeFrame, hlast, status, hmem, hstatus, ?_⟩, honce,
    drainQueue_isSome (by simp [honce])⟩
  rintro ⟨exc, hexc⟩
  cases hexc

/-- Nothing keeps the guarded part of the run from closing it. -/
def GuardHolds : Prop :=
  match s.leaving with
  | some exc => Caught exc ∧ s.cancelAt ≠ some .abortRow
  | none => s.FinaliseCompletes

theorem closed_guarded_iff {st : RunState} (hquiet : ∀ c ∈ st.calls, Quiet c)
    (hst : st.errored = false) : Closed (s.guarded st) ↔ s.GuardHolds := by
  obtain ⟨st', hquiet', hst', hstream⟩ := s.withStream_spec hquiet hst
  have hnotError := s.notError_finalise hquiet'
  cases hleaving : s.leaving with
  | none =>
      rw [GuardHolds, hleaving]
      by_cases hcompletes : s.FinaliseCompletes
      · obtain ⟨st'', hquiet'', hrun⟩ := s.guarded_of_none hleaving hcompletes hquiet hst
        rw [hrun]
        exact iff_of_true (s.closed_of_finalise hquiet'') hcompletes
      · rw [hleaving] at hstream
        have hcatch := Effect.catching_of_ok s.handle hstream
        obtain ⟨exc, hexc⟩ := s.finalise_of_not_completes hcompletes hst'
        rw [guarded, Effect.withFinally_of_error hcatch (Prod.ext hexc rfl)]
        exact iff_of_false (not_closed_of_notError ⟨exc, rfl⟩ hnotError) hcompletes
  | some exc =>
      rw [GuardHolds, hleaving]
      rw [hleaving] at hstream
      have hcatch := Effect.catching_of_error s.handle hstream
      by_cases hcaught : Caught exc
      · by_cases hcut : s.cancelAt = some .abortRow
        · rw [s.handle_of_caught hcaught,
            Effect.bind_of_error (s.abortRun_of_cut hcut (abortMessage exc) hst')] at hcatch
          rw [guarded, Effect.withFinally_of_ok hcatch (s.finalise_of_errored rfl)]
          refine iff_of_false (not_closed_of_closes ?_) fun h => h.2 hcut
          rw [closes_append, closes_of_quiet hquiet']
          rfl
        · obtain ⟨st'', hquiet'', hrun⟩ := s.guarded_of_caught hleaving hcaught hcut hquiet hst
          rw [hrun]
          exact iff_of_true (s.closed_of_abort hquiet'' _ _) ⟨hcaught, hcut⟩
      · rw [s.handle_of_not_caught hcaught, Effect.raise_apply] at hcatch
        have hcalls := Effect.withFinally_state s.finalise hcatch
        apply iff_of_false (not_closed_of_notError (Effect.withFinally_raises _ hcatch) ?_)
          fun h => hcaught h.1
        rw [hcalls]
        exact hnotError

/-- A run is closed when it exits if and only if no cancellation comes before its `try`, and
either an `except` clause catches what leaves the stream and writes its row uncut, or nothing
leaves the stream and `_finalise` completes. -/
theorem closed_iff (started : Bool) :
    Closed (s.run (s.startState started)) ↔ ¬ s.CutShort started ∧ s.GuardHolds := by
  by_cases hcut : s.CutShort started
  · obtain ⟨st, hquiet, hrun⟩ := s.run_of_cutShort hcut
    rw [hrun]
    exact iff_of_false (not_closed_of_closes (closes_of_quiet hquiet)) fun h => h.1 hcut
  · obtain ⟨st, hquiet, hst, hrun⟩ := s.run_of_not_cutShort hcut
    rw [hrun, s.closed_guarded_iff hquiet hst]
    exact ⟨fun h => ⟨hcut, h⟩, fun h => h.2⟩

/-- A clean run with a hook, whose task is cancelled while it awaits the hook. -/
def cancelledInHook : Scenario :=
  { calm with
    preFinish := some none
    cancelAt := some .preFinish }

/-- No `except` clause covers `_finalise`: the run row stays `running`, the writer open. -/
theorem not_closed :
    ¬ ∀ (s : Scenario) (started : Bool), s.emitRunStarted ∨ started →
      Closed (s.run (s.startState started)) := by
  intro h
  have honce := (h cancelledInHook false (by decide)).closedOnce
  revert honce
  decide

end Scenario

end StreamDB
