import StreamDB.RunShell

/-!
# What each part of a run does

One lemma for each program of the shell: how it ends, and what it adds to the calls of the
writer.
-/

namespace StreamDB

/-! ## Calls of the writer -/

def WriterCall.isClose : WriterCall → Bool
  | .frame _ => false
  | .close => true

/-- The run row a call writes. -/
def WriterCall.runRow? : WriterCall → Option Frame
  | .frame f => if f.type = .run then some f else none
  | .close => none

def runRows (calls : List WriterCall) : List Frame := calls.filterMap WriterCall.runRow?

def closes (calls : List WriterCall) : ℕ := calls.countP WriterCall.isClose

/-- The status of a run row. -/
def Frame.status (f : Frame) : Option PyValue := f.field "status"

def terminalStatuses : List String := ["complete", "interrupt", "error"]

/-- A run row with a terminal status. -/
def TerminalRunRow (f : Frame) : Prop :=
  f.type = .run ∧ ∃ status ∈ terminalStatuses, f.status = some (.str status)

theorem runRows_append (calls calls' : List WriterCall) :
    runRows (calls ++ calls') = runRows calls ++ runRows calls' := List.filterMap_append

theorem closes_append (calls calls' : List WriterCall) :
    closes (calls ++ calls') = closes calls + closes calls' := List.countP_append

/-- A later state that only adds calls of a kind, and leaves the latch alone. -/
def Grows (kind : WriterCall → Prop) (st st' : RunState) : Prop :=
  ∃ calls, st'.calls = st.calls ++ calls ∧ st'.errored = st.errored ∧ ∀ c ∈ calls, kind c

theorem Grows.refl (kind : WriterCall → Prop) (st : RunState) : Grows kind st st :=
  ⟨[], (List.append_nil _).symm, rfl, fun _ hc => nomatch hc⟩

theorem Grows.trans {kind : WriterCall → Prop} {st st' st'' : RunState} (h : Grows kind st st')
    (h' : Grows kind st' st'') : Grows kind st st'' := by
  obtain ⟨calls, hcalls, herr, hkind⟩ := h
  obtain ⟨calls', hcalls', herr', hkind'⟩ := h'
  refine ⟨calls ++ calls', ?_, herr'.trans herr, ?_⟩
  · rw [hcalls', hcalls, List.append_assoc]
  · intro c hc
    rcases List.mem_append.mp hc with hc | hc
    · exact hkind c hc
    · exact hkind' c hc

theorem Grows.mem {kind : WriterCall → Prop} {st st' : RunState} (h : Grows kind st st')
    (hst : ∀ c ∈ st.calls, kind c) : ∀ c ∈ st'.calls, kind c := by
  obtain ⟨calls, hcalls, _, hkind⟩ := h
  intro c hc
  rw [hcalls] at hc
  rcases List.mem_append.mp hc with hc | hc
  · exact hst c hc
  · exact hkind c hc

theorem Grows.mono {kind kind' : WriterCall → Prop} {st st' : RunState} (h : Grows kind st st')
    (hkind : ∀ c, kind c → kind' c) : Grows kind' st st' := by
  obtain ⟨calls, hcalls, herr, hmem⟩ := h
  exact ⟨calls, hcalls, herr, fun c hc => hkind c (hmem c hc)⟩

theorem Grows.errored_eq {kind : WriterCall → Prop} {st st' : RunState} (h : Grows kind st st') :
    st'.errored = st.errored := by
  obtain ⟨_, _, herr, _⟩ := h
  exact herr

def Appends {α : Type} (kind : WriterCall → Prop) (p : Shell α) : Prop :=
  ∀ st, Grows kind st (p st).2

section Appends

variable {α β : Type} {kind : WriterCall → Prop}

theorem appends_pure (a : α) : Appends kind (pure a : Shell α) := fun st => Grows.refl kind st

theorem appends_raise (exc : PyException) : Appends kind (Effect.raise exc : Shell α) :=
  fun st => Grows.refl kind st

theorem appends_get : Appends kind (Effect.get : Shell RunState) := fun st => Grows.refl kind st

theorem appends_raiseIfAny (raised : Option PyException) : Appends kind (raiseIfAny raised) := by
  cases raised with
  | none => exact appends_pure _
  | some exc => exact appends_raise exc

theorem appends_ite {c : Prop} [Decidable c] {p q : Shell α} (hp : Appends kind p)
    (hq : Appends kind q) : Appends kind (if c then p else q) := by
  by_cases h : c
  · rw [if_pos h]
    exact hp
  · rw [if_neg h]
    exact hq

theorem appends_bind {p : Shell α} {f : α → Shell β} (hp : Appends kind p)
    (hf : ∀ a, Appends kind (f a)) : Appends kind (p >>= f) := by
  intro st
  have hgrows := hp st
  cases hr : p st with
  | mk r st' =>
      rw [hr] at hgrows
      cases r with
      | error e =>
          rw [Effect.bind_of_error hr]
          exact hgrows
      | ok a =>
          rw [Effect.bind_of_ok hr]
          exact hgrows.trans (hf a st')

end Appends

namespace Scenario

variable (s : Scenario)

theorem awaits_of_ne {p : AwaitPoint} (h : s.cancelAt ≠ some p) (st : RunState) :
    s.awaits p st = (.ok (), st) := by
  rw [awaits, if_neg h]
  rfl

theorem awaits_of_eq {p : AwaitPoint} (h : s.cancelAt = some p) (st : RunState) :
    s.awaits p st = (.error .cancelled, st) := by
  rw [awaits, if_pos h]
  rfl

theorem call_of_ne {p : AwaitPoint} (h : s.cancelAt ≠ some p) (c : WriterCall) (st : RunState) :
    s.call p c st = (.ok (), { st with calls := st.calls ++ [c] }) :=
  s.awaits_of_ne h _

theorem call_of_eq {p : AwaitPoint} (h : s.cancelAt = some p) (c : WriterCall) (st : RunState) :
    s.call p c st = (.error .cancelled, { st with calls := st.calls ++ [c] }) :=
  s.awaits_of_eq h _

theorem appends_awaits {kind : WriterCall → Prop} (p : AwaitPoint) :
    Appends kind (s.awaits p) :=
  appends_ite (appends_raise _) (appends_pure _)

theorem appends_call {kind : WriterCall → Prop} (p : AwaitPoint) {c : WriterCall} (hc : kind c) :
    Appends kind (s.call p c) :=
  appends_bind (fun st => ⟨[c], rfl, rfl, by simpa using hc⟩) fun _ => s.appends_awaits p

theorem runFrame_status (status : String) (interrupt : Option PyValue) :
    (s.runFrame status interrupt).status = some (.str status) := by
  simp [runFrame, Frame.status, field_upsertFrame, runRow, OrderedDict.ofEntries,
    OrderedDict.get_setSome]

theorem runRow?_runFrame (status : String) (interrupt : Option PyValue) :
    (WriterCall.frame (s.runFrame status interrupt)).runRow? =
      some (s.runFrame status interrupt) := rfl

/-! ## Before the `try` -/

/-- A call that closes nothing and writes no run row but `running`. -/
def Quiet (c : WriterCall) : Prop :=
  c.isClose = false ∧ ∀ f, c.runRow? = some f → f.status = some (.str "running")

theorem quiet_of_notRun {f : Frame} (h : f.type ≠ .run) : Quiet (.frame f) := by
  refine ⟨rfl, ?_⟩
  intro g hg
  simp [WriterCall.runRow?, h] at hg

theorem quiet_interruptCall (item : String × Row) : Quiet (interruptCall item) :=
  quiet_of_notRun (by simp)

theorem quiet_running : Quiet (.frame (s.runFrame "running" none)) := by
  refine ⟨rfl, ?_⟩
  intro f hf
  rw [← Option.some.inj hf]
  exact s.runFrame_status _ _

theorem quiet_startState (started : Bool) : ∀ c ∈ (s.startState started).calls, Quiet c := by
  cases started with
  | false => exact fun _ hc => nomatch hc
  | true =>
      intro c hc
      simp only [startState, if_true, List.mem_cons, List.not_mem_nil, or_false] at hc
      rcases hc with rfl | rfl
      · exact s.quiet_running
      · exact quiet_of_notRun (by simp)

theorem appends_opening : Appends Quiet s.opening := by
  have hrow : Appends Quiet s.emitRunStartedRow := by
    refine appends_bind appends_get fun st => appends_ite (appends_pure _) ?_
    apply appends_bind (fun st => Grows.refl _ st)
    intro _
    exact appends_bind (s.appends_call _ s.quiet_running) fun _ =>
      s.appends_call _ (quiet_of_notRun (by simp))
  apply appends_bind (appends_ite hrow (appends_pure _))
  intro _
  unfold seedState
  cases s.initialState with
  | none => exact appends_pure _
  | some state => exact s.appends_call _ (quiet_of_notRun (by simp))

/-- A cancellation while the run is announced. -/
def AnnounceCut (started : Bool) : Prop :=
  s.emitRunStarted ∧ started = false ∧
    (s.cancelAt = some .runningRow ∨ s.cancelAt = some .suggestionDelete)

/-- A cancellation before the `try` has been entered. -/
def CutShort (started : Bool) : Prop :=
  s.AnnounceCut started ∨ (s.initialState.isSome ∧ s.cancelAt = some .initialState)

theorem announce_of_cut {started : Bool} (h : s.AnnounceCut started) :
    (s.announce (s.startState started)).1 = .error .cancelled := by
  obtain ⟨hemit, rfl, hcancel⟩ := h
  rw [announce, if_pos hemit]
  rcases hcancel with hc | hc
  · simp [emitRunStartedRow, startState, Effect.bind_apply, setRun, s.call_of_eq hc]
  · have hrow : s.cancelAt ≠ some .runningRow := by simp [hc]
    simp [emitRunStartedRow, startState, Effect.bind_apply, setRun, s.call_of_eq hc,
      s.call_of_ne hrow]

theorem announce_of_not_cut {started : Bool} (h : ¬ s.AnnounceCut started) :
    (s.announce (s.startState started)).1 = .ok () := by
  by_cases hemit : s.emitRunStarted
  · rw [announce, if_pos hemit]
    cases started with
    | true => simp [emitRunStartedRow, startState, Effect.bind_apply]
    | false =>
        have hrow : s.cancelAt ≠ some .runningRow := fun hc => h ⟨hemit, rfl, .inl hc⟩
        have hdelete : s.cancelAt ≠ some .suggestionDelete := fun hc => h ⟨hemit, rfl, .inr hc⟩
        simp [emitRunStartedRow, startState, Effect.bind_apply, setRun, s.call_of_ne hrow,
          s.call_of_ne hdelete]
  · rw [announce, if_neg hemit]
    rfl

theorem seedState_result (st : RunState) :
    (s.seedState st).1 =
      if s.initialState.isSome ∧ s.cancelAt = some .initialState then .error .cancelled
      else .ok () := by
  unfold seedState
  cases s.initialState with
  | none => simp
  | some state =>
      by_cases hc : s.cancelAt = some .initialState
      · simp [s.call_of_eq hc, hc]
      · simp [s.call_of_ne hc, hc]

theorem opening_of_cutShort {started : Bool} (h : s.CutShort started) :
    (s.opening (s.startState started)).1 = .error .cancelled := by
  cases ha : s.announce (s.startState started) with
  | mk r st =>
      by_cases hcut : s.AnnounceCut started
      · have hr := s.announce_of_cut hcut
        rw [ha] at hr
        cases hr
        rw [opening, Effect.bind_of_error ha]
      · have hr := s.announce_of_not_cut hcut
        rw [ha] at hr
        cases hr
        rw [opening, Effect.bind_of_ok ha, seedState_result, if_pos (h.resolve_left hcut)]

theorem opening_of_not_cutShort {started : Bool} (h : ¬ s.CutShort started) :
    (s.opening (s.startState started)).1 = .ok () := by
  have hr := s.announce_of_not_cut fun hcut => h (.inl hcut)
  cases ha : s.announce (s.startState started) with
  | mk r st =>
      rw [ha] at hr
      cases hr
      rw [opening, Effect.bind_of_ok ha, seedState_result, if_neg fun hcut => h (.inr hcut)]

/-! ## The stream -/

/-- What leaves `async with stream`. -/
def leaving : Option PyException :=
  if s.cancelAt = some .enterStream then some .cancelled
  else match s.enter with
    | some exc => some exc
    | none =>
        if s.cancelAt = some .exitStream then some .cancelled
        else match s.exit with
          | .raises exc => some exc
          | .suppresses => none
          | .passes => s.channels

theorem appends_withStream : Appends Quiet s.withStream := by
  have hrows : ∀ c ∈ s.channelRows.frames.map WriterCall.frame, Quiet c := by
    intro c hc
    obtain ⟨f, hf, rfl⟩ := List.mem_map.mp hc
    exact quiet_of_notRun (s.channelRows.notRun f hf)
  apply appends_bind (s.appends_awaits _)
  intro _
  apply appends_bind (appends_raiseIfAny _)
  intro _
  refine appends_bind (fun st => ⟨_, rfl, rfl, hrows⟩) fun _ => ?_
  apply appends_bind (s.appends_awaits _)
  intro _
  cases s.exit with
  | raises exc => exact appends_raise exc
  | suppresses => exact appends_pure _
  | passes => exact appends_raiseIfAny _

theorem withStream_result (st : RunState) :
    (s.withStream st).1 = match s.leaving with
      | some exc => .error exc
      | none => .ok () := by
  by_cases henter : s.cancelAt = some .enterStream
  · rw [withStream, Effect.bind_of_error (s.awaits_of_eq henter st)]
    simp [leaving, henter]
  · rw [withStream, Effect.bind_of_ok (s.awaits_of_ne henter st)]
    cases he : s.enter with
    | some exc => simp [leaving, henter, he, raiseIfAny, Effect.bind_apply]
    | none =>
        by_cases hexit : s.cancelAt = some .exitStream
        · simp [leaving, hexit, he, raiseIfAny, Effect.bind_apply, exitStream,
            s.awaits_of_eq hexit]
        · cases hx : s.exit with
          | raises exc =>
              simp [leaving, henter, hexit, he, hx, raiseIfAny, Effect.bind_apply, exitStream,
                s.awaits_of_ne hexit]
          | suppresses =>
              simp [leaving, henter, hexit, he, hx, raiseIfAny, Effect.bind_apply, exitStream,
                s.awaits_of_ne hexit]
          | passes =>
              cases hc : s.channels with
              | none =>
                  simp [leaving, henter, hexit, he, hx, hc, raiseIfAny, Effect.bind_apply,
                    exitStream, s.awaits_of_ne hexit]
              | some exc =>
                  simp [leaving, henter, hexit, he, hx, hc, raiseIfAny, Effect.bind_apply,
                    exitStream, s.awaits_of_ne hexit]

/-! ## The `except` clauses -/

/-- The row of an aborted run. -/
def errorFrame (message : String) : Frame :=
  s.runFrame "error" (some (.dict [("message", .str message)]))

theorem abortRun_of_cut (hcut : s.cancelAt = some .abortRow) (message : String) {st : RunState}
    (hst : st.errored = false) :
    s.abortRun message st = (.error .cancelled,
      { st with errored := true, calls := st.calls ++ [.frame (s.errorFrame message)] }) := by
  simp [abortRun, hst, Effect.bind_apply, setRun, s.call_of_eq hcut, errorFrame]

/-- Once the row is out, the writer is closed, cancelled or not. -/
theorem abortRun_of_not_cut (hcut : s.cancelAt ≠ some .abortRow) (message : String)
    {st : RunState} (hst : st.errored = false) :
    s.abortRun message st =
      (if s.cancelAt = some .abortClose then .error .cancelled else .ok (),
        { st with
          errored := true
          calls := st.calls ++ [.frame (s.errorFrame message), .close] }) := by
  by_cases hclose : s.cancelAt = some .abortClose
  · simp [abortRun, hst, Effect.bind_apply, setRun, s.call_of_ne hcut, s.call_of_eq hclose,
      errorFrame, hclose]
  · simp [abortRun, hst, Effect.bind_apply, setRun, s.call_of_ne hcut, s.call_of_ne hclose,
      errorFrame, hclose]

/-- The exceptions an `except` clause catches. -/
def Caught (exc : PyException) : Prop := exc.isCancelled ∨ exc.isException

/-- What a caught exception leaves the run with. -/
def abortMessage (exc : PyException) : String :=
  if exc.isCancelled ∨ exc.hasChannelCancelled then "cancelled" else exc.message

def reraised (exc : PyException) : PyException :=
  if exc.hasChannelCancelled then .cancelled else exc

theorem eq_cancelled {exc : PyException} (h : exc.isCancelled) : exc = .cancelled := by
  cases exc with
  | cancelled => rfl
  | _ => cases h

theorem handle_of_caught {exc : PyException} (h : Caught exc) :
    s.handle exc =
      (s.abortRun (abortMessage exc) >>= fun _ => Effect.raise (reraised exc)) := by
  by_cases hc : exc.isCancelled
  · rw [eq_cancelled hc]
    rfl
  · have he : exc.isException := h.resolve_left hc
    by_cases hcc : exc.hasChannelCancelled
    · simp [handle, hc, he, hcc, abortMessage, reraised]
    · simp [handle, hc, he, hcc, abortMessage, reraised]

theorem handle_of_not_caught {exc : PyException} (h : ¬ Caught exc) :
    s.handle exc = Effect.raise exc := by
  have hc : ¬ exc.isCancelled := fun hc => h (.inl hc)
  have he : ¬ exc.isException := fun he => h (.inr he)
  simp [handle, hc, he]

/-! ## The `finally` -/

theorem finalise_of_errored {st : RunState} (hst : st.errored = true) :
    s.finalise st = (.ok (), st) := by
  simp [finalise, Effect.bind_apply, hst]

/-- The rows of the open interrupts, when the stream is paused. -/
def items : List (String × Row) :=
  match s.interrupted, s.interrupts with
  | .ok true, .ok interrupts => agUiInterruptRows s.rt s.uuids s.threadId interrupts
  | _, _ => []

def outcomeFrame : Frame :=
  match s.items with
  | [] => s.runFrame "complete" none
  | item :: _ => s.runFrame "interrupt" (some (.dict item.2.entries))

theorem outcomeFrame_status : s.outcomeFrame.status =
    some (.str (if s.items = [] then "complete" else "interrupt")) := by
  cases hitems : s.items with
  | nil => simp [outcomeFrame, hitems, runFrame_status]
  | cons item items => simp [outcomeFrame, hitems, runFrame_status]

theorem runRow?_outcomeFrame :
    (WriterCall.frame s.outcomeFrame).runRow? = some s.outcomeFrame := by
  cases hitems : s.items with
  | nil => simp only [outcomeFrame, hitems, runRow?_runFrame]
  | cons item items => simp only [outcomeFrame, hitems, runRow?_runFrame]

theorem terminal_runFrame {status : String} (h : status ∈ terminalStatuses)
    (interrupt : Option PyValue) : TerminalRunRow (s.runFrame status interrupt) :=
  ⟨rfl, status, h, s.runFrame_status _ _⟩

theorem terminal_outcomeFrame : TerminalRunRow s.outcomeFrame := by
  unfold outcomeFrame
  cases s.items with
  | nil => exact s.terminal_runFrame (by decide) _
  | cons item items => exact s.terminal_runFrame (by decide) _

/-- The hook, if there is one, neither is cut into nor raises more than an `Exception`. -/
def HookPasses : Prop :=
  ∀ raised, s.preFinish = some raised → s.cancelAt ≠ some .preFinish ∧
    ∀ exc, raised = some exc → exc.isException

/-- The stream answers the queries for open interrupts, uncut. -/
def QueriesPass : Prop :=
  s.cancelAt ≠ some .interrupted ∧ ∃ paused, s.interrupted = .ok paused ∧
    (paused → s.cancelAt ≠ some .interrupts ∧ ∃ interrupts, s.interrupts = .ok interrupts)

/-- Nothing cuts into `_finalise`. -/
structure FinaliseCompletes : Prop where
  hook : s.HookPasses
  queries : s.QueriesPass
  rows : ∀ i < s.items.length, s.cancelAt ≠ some (.interruptRow i)
  finalRow : s.cancelAt ≠ some .finalRow
  finalClose : s.cancelAt ≠ some .finalClose

theorem awaitPreFinish_of_passes (h : s.HookPasses) (st : RunState) :
    s.awaitPreFinish st = (.ok (), st) := by
  unfold awaitPreFinish
  cases hook : s.preFinish with
  | none => rfl
  | some raised =>
      obtain ⟨hcancel, hexc⟩ := h raised hook
      cases raised with
      | none => simp [Effect.catching, Effect.bind_apply, s.awaits_of_ne hcancel, raiseIfAny]
      | some exc =>
          simp [Effect.catching, Effect.bind_apply, s.awaits_of_ne hcancel, raiseIfAny,
            hexc exc rfl]

theorem awaitPreFinish_of_not_passes (h : ¬ s.HookPasses) (st : RunState) :
    ∃ exc, s.awaitPreFinish st = (.error exc, st) := by
  unfold awaitPreFinish
  cases hook : s.preFinish with
  | none => exact absurd (fun _ hr => nomatch hook.symm.trans hr) h
  | some raised =>
      by_cases hcancel : s.cancelAt = some .preFinish
      · exact ⟨.cancelled, by
          simp [Effect.catching, Effect.bind_apply, s.awaits_of_eq hcancel,
            PyException.isException]⟩
      · cases raised with
        | none => exact absurd (fun r hr => by simp_all) h
        | some exc =>
            by_cases hexc : exc.isException
            · exact absurd (fun r hr => by simp_all) h
            · exact ⟨exc, by
                simp [Effect.catching, Effect.bind_apply, s.awaits_of_ne hcancel, raiseIfAny,
                  hexc]⟩

theorem collectInterrupts_of_pass (h : s.QueriesPass) (st : RunState) :
    s.collectInterrupts st = (.ok s.items, st) := by
  obtain ⟨hcancel, paused, hpaused, hqueries⟩ := h
  cases paused with
  | false =>
      simp [collectInterrupts, Effect.bind_apply, s.awaits_of_ne hcancel, hpaused, items]
  | true =>
      obtain ⟨hcancel', interrupts, hinterrupts⟩ := hqueries rfl
      simp [collectInterrupts, Effect.bind_apply, s.awaits_of_ne hcancel, hpaused,
        s.awaits_of_ne hcancel', hinterrupts, items]

theorem collectInterrupts_of_not_pass (h : ¬ s.QueriesPass) (st : RunState) :
    ∃ exc, s.collectInterrupts st = (.error exc, st) := by
  by_cases hcancel : s.cancelAt = some .interrupted
  · exact ⟨.cancelled, by simp [collectInterrupts, Effect.bind_apply, s.awaits_of_eq hcancel]⟩
  · cases hpaused : s.interrupted with
    | error exc =>
        exact ⟨exc, by
          simp [collectInterrupts, Effect.bind_apply, s.awaits_of_ne hcancel, hpaused]⟩
    | ok paused =>
        cases paused with
        | false => exact absurd ⟨hcancel, false, hpaused, fun hp => nomatch hp⟩ h
        | true =>
            by_cases hcancel' : s.cancelAt = some .interrupts
            · exact ⟨.cancelled, by
                simp [collectInterrupts, Effect.bind_apply, s.awaits_of_ne hcancel, hpaused,
                  s.awaits_of_eq hcancel']⟩
            · cases hinterrupts : s.interrupts with
              | error exc =>
                  exact ⟨exc, by
                    simp [collectInterrupts, Effect.bind_apply, s.awaits_of_ne hcancel, hpaused,
                      s.awaits_of_ne hcancel', hinterrupts]⟩
              | ok interrupts =>
                  exact absurd ⟨hcancel, true, hpaused, fun _ => ⟨hcancel', _, hinterrupts⟩⟩ h

theorem upsertInterrupts_of_uncut {i : ℕ} {rows : List (String × Row)}
    (h : ∀ j < rows.length, s.cancelAt ≠ some (.interruptRow (i + j))) (st : RunState) :
    s.upsertInterrupts i rows st =
      (.ok (), { st with calls := st.calls ++ rows.map interruptCall }) := by
  induction rows generalizing i st with
  | nil => simp [upsertInterrupts]
  | cons row rows ih =>
      have hhead : s.cancelAt ≠ some (.interruptRow i) := h 0 (by simp)
      have htail : ∀ j < rows.length, s.cancelAt ≠ some (.interruptRow (i + 1 + j)) := by
        intro j hj
        have hnext := h (j + 1) (by simpa using hj)
        rwa [show i + (j + 1) = i + 1 + j by omega] at hnext
      rw [upsertInterrupts, Effect.bind_of_ok (s.call_of_ne hhead _ st), ih htail]
      simp

theorem upsertInterrupts_of_cut {i : ℕ} {rows : List (String × Row)}
    (h : ∃ j < rows.length, s.cancelAt = some (.interruptRow (i + j))) (st : RunState) :
    (s.upsertInterrupts i rows st).1 = .error .cancelled := by
  induction rows generalizing i st with
  | nil =>
      obtain ⟨j, hj, _⟩ := h
      exact absurd hj (Nat.not_lt_zero j)
  | cons row rows ih =>
      by_cases hhead : s.cancelAt = some (.interruptRow i)
      · rw [upsertInterrupts, Effect.bind_of_error (s.call_of_eq hhead _ st)]
      · rw [upsertInterrupts, Effect.bind_of_ok (s.call_of_ne hhead _ st)]
        obtain ⟨j, hj, hcut⟩ := h
        cases j with
        | zero => exact absurd hcut hhead
        | succ j =>
            refine ih ⟨j, by simpa using hj, ?_⟩ _
            rw [hcut, show i + (j + 1) = i + 1 + j by omega]

theorem writeOutcome_of_uncut (hrows : ∀ i < s.items.length, s.cancelAt ≠ some (.interruptRow i))
    (hfinal : s.cancelAt ≠ some .finalRow) (st : RunState) :
    s.writeOutcome s.items st = (.ok (),
      { st with
        calls := st.calls ++ (s.items.map interruptCall ++ [.frame s.outcomeFrame]) }) := by
  cases hitems : s.items with
  | nil => simp [writeOutcome, setRun, s.call_of_ne hfinal, outcomeFrame, hitems]
  | cons item items =>
      have huncut : ∀ j < (item :: items).length, s.cancelAt ≠ some (.interruptRow (0 + j)) := by
        intro j hj
        rw [Nat.zero_add]
        exact hrows j (by rwa [hitems])
      rw [writeOutcome, Effect.bind_of_ok (s.upsertInterrupts_of_uncut huncut st), setRun,
        s.call_of_ne hfinal, outcomeFrame, hitems]
      simp

theorem writeOutcome_of_cut
    (h : (∃ i < s.items.length, s.cancelAt = some (.interruptRow i)) ∨
      s.cancelAt = some .finalRow) (st : RunState) :
    (s.writeOutcome s.items st).1 = .error .cancelled := by
  by_cases hrows : ∃ i < s.items.length, s.cancelAt = some (.interruptRow i)
  · cases hitems : s.items with
    | nil => simp [hitems] at hrows
    | cons item items =>
        have hcut : (s.upsertInterrupts 0 (item :: items) st).1 = .error .cancelled :=
          s.upsertInterrupts_of_cut (by simpa [hitems] using hrows) st
        rw [writeOutcome]
        cases hr : s.upsertInterrupts 0 (item :: items) st with
        | mk r st' =>
            rw [hr] at hcut
            cases hcut
            rw [Effect.bind_of_error hr]
  · have hfinal := h.resolve_left hrows
    cases hitems : s.items with
    | nil => simp [writeOutcome, setRun, s.call_of_eq hfinal]
    | cons item items =>
        have huncut : ∀ j < (item :: items).length,
            s.cancelAt ≠ some (.interruptRow (0 + j)) := by
          intro j _
          simp [hfinal]
        rw [writeOutcome, Effect.bind_of_ok (s.upsertInterrupts_of_uncut huncut st), setRun,
          s.call_of_eq hfinal]

/-- The terminal row follows the interrupt rows, and the writer is closed after it. -/
theorem finalise_of_completes (h : s.FinaliseCompletes) {st : RunState}
    (hst : st.errored = false) :
    s.finalise st = (.ok (),
      { st with
        calls := st.calls ++
          (s.items.map interruptCall ++ [.frame s.outcomeFrame, .close]) }) := by
  have hget : (Effect.get : Shell RunState) st = (.ok st, st) := rfl
  rw [finalise, Effect.bind_of_ok hget, if_neg (by simp [hst]),
    Effect.bind_of_ok (s.awaitPreFinish_of_passes h.hook st),
    Effect.bind_of_ok (s.collectInterrupts_of_pass h.queries st),
    Effect.bind_of_ok (s.writeOutcome_of_uncut h.rows h.finalRow st),
    s.call_of_ne h.finalClose]
  simp

theorem finalise_of_not_completes (h : ¬ s.FinaliseCompletes) {st : RunState}
    (hst : st.errored = false) : ∃ exc, (s.finalise st).1 = .error exc := by
  have hget : (Effect.get : Shell RunState) st = (.ok st, st) := rfl
  rw [finalise, Effect.bind_of_ok hget, if_neg (by simp [hst])]
  by_cases hhook : s.HookPasses
  · rw [Effect.bind_of_ok (s.awaitPreFinish_of_passes hhook st)]
    by_cases hqueries : s.QueriesPass
    · rw [Effect.bind_of_ok (s.collectInterrupts_of_pass hqueries st)]
      by_cases hcut : (∃ i < s.items.length, s.cancelAt = some (.interruptRow i)) ∨
          s.cancelAt = some .finalRow
      · have hr := s.writeOutcome_of_cut hcut st
        cases hw : s.writeOutcome s.items st with
        | mk r st' =>
            rw [hw] at hr
            cases hr
            rw [Effect.bind_of_error hw]
            exact ⟨_, rfl⟩
      · have hrows : ∀ i < s.items.length, s.cancelAt ≠ some (.interruptRow i) :=
          fun i hi hc => hcut (.inl ⟨i, hi, hc⟩)
        have hfinal : s.cancelAt ≠ some .finalRow := fun hc => hcut (.inr hc)
        have hclose : s.cancelAt = some .finalClose := by
          by_contra hne
          exact h ⟨hhook, hqueries, hrows, hfinal, hne⟩
        rw [Effect.bind_of_ok (s.writeOutcome_of_uncut hrows hfinal st), s.call_of_eq hclose]
        exact ⟨_, rfl⟩
    · obtain ⟨exc, hexc⟩ := s.collectInterrupts_of_not_pass hqueries st
      rw [Effect.bind_of_error hexc]
      exact ⟨exc, rfl⟩
  · obtain ⟨exc, hexc⟩ := s.awaitPreFinish_of_not_passes hhook st
    rw [Effect.bind_of_error hexc]
    exact ⟨exc, rfl⟩

/-- A call that writes no run row but that of the outcome. -/
def OnlyOutcome (c : WriterCall) : Prop := ∀ f, c.runRow? = some f → f = s.outcomeFrame

/-- A call that writes no run row with the status `error`. -/
def NotError (c : WriterCall) : Prop :=
  ∀ f, c.runRow? = some f → f.status ≠ some (.str "error")

theorem notError_of_onlyOutcome {c : WriterCall} (h : s.OnlyOutcome c) : NotError c := by
  intro f hf
  rw [h f hf, outcomeFrame_status]
  split_ifs
  · simp
  · simp

theorem onlyOutcome_interruptCall (item : String × Row) :
    s.OnlyOutcome (interruptCall item) := fun _ hf => nomatch hf

theorem onlyOutcome_close : s.OnlyOutcome .close := fun _ hf => nomatch hf

theorem appends_upsertInterrupts (i : ℕ) (rows : List (String × Row)) :
    Appends s.OnlyOutcome (s.upsertInterrupts i rows) := by
  induction rows generalizing i with
  | nil => exact appends_pure _
  | cons row rows ih =>
      exact appends_bind (s.appends_call _ (s.onlyOutcome_interruptCall row)) fun _ => ih _

theorem appends_writeOutcome : Appends s.OnlyOutcome (s.writeOutcome s.items) := by
  cases hitems : s.items with
  | nil =>
      apply s.appends_call _
      intro f hf
      rw [← Option.some.inj hf, outcomeFrame, hitems]
  | cons item items =>
      refine appends_bind (s.appends_upsertInterrupts _ _) fun _ => s.appends_call _ ?_
      intro f hf
      rw [← Option.some.inj hf, outcomeFrame, hitems]

/-- `_finalise` writes no run row but that of the outcome, whatever cuts into it. -/
theorem appends_finalise : Appends s.OnlyOutcome s.finalise := by
  intro st
  by_cases hst : st.errored = true
  · rw [s.finalise_of_errored hst]
    exact Grows.refl _ st
  · have hget : (Effect.get : Shell RunState) st = (.ok st, st) := rfl
    rw [finalise, Effect.bind_of_ok hget, if_neg hst]
    by_cases hhook : s.HookPasses
    · rw [Effect.bind_of_ok (s.awaitPreFinish_of_passes hhook st)]
      by_cases hqueries : s.QueriesPass
      · rw [Effect.bind_of_ok (s.collectInterrupts_of_pass hqueries st)]
        exact appends_bind s.appends_writeOutcome
          (fun _ => s.appends_call _ s.onlyOutcome_close) st
      · obtain ⟨exc, hexc⟩ := s.collectInterrupts_of_not_pass hqueries st
        rw [Effect.bind_of_error hexc]
        exact Grows.refl _ st
    · obtain ⟨exc, hexc⟩ := s.awaitPreFinish_of_not_passes hhook st
      rw [Effect.bind_of_error hexc]
      exact Grows.refl _ st

/-! ## The `try` statement -/

/-- The state in which the stream has been left. -/
theorem withStream_spec {st : RunState} (hquiet : ∀ c ∈ st.calls, Quiet c)
    (hst : st.errored = false) :
    ∃ st' : RunState, (∀ c ∈ st'.calls, Quiet c) ∧ st'.errored = false ∧
      s.withStream st = (match s.leaving with
        | some exc => .error exc
        | none => .ok (), st') := by
  have hgrows := s.appends_withStream st
  refine ⟨(s.withStream st).2, hgrows.mem hquiet, hgrows.errored_eq.trans hst, ?_⟩
  rw [← s.withStream_result st]

/-- Nothing leaves the stream, and nothing cuts into `_finalise`. -/
theorem guarded_of_none (hleaving : s.leaving = none) (hcompletes : s.FinaliseCompletes)
    {st : RunState} (hquiet : ∀ c ∈ st.calls, Quiet c) (hst : st.errored = false) :
    ∃ st' : RunState, (∀ c ∈ st'.calls, Quiet c) ∧ s.guarded st = (.ok (),
      { st' with
        calls := st'.calls ++
          (s.items.map interruptCall ++ [.frame s.outcomeFrame, .close]) }) := by
  obtain ⟨st', hquiet', hst', hstream⟩ := s.withStream_spec hquiet hst
  rw [hleaving] at hstream
  exact ⟨st', hquiet', Effect.withFinally_of_ok (Effect.catching_of_ok s.handle hstream)
    (s.finalise_of_completes hcompletes hst')⟩

/-- An exception leaves the stream, is caught, and its row is written uncut. -/
theorem guarded_of_caught {exc : PyException} (hleaving : s.leaving = some exc)
    (hcaught : Caught exc) (hcut : s.cancelAt ≠ some .abortRow) {st : RunState}
    (hquiet : ∀ c ∈ st.calls, Quiet c) (hst : st.errored = false) :
    ∃ st' : RunState, (∀ c ∈ st'.calls, Quiet c) ∧ s.guarded st =
      (.error (if s.cancelAt = some .abortClose then .cancelled else reraised exc),
        { st' with
          errored := true
          calls := st'.calls ++ [.frame (s.errorFrame (abortMessage exc)), .close] }) := by
  obtain ⟨st', hquiet', hst', hstream⟩ := s.withStream_spec hquiet hst
  rw [hleaving] at hstream
  have hcatch := Effect.catching_of_error s.handle hstream
  have habort := s.abortRun_of_not_cut hcut (abortMessage exc) hst'
  rw [s.handle_of_caught hcaught] at hcatch
  refine ⟨st', hquiet', ?_⟩
  by_cases hclose : s.cancelAt = some .abortClose
  · rw [if_pos hclose] at habort ⊢
    rw [Effect.bind_of_error habort] at hcatch
    exact Effect.withFinally_of_ok hcatch (s.finalise_of_errored rfl)
  · rw [if_neg hclose] at habort ⊢
    rw [Effect.bind_of_ok habort] at hcatch
    exact Effect.withFinally_of_ok hcatch (s.finalise_of_errored rfl)

/-- A run that does not reach its `try`. -/
theorem run_of_cutShort {started : Bool} (h : s.CutShort started) :
    ∃ st : RunState, (∀ c ∈ st.calls, Quiet c) ∧
      s.run (s.startState started) = (.error .cancelled, st) := by
  have hopened := s.appends_opening (s.startState started)
  refine ⟨(s.opening (s.startState started)).2, hopened.mem (s.quiet_startState started), ?_⟩
  exact Effect.bind_of_error (Prod.ext (s.opening_of_cutShort h) rfl)

/-- A run that reaches its `try`. -/
theorem run_of_not_cutShort {started : Bool} (h : ¬ s.CutShort started) :
    ∃ st : RunState, (∀ c ∈ st.calls, Quiet c) ∧ st.errored = false ∧
      s.run (s.startState started) = s.guarded st := by
  have hopened := s.appends_opening (s.startState started)
  refine ⟨(s.opening (s.startState started)).2, hopened.mem (s.quiet_startState started),
    hopened.errored_eq, ?_⟩
  exact Effect.bind_of_ok (Prod.ext (s.opening_of_not_cutShort h) rfl)

end Scenario

end StreamDB
