import StreamDB.Producer
import StreamDB.RunSteps

/-!
# A run over a queue writer

`StateTranslator.run` with a `QueueStateWriter`, whose `put` never suspends: the run's task gives
way where it waits for the stream, the hook and the channels, and nowhere between the calls of the
writer. Alone it does what `Scenario.run` does. It closes its writer in the block it ends in.
-/

namespace StreamDB

/-- The two latches of a translator that `run` reads. -/
structure Latches where
  errored : Bool
  runStarted : Bool

abbrev Driver := Producer Latches WriterCall PyException

namespace Driver

def raiseIfAny : Option PyException → Driver Unit
  | some exc => Producer.raise exc
  | none => pure ()

variable (s : Scenario)

def setRun (status : String) (interrupt : Option PyValue) : Driver Unit :=
  Producer.emit (.frame (s.runFrame status interrupt))

def emitRunStartedRow : Driver Unit := do
  let latches ← Producer.get
  if latches.runStarted then pure ()
  else do
    Producer.modify fun latches => { latches with runStarted := true }
    setRun s "running" none
    Producer.emit (.frame (deleteFrame .suggestion s.threadId))

def announce : Driver Unit :=
  if s.emitRunStarted then emitRunStartedRow s else pure ()

def seedState : Driver Unit :=
  match s.initialState with
  | none => pure ()
  | some state => Producer.emit
      (.frame (upsertFrame .agentState s.threadId
        ((OrderedDict.ofEntries [("id", .str s.threadId)]).update state) none))

/-- The rows of the channels, put while the run waits for these. -/
def writeRows : List Frame → Driver Unit
  | [] => pure ()
  | f :: fs => do
      Producer.suspend
      Producer.emit (.frame f)
      writeRows fs

def joinChannels : Driver Unit := do
  writeRows s.channelRows.frames
  Producer.suspend
  raiseIfAny s.channels

def exitStream (left : Except PyException Unit) : Driver Unit := do
  Producer.suspend
  match s.exit with
  | .raises exc => Producer.raise exc
  | .suppresses => pure ()
  | .passes => Producer.ofExcept left

def withStream : Driver Unit := do
  Producer.suspend
  raiseIfAny s.enter
  let left ← (joinChannels s).attempt
  exitStream s left

def abortRun (message : String) : Driver Unit := do
  let latches ← Producer.get
  if latches.errored then pure ()
  else do
    Producer.modify fun latches => { latches with errored := true }
    setRun s "error" (some (.dict [("message", .str message)]))
    Producer.emit .close

def handle (exc : PyException) : Driver Unit :=
  if exc.isCancelled then do
    abortRun s "cancelled"
    Producer.raise exc
  else if exc.isException then
    if exc.hasChannelCancelled then do
      abortRun s "cancelled"
      Producer.raise .cancelled
    else do
      abortRun s exc.message
      Producer.raise exc
  else Producer.raise exc

def awaitPreFinish : Driver Unit :=
  match s.preFinish with
  | none => pure ()
  | some raised =>
      Producer.catching
        (do
          Producer.suspend
          raiseIfAny raised)
        fun exc => if exc.isException then pure () else Producer.raise exc

def collectInterrupts : Driver (List (String × Row)) := do
  Producer.suspend
  let paused ← Producer.ofExcept s.interrupted
  if paused then do
    Producer.suspend
    let interrupts ← Producer.ofExcept s.interrupts
    pure (agUiInterruptRows s.rt s.uuids s.threadId interrupts)
  else pure []

def upsertInterrupts : List (String × Row) → Driver Unit
  | [] => pure ()
  | item :: items => do
      Producer.emit (Scenario.interruptCall item)
      upsertInterrupts items

def writeOutcome (items : List (String × Row)) : Driver Unit :=
  match items with
  | [] => setRun s "complete" none
  | item :: _ => do
      upsertInterrupts items
      setRun s "interrupt" (some (.dict item.2.entries))

def finalise : Driver Unit := do
  let latches ← Producer.get
  if latches.errored then pure ()
  else do
    awaitPreFinish s
    let items ← collectInterrupts s
    writeOutcome s items
    Producer.emit .close

def opening : Driver Unit := do
  announce s
  seedState s

def guarded : Driver Unit :=
  Producer.withFinally (Producer.catching (withStream s) (handle s)) (finalise s)

def run : Driver Unit := do
  opening s
  guarded s

/-- The background task of `iter_state_rows`, which has been created but has not run yet. -/
def drive : Driver Unit := do
  Producer.suspend
  run s

end Driver

/-! ## What the run does alone -/

def Latches.runState (latches : Latches) (calls : List WriterCall) : RunState :=
  ⟨latches.errored, latches.runStarted, calls⟩

/-- How a run ends, by how its producer does. -/
def runEnd {α : Type} (r : Except PyException α × Latches × List WriterCall) :
    Except PyException α × RunState :=
  (r.1, r.2.1.runState r.2.2)

/-- Resumed whenever it waits, the producer ends like the program and makes its calls. -/
def Mirrors {α : Type} (p : Driver α) (q : Shell α) : Prop :=
  ∀ latches calls, q (latches.runState calls) = runEnd (p.alone latches calls)

section Mirrors

variable {α β : Type} {p : Driver α} {q : Shell α}

theorem mirrors_pure (a : α) : Mirrors (pure a : Driver α) (pure a) := fun _ _ => rfl

theorem mirrors_raise (exc : PyException) :
    Mirrors (Producer.raise exc : Driver α) (Effect.raise exc) := fun _ _ => rfl

theorem mirrors_ofExcept (r : Except PyException α) :
    Mirrors (Producer.ofExcept r : Driver α) (Effect.ofExcept r) := fun _ _ => rfl

theorem mirrors_raiseIfAny (raised : Option PyException) :
    Mirrors (Driver.raiseIfAny raised) (raiseIfAny raised) := by
  cases raised with
  | none => exact mirrors_pure ()
  | some exc => exact mirrors_raise exc

/-- A program that goes on with the end of `q`, and a producer that goes on with that of `p`. -/
theorem mirrors_andThen {f : Except PyException α → Driver β} {q' : Shell β} (hp : Mirrors p q)
    (hf : ∀ st r latches calls, q st = (r, latches.runState calls) →
      q' st = runEnd ((f r).alone latches calls)) : Mirrors (p.andThen f) q' := by
  intro latches calls
  rw [Producer.alone_andThen]
  exact hf _ _ _ _ (hp latches calls)

theorem mirrors_bind {f : α → Driver β} {g : α → Shell β} (hp : Mirrors p q)
    (hf : ∀ a, Mirrors (f a) (g a)) : Mirrors (p >>= f) (q >>= g) := by
  refine mirrors_andThen hp fun st r latches calls h => ?_
  cases r with
  | ok a => exact (Effect.bind_of_ok h).trans (hf a latches calls)
  | error e => exact Effect.bind_of_error h

theorem mirrors_get_bind {f : Latches → Driver β} {g : RunState → Shell β}
    (hf : ∀ latches calls, Mirrors (f latches) (g (latches.runState calls))) :
    Mirrors (Producer.get >>= f) (Effect.get >>= g) :=
  fun latches calls => hf latches calls latches calls

theorem mirrors_ite {c : Prop} [Decidable c] {p' : Driver α} {q' : Shell α} (hp : Mirrors p q)
    (hp' : Mirrors p' q') : Mirrors (if c then p else p') (if c then q else q') := by
  by_cases h : c
  · rw [if_pos h, if_pos h]
    exact hp
  · rw [if_neg h, if_neg h]
    exact hp'

theorem mirrors_catching {handler : PyException → Driver α}
    {handler' : PyException → Shell α} (hp : Mirrors p q)
    (hhandler : ∀ e, Mirrors (handler e) (handler' e)) :
    Mirrors (p.catching handler) (Effect.catching q handler') := by
  refine mirrors_andThen hp fun st r latches calls h => ?_
  cases r with
  | ok a => exact Effect.catching_of_ok handler' h
  | error e => exact (Effect.catching_of_error handler' h).trans (hhandler e latches calls)

theorem mirrors_withFinally {last : Driver Unit} {last' : Shell Unit} (hp : Mirrors p q)
    (hlast : Mirrors last last') :
    Mirrors (p.withFinally last) (Effect.withFinally q last') := by
  refine mirrors_andThen hp fun st r latches calls h => ?_
  rw [Effect.withFinally, h, hlast latches calls, Producer.alone_andThen]
  obtain ⟨r', latches', calls'⟩ := last.alone latches calls
  cases r' with
  | ok a => rfl
  | error e => rfl

end Mirrors

namespace Driver

variable {s : Scenario}

theorem mirrors_awaits (h : s.cancelAt = none) (p : AwaitPoint) :
    Mirrors Producer.suspend (s.awaits p) := by
  intro latches calls
  rw [s.awaits_of_ne (by simp [h])]
  rfl

theorem mirrors_call (h : s.cancelAt = none) (p : AwaitPoint) (c : WriterCall) :
    Mirrors (Producer.emit c) (s.call p c) := by
  intro latches calls
  rw [s.call_of_ne (by simp [h])]
  rfl

theorem mirrors_announce (h : s.cancelAt = none) : Mirrors (announce s) s.announce := by
  apply mirrors_ite
  · refine mirrors_get_bind fun latches calls => mirrors_ite (mirrors_pure ()) ?_
    refine mirrors_bind (fun _ _ => rfl) fun _ => ?_
    exact mirrors_bind (mirrors_call h _ _) fun _ => mirrors_call h _ _
  · exact mirrors_pure ()

theorem mirrors_seedState (h : s.cancelAt = none) : Mirrors (seedState s) s.seedState := by
  unfold seedState Scenario.seedState
  cases s.initialState with
  | none => exact mirrors_pure ()
  | some state => exact mirrors_call h _ _

theorem alone_writeRows (frames : List Frame) (latches : Latches) (calls : List WriterCall) :
    (writeRows frames).alone latches calls = (.ok (), latches, calls ++ frames.map .frame) := by
  induction frames generalizing calls with
  | nil =>
      rw [List.map_nil, List.append_nil]
      rfl
  | cons f fs ih =>
      rw [List.map_cons, List.append_cons]
      exact ih (calls ++ [.frame f])

/-- How the channels leave their group. -/
def channelsLeft (s : Scenario) : Except PyException Unit :=
  match s.channels with
  | some exc => .error exc
  | none => .ok ()

theorem alone_joinChannels (latches : Latches) (calls : List WriterCall) :
    (joinChannels s).alone latches calls =
      (channelsLeft s, latches, calls ++ s.channelRows.frames.map .frame) := by
  refine (Producer.alone_andThen _ _ latches calls).trans ?_
  rw [alone_writeRows]
  change (Producer.suspend >>= fun _ => raiseIfAny s.channels : Driver Unit).alone _ _ = _
  rw [channelsLeft]
  cases s.channels with
  | none => rfl
  | some exc => rfl

theorem mirrors_exitStream (h : s.cancelAt = none) :
    Mirrors (exitStream s (channelsLeft s)) s.exitStream := by
  refine mirrors_bind (mirrors_awaits h _) fun _ => ?_
  cases s.exit with
  | raises exc => exact mirrors_raise exc
  | suppresses => exact mirrors_pure ()
  | passes =>
      rw [channelsLeft]
      cases s.channels with
      | none => exact mirrors_pure ()
      | some exc => exact mirrors_raise exc

theorem mirrors_withStream (h : s.cancelAt = none) : Mirrors (withStream s) s.withStream := by
  refine mirrors_bind (mirrors_awaits h _) fun _ => mirrors_bind (mirrors_raiseIfAny _) fun _ => ?_
  intro latches calls
  have hleft : ((joinChannels s).attempt.alone latches calls) =
      (.ok (channelsLeft s), latches, calls ++ s.channelRows.frames.map .frame) := by
    rw [Producer.attempt, Producer.alone_andThen, alone_joinChannels]
    rfl
  have hexit : ((joinChannels s).attempt >>= exitStream s).alone latches calls =
      (exitStream s (channelsLeft s)).alone latches
        (calls ++ s.channelRows.frames.map .frame) := by
    refine (Producer.alone_andThen _ _ latches calls).trans ?_
    rw [hleft]
  rw [runEnd, hexit]
  exact mirrors_exitStream h latches (calls ++ s.channelRows.frames.map .frame)

theorem mirrors_abortRun (h : s.cancelAt = none) (message : String) :
    Mirrors (abortRun s message) (s.abortRun message) := by
  refine mirrors_get_bind fun latches calls => mirrors_ite (mirrors_pure ()) ?_
  refine mirrors_bind (fun _ _ => rfl) fun _ => ?_
  exact mirrors_bind (mirrors_call h _ _) fun _ => mirrors_call h _ _

theorem mirrors_handle (h : s.cancelAt = none) (exc : PyException) :
    Mirrors (handle s exc) (s.handle exc) := by
  apply mirrors_ite
  · exact mirrors_bind (mirrors_abortRun h _) fun _ => mirrors_raise _
  · apply mirrors_ite
    · apply mirrors_ite
      · exact mirrors_bind (mirrors_abortRun h _) fun _ => mirrors_raise _
      · exact mirrors_bind (mirrors_abortRun h _) fun _ => mirrors_raise _
    · exact mirrors_raise _

theorem mirrors_awaitPreFinish (h : s.cancelAt = none) :
    Mirrors (awaitPreFinish s) s.awaitPreFinish := by
  unfold awaitPreFinish Scenario.awaitPreFinish
  cases s.preFinish with
  | none => exact mirrors_pure ()
  | some raised =>
      apply mirrors_catching
      · exact mirrors_bind (mirrors_awaits h _) fun _ => mirrors_raiseIfAny _
      · exact fun exc => mirrors_ite (mirrors_pure ()) (mirrors_raise _)

theorem mirrors_collectInterrupts (h : s.cancelAt = none) :
    Mirrors (collectInterrupts s) s.collectInterrupts := by
  refine mirrors_bind (mirrors_awaits h _) fun _ => ?_
  refine mirrors_bind (mirrors_ofExcept _) fun paused => ?_
  apply mirrors_ite
  · refine mirrors_bind (mirrors_awaits h _) fun _ => ?_
    exact mirrors_bind (mirrors_ofExcept _) fun interrupts => mirrors_pure _
  · exact mirrors_pure _

theorem mirrors_upsertInterrupts (h : s.cancelAt = none) (items : List (String × Row)) (i : ℕ) :
    Mirrors (upsertInterrupts items) (s.upsertInterrupts i items) := by
  induction items generalizing i with
  | nil => exact mirrors_pure ()
  | cons item items ih => exact mirrors_bind (mirrors_call h _ _) fun _ => ih (i + 1)

theorem mirrors_writeOutcome (h : s.cancelAt = none) (items : List (String × Row)) :
    Mirrors (writeOutcome s items) (s.writeOutcome items) := by
  cases items with
  | nil => exact mirrors_call h _ _
  | cons item items =>
      exact mirrors_bind (mirrors_upsertInterrupts h _ 0) fun _ => mirrors_call h _ _

theorem mirrors_finalise (h : s.cancelAt = none) : Mirrors (finalise s) s.finalise := by
  refine mirrors_get_bind fun latches calls => mirrors_ite (mirrors_pure ()) ?_
  refine mirrors_bind (mirrors_awaitPreFinish h) fun _ => ?_
  refine mirrors_bind (mirrors_collectInterrupts h) fun items => ?_
  exact mirrors_bind (mirrors_writeOutcome h items) fun _ => mirrors_call h _ _

/-- A run that nobody cancels makes the calls of `Scenario.run` and ends like it. -/
theorem mirrors_run (h : s.cancelAt = none) : Mirrors (run s) s.run := by
  refine mirrors_bind (mirrors_bind (mirrors_announce h) fun _ => mirrors_seedState h) fun _ => ?_
  exact mirrors_withFinally (mirrors_catching (mirrors_withStream h) (mirrors_handle h))
    (mirrors_finalise h)

end Driver

end StreamDB
