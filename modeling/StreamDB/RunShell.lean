import StreamDB.CounterInvariant
import StreamDB.Effect
import StreamDB.Interrupts

/-!
# The shell of a run

`StateTranslator.run` around its channel phase: the `running` row, the seeded state, the stream's
context manager, the two `except` clauses with `_abort_run`, and `_finalise` in the `finally`. A
`Scenario` fixes what the stream, the channels, the hook and the writer do to one run, and where
a cancellation of the run's task is delivered, if there is one outside the channel phase.
-/

namespace StreamDB

/-- The awaits of the run's task outside the channel phase. -/
inductive AwaitPoint where
  | runningRow
  | suggestionDelete
  | initialState
  | enterStream
  | exitStream
  | abortRow
  | abortClose
  | preFinish
  | interrupted
  | interrupts
  | interruptRow (i : ℕ)
  | finalRow
  | finalClose
  deriving DecidableEq

/-- What the stream's `__aexit__` does. -/
inductive StreamExit where
  | passes
  | suppresses
  | raises (exc : PyException)

/-- The rows the channels write, none of which is a run row. -/
structure ChannelRows where
  frames : List Frame
  notRun : ∀ f ∈ frames, f.type ≠ .run

def ChannelRows.empty : ChannelRows := ⟨[], by simp⟩

/-- The rows of a state the channel tasks can reach. -/
def ChannelRows.ofReaches {rt : Runtime} {threadId runId summaryPrefix : String} {s t : ℤ}
    {activities : List Activity} {c : System}
    (h : Coroutine.Reaches Coroutine.anyStep
      (startSystem rt (Translator.seeded threadId runId summaryPrefix s t) activities) c) :
    ChannelRows :=
  ⟨c.state.frames, (counted_of_reaches h).notRun⟩

structure Scenario where
  rt : Runtime
  threadId : String
  runId : String
  runRowId : String
  emitRunStarted : Bool
  initialState : Option Entries
  /-- A hook, with what it raises. -/
  preFinish : Option (Option PyException)
  enter : Option PyException
  /-- What leaves the task group of the channels. -/
  channels : Option PyException
  channelRows : ChannelRows
  exit : StreamExit
  interrupted : Except PyException Bool
  interrupts : Except PyException (List Interrupt)
  uuids : ℕ
  cancelAt : Option AwaitPoint

inductive WriterCall where
  | frame (f : Frame)
  | close

structure RunState where
  errored : Bool
  runStarted : Bool
  calls : List WriterCall

abbrev Shell := Effect RunState PyException

def raiseIfAny : Option PyException → Shell Unit
  | some exc => Effect.raise exc
  | none => pure ()

namespace Scenario

variable (s : Scenario)

def awaits (p : AwaitPoint) : Shell Unit :=
  if s.cancelAt = some p then Effect.raise .cancelled else pure ()

/-- A call of the writer is made before its await can be cancelled. -/
def call (p : AwaitPoint) (c : WriterCall) : Shell Unit := do
  Effect.modify fun st => { st with calls := st.calls ++ [c] }
  s.awaits p

def runRow (status : String) (interrupt : Option PyValue) : Row :=
  (OrderedDict.ofEntries
    [("id", .str s.runRowId), ("threadId", .str s.threadId), ("runId", .str s.runId),
      ("status", .str status)]).setSome "interrupt" interrupt

def runFrame (status : String) (interrupt : Option PyValue) : Frame :=
  upsertFrame .run s.runRowId (s.runRow status interrupt) none

def setRun (p : AwaitPoint) (status : String) (interrupt : Option PyValue) : Shell Unit :=
  s.call p (.frame (s.runFrame status interrupt))

def emitRunStartedRow : Shell Unit := do
  let st ← Effect.get
  if st.runStarted then pure ()
  else do
    Effect.modify fun st => { st with runStarted := true }
    s.setRun .runningRow "running" none
    s.call .suggestionDelete (.frame (deleteFrame .suggestion s.threadId))

def seedState : Shell Unit :=
  match s.initialState with
  | none => pure ()
  | some state => s.call .initialState
      (.frame (upsertFrame .agentState s.threadId
        ((OrderedDict.ofEntries [("id", .str s.threadId)]).update state) none))

def exitStream : Shell Unit := do
  s.awaits .exitStream
  match s.exit with
  | .raises exc => Effect.raise exc
  | .suppresses => pure ()
  | .passes => raiseIfAny s.channels

/-- `async with stream`, with the channel phase in it. -/
def withStream : Shell Unit := do
  s.awaits .enterStream
  raiseIfAny s.enter
  Effect.modify fun st => { st with calls := st.calls ++ s.channelRows.frames.map .frame }
  s.exitStream

def abortRun (message : String) : Shell Unit := do
  let st ← Effect.get
  if st.errored then pure ()
  else do
    Effect.modify fun st => { st with errored := true }
    s.setRun .abortRow "error" (some (.dict [("message", .str message)]))
    s.call .abortClose .close

/-- The `except` clauses. -/
def handle (exc : PyException) : Shell Unit :=
  if exc.isCancelled then do
    s.abortRun "cancelled"
    Effect.raise exc
  else if exc.isException then
    if exc.hasChannelCancelled then do
      s.abortRun "cancelled"
      Effect.raise .cancelled
    else do
      s.abortRun exc.message
      Effect.raise exc
  else Effect.raise exc

def awaitPreFinish : Shell Unit :=
  match s.preFinish with
  | none => pure ()
  | some raised =>
      Effect.catching
        (do
          s.awaits .preFinish
          raiseIfAny raised)
        fun exc => if exc.isException then pure () else Effect.raise exc

def collectInterrupts : Shell (List (String × Row)) := do
  s.awaits .interrupted
  let paused ← Effect.ofExcept s.interrupted
  if paused then do
    s.awaits .interrupts
    let interrupts ← Effect.ofExcept s.interrupts
    pure (agUiInterruptRows s.rt s.uuids s.threadId interrupts)
  else pure []

def interruptCall (item : String × Row) : WriterCall :=
  .frame (upsertFrame .interrupt item.1 item.2 none)

def upsertInterrupts : ℕ → List (String × Row) → Shell Unit
  | _, [] => pure ()
  | i, item :: items => do
      s.call (.interruptRow i) (interruptCall item)
      upsertInterrupts (i + 1) items

def writeOutcome (items : List (String × Row)) : Shell Unit :=
  match items with
  | [] => s.setRun .finalRow "complete" none
  | item :: _ => do
      s.upsertInterrupts 0 items
      s.setRun .finalRow "interrupt" (some (.dict item.2.entries))

def finalise : Shell Unit := do
  let st ← Effect.get
  if st.errored then pure ()
  else do
    s.awaitPreFinish
    let items ← s.collectInterrupts
    s.writeOutcome items
    s.call .finalClose .close

def announce : Shell Unit :=
  if s.emitRunStarted then s.emitRunStartedRow else pure ()

/-- What `run` does before its `try`. -/
def opening : Shell Unit := do
  s.announce
  s.seedState

/-- Its `try` statement. -/
def guarded : Shell Unit :=
  Effect.withFinally (Effect.catching s.withStream s.handle) s.finalise

def run : Shell Unit := do
  s.opening
  s.guarded

/-- A translator as constructed, or one whose `emit_run_started` has been called already. -/
def startState (started : Bool) : RunState where
  errored := false
  runStarted := started
  calls := if started then
    [.frame (s.runFrame "running" none), .frame (deleteFrame .suggestion s.threadId)] else []

/-- A run over an empty stream that nothing disturbs. -/
def calm : Scenario where
  rt := plainRuntime
  threadId := "t"
  runId := "r"
  runRowId := StreamDB.runRowId
  emitRunStarted := true
  initialState := none
  preFinish := none
  enter := none
  channels := none
  channelRows := .empty
  exit := .passes
  interrupted := .ok false
  interrupts := .ok []
  uuids := 0
  cancelAt := none

end Scenario

end StreamDB
