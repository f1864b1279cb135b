import StreamDB.Coroutine
import StreamDB.Exceptions
import StreamDB.FirstSeen
import StreamDB.Interrupts
import StreamDB.StateProtocol

/-!
# The translator's state and its synchronous methods

`Translator` holds the instance fields of `StateTranslator`. `World` adds what its tasks share
besides: the frames handed to the writer so far, the readings of the uuid source and of the
clock, and how many items of each projection the run stream has made available. A `Task` may
suspend after every writer call, for as long as the scheduler likes.
-/

namespace StreamDB

open Coroutine

structure Translator where
  threadId : String
  runId : String
  runRowId : String
  summaryPrefix : String
  ordinal : ℤ
  ordinals : OrderedDict String ℤ
  orderSeq : ℤ
  orderByKey : OrderedDict String ℤ
  errored : Bool
  runStarted : Bool
  subagentToolCall : OrderedDict String String
  /-- Which subagents have an event, and whether it is set. -/
  subagentReady : OrderedDict String Bool
  subagentOrdinal : OrderedDict String ℤ
  subagentMsgOrdinal : OrderedDict String (OrderedDict String ℤ)
  emittedTexts : OrderedDict String String
  userMessageIds : List String
  emittedToolCallIds : List String

namespace Translator

def init (threadId runId summaryPrefix : String) : Translator where
  threadId := threadId
  runId := runId
  runRowId := StreamDB.runRowId
  summaryPrefix := summaryPrefix
  ordinal := 0
  ordinals := .empty
  orderSeq := 0
  orderByKey := .empty
  errored := false
  runStarted := false
  subagentToolCall := .empty
  subagentReady := .empty
  subagentOrdinal := .empty
  subagentMsgOrdinal := .empty
  emittedTexts := .empty
  userMessageIds := []
  emittedToolCallIds := []

def setOrdinalStart (t : Translator) (ordinal : ℤ) : Translator := { t with ordinal }

def setOrderStart (t : Translator) (order : ℤ) : Translator := { t with orderSeq := order }

/-- A fresh translator whose counters have been set ahead of its first row. -/
def seeded (threadId runId summaryPrefix : String) (orderStart ordinalStart : ℤ) : Translator :=
  ((init threadId runId summaryPrefix).setOrdinalStart ordinalStart).setOrderStart orderStart

def nextOrdinal (messageId : String) (t : Translator) : ℤ × Translator :=
  let r := FirstSeen.assign t.ordinals t.ordinal messageId
  (r.1, { t with ordinals := r.2.1, ordinal := r.2.2 })

/-- The first-seen position of a row key, the same on every later upsert. -/
def renderOrder (key : String) (t : Translator) : ℤ × Translator :=
  let r := FirstSeen.assign t.orderByKey t.orderSeq key
  (r.1, { t with orderByKey := r.2.1, orderSeq := r.2.2 })

def msgOrdinals (t : Translator) (subagentId : String) : OrderedDict String ℤ :=
  t.subagentMsgOrdinal.getD subagentId .empty

def nextSubagentOrdinal (subagentId msgId : String) (t : Translator) : ℤ × Translator :=
  let byMsg := t.msgOrdinals subagentId
  match byMsg.get msgId with
  | some existing =>
      (existing, { t with subagentMsgOrdinal := t.subagentMsgOrdinal.set subagentId byMsg })
  | none =>
      let ordinal := t.subagentOrdinal.getD subagentId 0
      (ordinal,
        { t with
          subagentOrdinal := t.subagentOrdinal.set subagentId (ordinal + 1)
          subagentMsgOrdinal := t.subagentMsgOrdinal.set subagentId (byMsg.set msgId ordinal) })

def subagentEvent (subagentId : String) (t : Translator) : Translator :=
  { t with subagentReady := t.subagentReady.setDefault subagentId false }

def subagentLinked (t : Translator) (subagentId : String) : Bool :=
  t.subagentReady.getD subagentId false

def recordSubagentLink (payload : Entries) (t : Translator) : Translator :=
  match payload.get "subagent_id", (payload.get "tool_call_id").nonemptyStr with
  | .str subagentId, some toolCallId =>
      { t with
        subagentToolCall := t.subagentToolCall.set subagentId toolCallId
        subagentReady := t.subagentReady.set subagentId true }
  | _, _ => t

end Translator

/-- The projections of a run stream. -/
inductive Projection where
  | messages
  | toolCalls
  | custom
  | subgraphs
  | values
  deriving DecidableEq, Repr

structure World where
  self : Translator
  frames : List Frame
  uuids : ℕ
  clockReads : ℕ
  published : Projection → ℕ

namespace World

def write (w : World) (f : Frame) : World := { w with frames := w.frames ++ [f] }

def publish (w : World) (p : Projection) : World :=
  { w with published := fun q => if q = p then w.published q + 1 else w.published q }

def start (t : Translator) : World :=
  { self := t, frames := [], uuids := 0, clockReads := 0, published := fun _ => 0 }

end World

/-- A stream of items that ends, or breaks with an exception after the last of them. -/
structure Feed (α : Type) where
  items : List α
  error : Option PyException

structure ModelMessage where
  node : Option String
  messageId : Option String
  events : Feed Entries

structure ToolSettlement where
  output : ToolOutput
  error : ErrorValue

/-- A live tool-call handle: what it shows once its output deltas have been drained (or have
broken with an exception), and what it shows if the drain gives up on them. -/
structure ToolCallExecution where
  toolCallId : String
  toolName : PyValue
  input : PyValue
  deltasError : Option PyException
  settled : ToolSettlement
  unsettled : ToolSettlement

inductive Subgraph where
  | mk (graphName triggerCallId : Option String) (messages : Option (Feed ModelMessage))
      (toolCalls : Option (Feed ToolCallExecution)) (custom : Option (Feed PyValue))
      (nested : Option (List Subgraph × Option PyException))

inductive TaskName where
  | source
  | turn
  | userMessage
  | messages
  | custom
  | toolCalls
  | toolCall (call : ToolCallExecution)
  | subgraphs
  | values
  | subagentMessages (subagentId : String)
  | subagentTools (subagentId : String)
  | subagentTool (subagentId : String) (call : ToolCallExecution)
  | subagentLifecycle (subagentId : String)
  | nestedSubgraphs (subagentId : String)

/-- The tasks that work for a nested subagent. -/
def TaskName.isSubagent : TaskName → Bool
  | .subgraphs => true
  | .subagentMessages _ => true
  | .subagentTools _ => true
  | .subagentTool _ _ => true
  | .subagentLifecycle _ => true
  | .nestedSubgraphs _ => true
  | _ => false

/-- The tasks that write the rows of a nested subagent. -/
def TaskName.writesNested : TaskName → Bool
  | .subagentMessages _ => true
  | .subagentTool _ _ => true
  | _ => false

abbrev Task (α : Type) := Proc TaskName World PyException α

def onSelf {α : Type} (f : Translator → α × Translator) : Task α :=
  Proc.atomically fun w => ((f w.self).1, { w with self := (f w.self).2 })

def updateSelf (f : Translator → Translator) : Task Unit :=
  Proc.atomically fun w => ((), { w with self := f w.self })

def readSelf : Task Translator := Proc.atomically fun w => (w.self, w)

/-- A fresh uuid behind the given tag. -/
def freshId (rt : Runtime) (tag : String) : Task String :=
  Proc.atomically fun w => (tag ++ rt.uuidHex w.uuids, { w with uuids := w.uuids + 1 })

/-- `value or f"{tag}{uuid}"`. -/
def idOr (rt : Runtime) (tag : String) (value : Option String) : Task String :=
  if value.getD "" = "" then freshId rt tag else pure (value.getD "")

theorem idOr_some (rt : Runtime) (tag : String) {value : Option String} {id : String}
    (ne : id ≠ "") (h : value = some id) : idOr rt tag value = pure id := by
  rw [h, idOr, Option.getD_some, if_neg ne]

def nowMs (rt : Runtime) : Task ℤ :=
  Proc.atomically fun w => (rt.clockMs w.clockReads, { w with clockReads := w.clockReads + 1 })

def upsert (type : RowType) (key : String) (row : Row) (txid : Option String) : Task Unit := do
  Proc.atomically fun w => ((), w.write (upsertFrame type key row txid))
  Proc.suspend

def delete (type : RowType) (key : String) : Task Unit := do
  Proc.atomically fun w => ((), w.write (deleteFrame type key))
  Proc.suspend

/-- The end of a feed, after its items. -/
def Feed.close {α : Type} (feed : Feed α) : Task Unit :=
  match feed.error with
  | none => pure ()
  | some exc => Proc.raise exc

/-- Drain a projection of the run stream. -/
def drainProjection {α : Type} (p : Projection) (body : α → Task Unit) (feed : Feed α) :
    Task Unit := do
  Proc.asyncFor (fun i w => decide (i < w.published p)) body 0 feed.items
  feed.close

/-- Drain any other stream. -/
def drainFeed {α : Type} (body : α → Task Unit) (feed : Feed α) : Task Unit := do
  Proc.asyncFor (fun _ _ => true) body 0 feed.items
  feed.close

end StreamDB
