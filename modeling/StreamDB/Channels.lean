import StreamDB.CustomDrain
import StreamDB.StateDrain
import StreamDB.SubagentDrain

/-!
# The tasks of a translator

Everything that can run on one translator instance: user messages put on the stream and the five
channel drains of a run, next to the run stream that makes the items of the projections
available. The run rows written before and after the channel phase belong to `RunShell`.
-/

namespace StreamDB

open Coroutine

abbrev TaskCode := Code TaskName World PyException

abbrev System := Config TaskName World PyException

/-- The run stream makes one item after the other available. -/
def publishAll : List Projection → Task Unit
  | [] => pure ()
  | p :: ps => do
      Proc.suspend
      Proc.atomically fun w => ((), w.publish p)
      publishAll ps

/-- The run stream waits for its turn before each item. -/
theorem block_publishAll (events : List Projection) (w : World) :
    (publishAll events).code.block w = (w, (publishAll events).code, []) := by
  cases events with
  | nil => rfl
  | cons p ps => rfl

structure RunStream where
  events : List Projection
  messages : Feed ModelMessage
  custom : Feed PyValue
  toolCalls : Feed ToolCallExecution
  subgraphs : Feed Subgraph
  values : Feed PyValue

inductive Activity where
  | source (events : List Projection)
  | userMessage (msgId text : String) (attachments : List PyValue)
  | messages (feed : Feed ModelMessage)
  | custom (feed : Feed PyValue)
  | toolCalls (feed : Feed ToolCallExecution)
  | subgraphs (feed : Feed Subgraph)
  | values (feed : Feed PyValue)

namespace Activity

def name : Activity → TaskName
  | source _ => .source
  | userMessage _ _ _ => .userMessage
  | messages _ => .messages
  | custom _ => .custom
  | toolCalls _ => .toolCalls
  | subgraphs _ => .subgraphs
  | values _ => .values

def task (rt : Runtime) : Activity → Task Unit
  | source events => publishAll events
  | userMessage msgId text attachments => emitUserMessage rt msgId text attachments
  | messages feed => streamMessages rt feed
  | custom feed => streamCustom rt feed
  | toolCalls feed => streamToolCalls rt feed
  | subgraphs feed => streamSubgraphs rt feed
  | values feed => streamValues feed

def thread (rt : Runtime) (a : Activity) : TaskName × TaskCode := (a.name, (a.task rt).code)

end Activity

/-- A translator with the given activities all about to start. -/
def startSystem (rt : Runtime) (t : Translator) (activities : List Activity) : System :=
  ⟨activities.map (Activity.thread rt), World.start t⟩

def RunStream.channels (stream : RunStream) : List Activity :=
  [.messages stream.messages, .custom stream.custom, .toolCalls stream.toolCalls,
    .subgraphs stream.subgraphs, .values stream.values]

def spawnAll (rt : Runtime) : List Activity → Task Unit
  | [] => pure ()
  | a :: as => do
      Proc.spawn a.name (a.task rt)
      spawnAll rt as

/-- `translate_turn` from the user row to the start of the channel tasks. -/
def runTurn (rt : Runtime) (userId text : String) (attachments : List PyValue)
    (stream : RunStream) : Task Unit := do
  emitUserMessage rt userId text attachments
  spawnAll rt stream.channels

end StreamDB
