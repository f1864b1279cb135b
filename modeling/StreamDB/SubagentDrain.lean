import StreamDB.MessageDrain
import StreamDB.ToolDrain

/-!
# The subgraphs drain

A subagent's messages and tool calls become rows tagged with the dispatch `tool_call_id`. The
tag arrives on a `subagent_start` payload, which the nested drains wait for. They draw `order`
from the same counter as the top-level rows, but number their messages on their own.
-/

namespace StreamDB

open Coroutine

variable (rt : Runtime)

/-- The tag of a subagent's rows, or nothing when the link does not arrive in time. -/
def subagentAgentId (subagentId : String) : Task (Option String) := do
  updateSelf (Translator.subagentEvent subagentId)
  let linked ← Proc.awaitingOr fun w => w.self.subagentLinked subagentId
  if linked then do
    let t ← readSelf
    pure (t.subagentToolCall.get subagentId)
  else pure none

def drainSubagentMessage (subagentId agentId : String) (message : ModelMessage) : Task Unit :=
  if message.node = some modelNode then do
    let msgId ← idOr rt "submsg_" message.messageId
    let ordinal ← onSelf (Translator.nextSubagentOrdinal subagentId msgId)
    let createdAt ← nowMs rt
    upsertMessage msgId ordinal createdAt (some agentId)
    streamMessageText message msgId (some agentId)
  else pure ()

def drainSubagentMessages (subagentId : String) (channel : Feed ModelMessage) : Task Unit := do
  let agentId ← subagentAgentId subagentId
  match agentId with
  | none => pure ()
  | some agentId => drainFeed (drainSubagentMessage rt subagentId agentId) channel

def consumeSubagentTool (subagentId : String) (tc : ToolCallExecution) : Task Unit := do
  let agentId ← subagentAgentId subagentId
  match agentId with
  | none => pure ()
  | some agentId => projectToolCall rt (some agentId) tc

def drainSubagentTools (subagentId : String) (channel : Feed ToolCallExecution) : Task Unit :=
  drainFeed
    (fun tc => Proc.spawn (.subagentTool subagentId tc) (consumeSubagentTool rt subagentId tc))
    channel

def drainSubagentLifecycle (channel : Feed PyValue) : Task Unit :=
  drainFeed
    (fun payload => match payload with
      | .dict entries =>
          if (Entries.get entries "content_type").isStr "subagent_start" then
            updateSelf (Translator.recordSubagentLink entries)
          else pure ()
      | _ => pure ())
    channel

def spawnSome {α : Type} (name : TaskName) (drain : α → Task Unit) : Option α → Task Unit
  | none => pure ()
  | some channel => Proc.spawn name (drain channel)

mutual

/-- The loop of `_drain_subgraphs`; item number `i` can be taken once `ready i`. -/
def drainSubgraphs (ready : ℕ → World → Bool) (error : Option PyException) :
    ℕ → List Subgraph → Task Unit
  | _, [] => Feed.close ⟨([] : List Subgraph), error⟩
  | i, sg :: sgs => do
      Proc.awaiting (ready i)
      drainSubgraph sg
      drainSubgraphs ready error (i + 1) sgs

def drainSubgraph : Subgraph → Task Unit
  | .mk graphName triggerCallId messages toolCalls custom none =>
      if graphName = some "subagent" then do
        let subagentId ← idOr rt "sa_" triggerCallId
        spawnSome (.subagentMessages subagentId) (drainSubagentMessages rt subagentId) messages
        spawnSome (.subagentTools subagentId) (drainSubagentTools rt subagentId) toolCalls
        spawnSome (.subagentLifecycle subagentId) drainSubagentLifecycle custom
      else pure ()
  | .mk graphName triggerCallId messages toolCalls custom (some (sgs, error)) =>
      if graphName = some "subagent" then do
        let subagentId ← idOr rt "sa_" triggerCallId
        spawnSome (.subagentMessages subagentId) (drainSubagentMessages rt subagentId) messages
        spawnSome (.subagentTools subagentId) (drainSubagentTools rt subagentId) toolCalls
        spawnSome (.subagentLifecycle subagentId) drainSubagentLifecycle custom
        Proc.spawn (.nestedSubgraphs subagentId)
          (drainSubgraphs (fun _ _ => true) error 0 sgs)
      else pure ()

end

def streamSubgraphs (subgraphs : Feed Subgraph) : Task Unit :=
  drainSubgraphs rt (fun i w => decide (i < w.published .subgraphs)) subgraphs.error 0
    subgraphs.items

end StreamDB
