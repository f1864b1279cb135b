import StreamDB.Translator

/-!
# The tool-call drain

A tool call is written twice under its own id: with its arguments when it starts, and with its
result once it has settled. A call that pauses on an interrupt keeps its first row.
-/

namespace StreamDB

open Coroutine

variable (rt : Runtime)

def toolResult (settlement : ToolSettlement) (toolName : String) : PyValue :=
  if settlement.error.truthy then
    .str (toAgUiJson rt (.dict [("error", .str settlement.error.text)]))
  else unwrapToolResult rt toolName settlement.output

def resultTxid (toolName toolCallId : String) : Option String :=
  if toolName ∈ interruptToolNames then some toolCallId else none

/-- Drain the output deltas, or give up on them after the timeout. A `TimeoutError` of the deltas
themselves is caught as the timeout is, so `deltasError` is any other exception. -/
def drainOutputDeltas (tc : ToolCallExecution) : Task ToolSettlement := do
  let drained ← Proc.awaitingOr fun _ => true
  if drained then
    match tc.deltasError with
    | none => pure tc.settled
    | some exc => Proc.raise exc
  else pure tc.unsettled

def argsText (tc : ToolCallExecution) : String :=
  if tc.input.truthy then toAgUiJson rt tc.input else ""

/-- The row of a started call. -/
def startedRow (threadId : String) (agentId : Option String) (tc : ToolCallExecution)
    (order : ℤ) : Row :=
  (OrderedDict.ofEntries
    [("id", .str tc.toolCallId), ("threadId", .str threadId),
      ("name", .str (toAgUiToolName rt tc.toolName)), ("argsText", .str (argsText rt tc)),
      ("order", .int order)]).setSome "agentId" (agentId.map .str)

/-- The row of a settled call. -/
def resultRow (threadId : String) (agentId : Option String) (tc : ToolCallExecution)
    (order : ℤ) (settlement : ToolSettlement) : Row :=
  ((OrderedDict.ofEntries
    [("id", .str tc.toolCallId), ("threadId", .str threadId),
      ("name", .str (toAgUiToolName rt tc.toolName)), ("argsText", .str (argsText rt tc)),
      ("result", toolResult rt settlement (toAgUiToolName rt tc.toolName)),
      ("order", .int order)]).setSome "agentId" (agentId.map .str)).setSome
    "isError" (if settlement.error.truthy then some (.bool true) else none)

/-- The part `_consume_tool_call_execution` and `_consume_subagent_tool` share; `agentId` is the
tag of a nested call. -/
def projectToolCall (agentId : Option String) (tc : ToolCallExecution) : Task Unit := do
  let order ← onSelf (Translator.renderOrder tc.toolCallId)
  let t ← readSelf
  upsert .tool tc.toolCallId (startedRow rt t.threadId agentId tc order) none
  let settlement ← drainOutputDeltas tc
  if isInterruptError settlement.error then pure ()
  else
    upsert .tool tc.toolCallId (resultRow rt t.threadId agentId tc order settlement)
      (resultTxid (toAgUiToolName rt tc.toolName) tc.toolCallId)

def consumeToolCallExecution (tc : ToolCallExecution) : Task Unit := do
  updateSelf fun t =>
    { t with emittedToolCallIds := FirstSeen.insertNew t.emittedToolCallIds tc.toolCallId }
  projectToolCall rt none tc

def streamToolCalls (calls : Feed ToolCallExecution) : Task Unit :=
  drainProjection .toolCalls
    (fun tc => Proc.spawn (.toolCall tc) (consumeToolCallExecution rt tc)) calls

end StreamDB
