import StreamDB.Translator

/-!
# The custom drain

Custom payloads become summary, action and report rows, links of subagents, or one-shot effects.
A payload Python cannot handle at all raises where the source would.
-/

namespace StreamDB

open Coroutine

variable (rt : Runtime)

/-- Content types whose data rides the `agentState` row. -/
def stateChannelCustom : List String :=
  ["tool_start", "tool_end", "tool_error", "plan_mode_entered", "plan_mode_exited",
    "context_window", "task_snapshot"]

def notAMapping : PyException := .exception "dictionary update sequence"

def unhashable : PyException := .exception "unhashable type"

/-- The key under which a dictionary entry travels. -/
def keyText (key : PyValue) : String := rt.str key

/-- One element of a sequence given to `dict`: a pair, in any of the forms Python accepts. -/
def pairOf : PyValue → Option (PyValue × PyValue)
  | .list [k, v] => some (k, v)
  | .str s => match s.toList with
      | [k, v] => some (.str (String.singleton k), .str (String.singleton v))
      | _ => none
  | .dict [(k, _), (k', _)] => some (.str k, .str k')
  | _ => none

def pairsOf : List PyValue → Option Entries
  | [] => some []
  | x :: xs =>
      match pairOf x, pairsOf xs with
      | some (k, v), some rest => if k.hashable then some ((keyText rt k, v) :: rest) else none
      | _, _ => none

/-- `dict(op)`. -/
def dictOf : PyValue → Option Entries
  | .dict entries => some entries
  | .list xs => pairsOf rt xs
  | .str s => if s = "" then some [] else none
  | _ => none

def emitEffect (op : PyValue) : Task Unit := do
  let effectId ← freshId rt "effect_"
  match dictOf rt op with
  | none => Proc.raise notAMapping
  | some entries =>
      upsert .effect effectId ((OrderedDict.ofEntries [("id", .str effectId)]).update entries) none

def reportRow (threadId fileId : String) (op : Entries) (createdAt : ℤ)
    (toolCallId : Option String) : Row :=
  let filename := op.get "filename"
  (OrderedDict.ofEntries
    [("id", .str fileId), ("threadId", .str threadId), ("fileId", .str fileId),
      ("filename", .str (rt.str (if filename.truthy then filename else .str ""))),
      ("createdAt", .int createdAt)]).setSome
    "toolCallId" (if toolCallId.getD "" = "" then none else toolCallId.map .str)

def emitReport (op : Entries) (toolCallId : Option String) : Task Unit :=
  match (op.get "file_id").nonemptyStr with
  | none => pure ()
  | some fileId => do
      let t ← readSelf
      let createdAt ← nowMs rt
      upsert .report fileId (reportRow rt t.threadId fileId op createdAt toolCallId) none

def frontendUpdate (toolCallId : Option String) (op : PyValue) : Task Unit :=
  match op with
  | .dict entries =>
      if (Entries.get entries "type").isStr "report_generated" then
        emitReport rt entries toolCallId
      else emitEffect rt op
  | _ => emitEffect rt op

def frontendUpdates (toolCallId : Option String) : List PyValue → Task Unit
  | [] => pure ()
  | op :: ops => do
      frontendUpdate rt toolCallId op
      frontendUpdates toolCallId ops

def summaryRow (toolCallId text : String) : Row :=
  OrderedDict.ofEntries
    [("id", .str toolCallId), ("toolCallId", .str toolCallId), ("text", .str text)]

def listOrEmpty (value : PyValue) : PyValue :=
  match value with
  | .list xs => .list xs
  | _ => .list []

def actionRow (threadId toolCallId : String) (payload : Entries) : Row :=
  (OrderedDict.ofEntries
    [("id", .str toolCallId), ("threadId", .str threadId),
      ("added", listOrEmpty (payload.get "added")),
      ("removed", listOrEmpty (payload.get "removed"))]).setSome
    "summary" ((payload.get "summary").nonemptyStr.map .str)

def handleToolSummary (payload : Entries) : Task Unit :=
  match (payload.get "text").nonemptyStr, (payload.get "tool_call_id").nonemptyStr with
  | some text, some toolCallId => upsert .toolSummary toolCallId (summaryRow toolCallId text) none
  | _, _ => pure ()

def handleToolAction (payload : Entries) : Task Unit :=
  match (payload.get "tool_call_id").nonemptyStr with
  | some toolCallId => do
      let t ← readSelf
      upsert .toolAction toolCallId (actionRow t.threadId toolCallId payload) none
  | none => pure ()

def handleToolEnd (payload : Entries) : Task Unit :=
  match payload.get "frontend_updates" with
  | .list ops =>
      frontendUpdates rt
        (match payload.get "tool_call_id" with
          | .str s => some s
          | _ => none) ops
  | _ => pure ()

def emitThreadEffect (kind : String) (active : Option Bool) : Task Unit := do
  let t ← readSelf
  emitEffect rt (.dict ([("kind", .str kind), ("threadId", .str t.threadId)] ++
    (active.map fun b => ("active", PyValue.bool b)).toList))

def handlePayload (payload : Entries) : Task Unit :=
  let contentType := payload.get "content_type"
  if contentType.isStr "tool_summary" then handleToolSummary payload
  else if contentType.isStr "tool_action" then handleToolAction payload
  else if contentType.isStr "tool_end" then handleToolEnd rt payload
  -- membership in a frozenset hashes the value first
  else if !contentType.hashable then Proc.raise unhashable
  else if stateChannelCustom.any contentType.isStr then pure ()
  else if contentType.isStr "subagent_start" then
    updateSelf (Translator.recordSubagentLink payload)
  else if contentType.isStr "subagent_end" then pure ()
  else if contentType.isStr "batman_started" then emitThreadEffect rt "batman" none
  else if contentType.isStr "compaction_start" then
    emitThreadEffect rt "compaction" (some true)
  else if contentType.isStr "compaction_end" then
    emitThreadEffect rt "compaction" (some false)
  else
    emitEffect rt (.dict
      [("kind", .str (rt.str (if contentType.truthy then contentType else .str "unknown"))),
        ("payload", .dict payload)])

def handleCustom (payload : PyValue) : Task Unit :=
  match payload with
  | .dict entries => handlePayload rt entries
  | _ => pure ()

def streamCustom (payloads : Feed PyValue) : Task Unit :=
  drainProjection .custom (handleCustom rt) payloads

end StreamDB
