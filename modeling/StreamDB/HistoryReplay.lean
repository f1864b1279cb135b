import StreamDB.Interrupts
import StreamDB.StateProtocol

/-!
# Replay of checkpoint messages

A run is seeded with prior turns as message and tool rows. `replayHistory` numbers them in one
pass; `nextLiveOrdinal` and `nextLiveOrder` count the same list to find where the live run
continues.
-/

namespace StreamDB

def summarizationMessageIdPrefix : String := "summarization-"

/-- An id that is present and does not mark a compaction artifact. -/
def rendersId (summaryPrefix : String) : Option String → Bool
  | none => false
  | some id => id ≠ "" && !startsWith id summaryPrefix

def carriesOrdinal (summaryPrefix : String) : BaseMessage → Bool
  | .human message => rendersId summaryPrefix message.id
  | .ai message => rendersId summaryPrefix message.id
  | _ => false

def nextLiveOrdinal (messages : List BaseMessage) (summaryPrefix : String) : ℕ :=
  messages.countP (carriesOrdinal summaryPrefix)

def ToolCall.keyed (call : ToolCall) : Bool := call.id.getD "" ≠ ""

def keyedCalls : BaseMessage → ℕ
  | .ai message => message.toolCalls.countP ToolCall.keyed
  | _ => 0

def nextLiveOrder (messages : List BaseMessage) (summaryPrefix : String) : ℕ :=
  nextLiveOrdinal messages summaryPrefix + (messages.map keyedCalls).sum

variable (rt : Runtime)

def contentText (content : PyValue) : String :=
  match content with
  | .str s => s
  | .list blocks => String.join (blocks.map fun block =>
      match block with
      | .str s => s
      | .dict entries =>
          if (Entries.get entries "type").isStr "text" then
            rt.str (Entries.getD entries "text" (.str ""))
          else ""
      | _ => "")
  | _ => ""

def humanCreatedAt (message : HumanMessage) : Option ℤ :=
  match (Entries.get message.additionalKwargs "sent_at").nonemptyStr with
  | none => none
  | some sentAtIso => rt.isoMillis sentAtIso

/-- The text of a block of type `kind`, with its fallback to the `text` field. -/
def reasoningBlock (entries : Entries) (kind : String) : String :=
  let value := Entries.getD entries kind (.str "")
  rt.str (if value.truthy then value else Entries.getD entries "text" (.str ""))

/-- The type of a block is looked up in a set, so it is taken to be hashable. -/
def contentReasoning (message : AIMessage) : String :=
  match message.content with
  | .list blocks => String.join (blocks.map fun block =>
      match block with
      | .dict entries =>
          if (Entries.get entries "type").isStr "thinking" then reasoningBlock rt entries "thinking"
          else if (Entries.get entries "type").isStr "reasoning" then
            reasoningBlock rt entries "reasoning"
          else ""
      | _ => "")
  | _ => ""

def humanPositions (messages : List BaseMessage) : List ℕ :=
  (List.range messages.length).filter fun i =>
    match messages[i]? with
    | some m => m.isHuman
    | none => false

def windowToLastTurns (messages : List BaseMessage) (maxTurns : ℤ) : List BaseMessage :=
  if maxTurns ≤ 0 then messages
  else
    let positions := humanPositions messages
    if (positions.length : ℤ) ≤ maxTurns then messages
    else messages.drop (positions.getD (positions.length - maxTurns.toNat) 0)

structure ReplayState where
  ordinal : ℕ
  order : ℕ
  toolRows : OrderedDict String Row
  frames : List Frame

def ReplayState.initial : ReplayState :=
  { ordinal := 0, order := 0, toolRows := .empty, frames := [] }

def humanRow (threadId : String) (id : String) (message : HumanMessage) (st : ReplayState) : Row :=
  (OrderedDict.ofEntries
    [("id", .str id), ("threadId", .str threadId), ("role", .str "user"),
      ("ordinal", .int st.ordinal), ("order", .int st.order),
      ("text", .str (contentText rt message.content))]).setSome
    "createdAt" ((humanCreatedAt rt message).map .int)

def aiRow (threadId : String) (id : String) (message : AIMessage) (st : ReplayState) : Row :=
  let reasoning := contentReasoning rt message
  (OrderedDict.ofEntries
    [("id", .str id), ("threadId", .str threadId), ("role", .str "assistant"),
      ("ordinal", .int st.ordinal), ("order", .int st.order),
      ("text", .str (contentText rt message.content))]).setSome
    "reasoning" (if reasoning = "" then none else some (.str reasoning))

section Fields

variable (threadId id : String) (st : ReplayState)

theorem humanRow_id (message : HumanMessage) :
    (humanRow rt threadId id message st).get "id" = some (.str id) := by
  simp [humanRow, OrderedDict.ofEntries, OrderedDict.get_setSome, OrderedDict.get_set]

theorem humanRow_role (message : HumanMessage) :
    (humanRow rt threadId id message st).get "role" = some (.str "user") := by
  simp [humanRow, OrderedDict.ofEntries, OrderedDict.get_setSome, OrderedDict.get_set]

theorem humanRow_ordinal (message : HumanMessage) :
    (humanRow rt threadId id message st).get "ordinal" = some (.int st.ordinal) := by
  simp [humanRow, OrderedDict.ofEntries, OrderedDict.get_setSome, OrderedDict.get_set]

theorem humanRow_order (message : HumanMessage) :
    (humanRow rt threadId id message st).get "order" = some (.int st.order) := by
  simp [humanRow, OrderedDict.ofEntries, OrderedDict.get_setSome, OrderedDict.get_set]

theorem aiRow_id (message : AIMessage) :
    (aiRow rt threadId id message st).get "id" = some (.str id) := by
  simp [aiRow, OrderedDict.ofEntries, OrderedDict.get_setSome, OrderedDict.get_set]

theorem aiRow_role (message : AIMessage) :
    (aiRow rt threadId id message st).get "role" = some (.str "assistant") := by
  simp [aiRow, OrderedDict.ofEntries, OrderedDict.get_setSome, OrderedDict.get_set]

theorem aiRow_ordinal (message : AIMessage) :
    (aiRow rt threadId id message st).get "ordinal" = some (.int st.ordinal) := by
  simp [aiRow, OrderedDict.ofEntries, OrderedDict.get_setSome, OrderedDict.get_set]

theorem aiRow_order (message : AIMessage) :
    (aiRow rt threadId id message st).get "order" = some (.int st.order) := by
  simp [aiRow, OrderedDict.ofEntries, OrderedDict.get_setSome, OrderedDict.get_set]

end Fields

def callRow (threadId : String) (id : String) (call : ToolCall) (order : ℕ) : Row :=
  OrderedDict.ofEntries
    [("id", .str id), ("threadId", .str threadId), ("name", .str (toAgUiToolName rt call.name)),
      ("argsText", .str (toAgUiJson rt call.args)), ("order", .int order)]

def replayCall (threadId : String) (st : ReplayState) (call : ToolCall) : ReplayState :=
  if call.keyed then
    { st with
      toolRows :=
        st.toolRows.set (call.id.getD "") (callRow rt threadId (call.id.getD "") call st.order)
      order := st.order + 1 }
  else st

def ReplayState.putMessage (st : ReplayState) (id : String) (row : Row) : ReplayState :=
  { st with
    frames := st.frames ++ [upsertFrame .message id row none]
    ordinal := st.ordinal + 1
    order := st.order + 1 }

/-- The row of a call, completed with the result its `ToolMessage` carries. -/
def settledRow (row : Row) (message : ToolMessage) : Row :=
  if message.status = .error then
    (row.set "isError" (.bool true)).set "result"
      (.str (toAgUiJson rt (.dict [("error", .str (contentText rt message.content))])))
  else
    row.set "result" (unwrapToolResult rt (rowText row "name") message.output)

def replayMessage (threadId summaryPrefix : String) (st : ReplayState) :
    BaseMessage → ReplayState
  | .human message =>
      if rendersId summaryPrefix message.id then
        st.putMessage (message.id.getD "") (humanRow rt threadId (message.id.getD "") message st)
      else st
  | .ai message =>
      if rendersId summaryPrefix message.id then
        message.toolCalls.foldl (replayCall rt threadId)
          (st.putMessage (message.id.getD "") (aiRow rt threadId (message.id.getD "") message st))
      else st
  | .tool message =>
      match st.toolRows.get message.toolCallId with
      | none => st
      | some row =>
          { st with toolRows := st.toolRows.set message.toolCallId (settledRow rt row message) }
  | .other _ => st

def replayMessages (threadId summaryPrefix : String) (messages : List BaseMessage) : ReplayState :=
  messages.foldl (replayMessage rt threadId summaryPrefix) .initial

def toolFrames (toolRows : OrderedDict String Row) : List Frame :=
  toolRows.values.map fun row => upsertFrame .tool (rowText row "id") row none

/-- The final state of the replay, tool rows written; `replay_history` returns its `ordinal`. -/
def replayHistory (threadId : String) (messages : List BaseMessage) (maxTurns : Option ℤ)
    (summaryPrefix : String) : ReplayState :=
  let window := match maxTurns with
    | none => messages
    | some n => windowToLastTurns messages n
  let st := replayMessages rt threadId summaryPrefix window
  { st with frames := st.frames ++ toolFrames st.toolRows }

end StreamDB
