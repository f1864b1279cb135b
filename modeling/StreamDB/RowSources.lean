import StreamDB.Channels

/-!
# Which rows a task writes

Every row a task hands to the writer is built from an item of one of the streams the task drains.
`drains` says which items these are, for a tree of subagents of any depth; `WrittenBy` lists the
rows, task by task.
-/

namespace StreamDB

open Coroutine

/-! ## The cancel-salvage view -/

structure EmittedTurn where
  texts : OrderedDict String String
  ordinals : OrderedDict String ℤ
  userMessageIds : List String
  toolCallIds : List String

def Translator.emittedTurn (t : Translator) : EmittedTurn where
  texts := t.emittedTexts
  ordinals := t.ordinals
  userMessageIds := t.userMessageIds
  toolCallIds := t.emittedToolCallIds

/-! ## Items -/

inductive Item where
  | userMessage (msgId text : String) (attachments : List PyValue)
  | message (message : ModelMessage)
  | toolCall (tc : ToolCallExecution)
  | payload (payload : PyValue)
  | snapshot (state : PyValue)

/-- What `value or f"{tag}{uuid}"` can be. -/
inductive ResolvesTo (rt : Runtime) (tag : String) (value : Option String) : String → Prop
  | given (present : value.getD "" ≠ "") : ResolvesTo rt tag value (value.getD "")
  | fresh (absent : value.getD "" = "") (n : ℕ) : ResolvesTo rt tag value (tag ++ rt.uuidHex n)

theorem id_of_resolves {rt : Runtime} {tag key msgId : String} {value : Option String}
    (hid : ResolvesTo rt tag value msgId) (hgiven : value.getD "" = key) (hne : key ≠ "") :
    msgId = key := by
  cases hid with
  | given _ => exact hgiven
  | fresh absent n => exact absurd (hgiven.symm.trans absent) hne

namespace Subgraph

def graphName : Subgraph → Option String
  | mk graphName _ _ _ _ _ => graphName

def triggerCallId : Subgraph → Option String
  | mk _ triggerCallId _ _ _ _ => triggerCallId

def messages : Subgraph → Option (Feed ModelMessage)
  | mk _ _ messages _ _ _ => messages

def toolCalls : Subgraph → Option (Feed ToolCallExecution)
  | mk _ _ _ toolCalls _ _ => toolCalls

def custom : Subgraph → Option (Feed PyValue)
  | mk _ _ _ _ custom _ => custom

def nested : Subgraph → Option (List Subgraph × Option PyException)
  | mk _ _ _ _ _ nested => nested

def isSubagent (sg : Subgraph) : Prop := sg.graphName = some "subagent"

/-- The subagents a drain of the given handles comes to, at any depth. -/
inductive Within : Subgraph → List Subgraph → Prop
  | here {sg : Subgraph} {sgs : List Subgraph} (mem : sg ∈ sgs) : Within sg sgs
  | deeper {sg parent : Subgraph} {sgs inner : List Subgraph} {error : Option PyException}
      (mem : parent ∈ sgs) (agent : parent.isSubagent)
      (nested : parent.nested = some (inner, error))
      (within : Within sg inner) : Within sg sgs

theorem Within.cons {sg sg' : Subgraph} {sgs : List Subgraph} (h : sg.Within sgs) :
    sg.Within (sg' :: sgs) := by
  cases h with
  | here mem => exact .here (List.mem_cons_of_mem _ mem)
  | deeper mem agent nested within =>
      exact .deeper (List.mem_cons_of_mem _ mem) agent nested within

end Subgraph

/-- The items the tasks of a translator take, by the task that writes their rows. -/
inductive drains (rt : Runtime) (activities : List Activity) : TaskName → Item → Prop
  | userMessage {msgId text : String} {attachments : List PyValue}
      (mem : .userMessage msgId text attachments ∈ activities) :
      drains rt activities .userMessage (.userMessage msgId text attachments)
  | message {feed : Feed ModelMessage} {m : ModelMessage} (mem : .messages feed ∈ activities)
      (item : m ∈ feed.items) : drains rt activities .messages (.message m)
  | payload {feed : Feed PyValue} {p : PyValue} (mem : .custom feed ∈ activities)
      (item : p ∈ feed.items) : drains rt activities .custom (.payload p)
  | toolCall {feed : Feed ToolCallExecution} {tc : ToolCallExecution}
      (mem : .toolCalls feed ∈ activities) (item : tc ∈ feed.items) :
      drains rt activities (.toolCall tc) (.toolCall tc)
  | snapshot {feed : Feed PyValue} {state : PyValue} (mem : .values feed ∈ activities)
      (item : state ∈ feed.items) : drains rt activities .values (.snapshot state)
  | nestedMessage {feed : Feed Subgraph} {sg : Subgraph} {subagentId : String}
      {channel : Feed ModelMessage} {m : ModelMessage} (mem : .subgraphs feed ∈ activities)
      (within : sg.Within feed.items) (agent : sg.isSubagent)
      (id : ResolvesTo rt "sa_" sg.triggerCallId subagentId)
      (projection : sg.messages = some channel) (item : m ∈ channel.items) :
      drains rt activities (.subagentMessages subagentId) (.message m)
  | nestedCall {feed : Feed Subgraph} {sg : Subgraph} {subagentId : String}
      {channel : Feed ToolCallExecution} {tc : ToolCallExecution}
      (mem : .subgraphs feed ∈ activities) (within : sg.Within feed.items)
      (agent : sg.isSubagent) (id : ResolvesTo rt "sa_" sg.triggerCallId subagentId)
      (projection : sg.toolCalls = some channel) (item : tc ∈ channel.items) :
      drains rt activities (.subagentTool subagentId tc) (.toolCall tc)
  | nestedPayload {feed : Feed Subgraph} {sg : Subgraph} {subagentId : String}
      {channel : Feed PyValue} {p : PyValue} (mem : .subgraphs feed ∈ activities)
      (within : sg.Within feed.items) (agent : sg.isSubagent)
      (id : ResolvesTo rt "sa_" sg.triggerCallId subagentId)
      (projection : sg.custom = some channel) (item : p ∈ channel.items) :
      drains rt activities (.subagentLifecycle subagentId) (.payload p)

/-! ## Rows -/

/-- A run as its rows see it: what does not change, what the streams hold, and the states its
steps start in. -/
structure Setting where
  rt : Runtime
  threadId : String
  summaryPrefix : String
  source : TaskName → Item → Prop
  allowed : TaskName → World → Prop

/-- A `subagent_start` payload that links `subagentId` to `tag`. -/
def StartsSubagent (payload : Entries) (subagentId tag : String) : Prop :=
  (payload.get "content_type").isStr "subagent_start" ∧
    payload.get "subagent_id" = .str subagentId ∧
    (payload.get "tool_call_id").nonemptyStr = some tag

namespace Setting

variable (E : Setting)

/-- A projection carries a payload that links `subagentId` to `tag`. -/
def Started (subagentId tag : String) : Prop :=
  ∃ name payload, E.source name (.payload (.dict payload)) ∧ StartsSubagent payload subagentId tag

/-- The task was picked in a state with this link. -/
def Linked (name : TaskName) (subagentId tag : String) : Prop :=
  (∃ w, E.allowed name w ∧ w.self.subagentToolCall.get subagentId = some tag) ∧
    E.Started subagentId tag

/-- The task puts a model message on the stream as `msgId`, tagged with `agentId`. -/
inductive MessageAuthor : TaskName → Option String → String → Prop
  | top {m : ModelMessage} {msgId : String} (item : E.source .messages (.message m))
      (rendered : rendersMessage E.summaryPrefix m)
      (id : ResolvesTo E.rt "msg_" m.messageId msgId) : MessageAuthor .messages none msgId
  | nested {m : ModelMessage} {subagentId tag msgId : String}
      (item : E.source (.subagentMessages subagentId) (.message m))
      (model : m.node = some modelNode)
      (linked : E.Linked (.subagentMessages subagentId) subagentId tag)
      (id : ResolvesTo E.rt "submsg_" m.messageId msgId) :
      MessageAuthor (.subagentMessages subagentId) (some tag) msgId

/-- The task puts a tool call on the stream, tagged with `agentId`. -/
inductive CallAuthor : TaskName → Option String → ToolCallExecution → Prop
  | top {tc : ToolCallExecution} (item : E.source (.toolCall tc) (.toolCall tc)) :
      CallAuthor (.toolCall tc) none tc
  | nested {tc : ToolCallExecution} {subagentId tag : String}
      (item : E.source (.subagentTool subagentId tc) (.toolCall tc))
      (linked : E.Linked (.subagentTool subagentId tc) subagentId tag) :
      CallAuthor (.subagentTool subagentId tc) (some tag) tc

/-- An effect that stands for a whole custom payload, or an entry of its `frontend_updates`. -/
inductive EffectOf (payload : Entries) : Entries → Prop
  | frontendUpdate {ops : List PyValue} {op : PyValue} {entries : Entries}
      (type : (payload.get "content_type").isStr "tool_end")
      (updates : payload.get "frontend_updates" = .list ops) (mem : op ∈ ops)
      (notReport : ∀ e, op = .dict e → (Entries.get e "type").isStr "report_generated" = false)
      (dict : dictOf E.rt op = some entries) : EffectOf payload entries
  | payload {entries : Entries}
      (keys : ∀ key ∈ entries.map Prod.fst, key ∈ ["kind", "threadId", "active", "payload"]) :
      EffectOf payload entries

def effectRow (effectId : String) (entries : Entries) : Row :=
  (OrderedDict.ofEntries [("id", .str effectId)]).update entries

/-- The rows of the custom drain for one payload. -/
inductive CustomRow (payload : Entries) : Frame → Prop
  | summary (toolCallId text : String) :
      CustomRow payload (upsertFrame .toolSummary toolCallId (summaryRow toolCallId text) none)
  | action (toolCallId : String) :
      CustomRow payload
        (upsertFrame .toolAction toolCallId (actionRow E.threadId toolCallId payload) none)
  | report (fileId : String) (op : Entries) (createdAt : ℤ) (toolCallId : Option String) :
      CustomRow payload
        (upsertFrame .report fileId (reportRow E.rt E.threadId fileId op createdAt toolCallId)
          none)
  | effect {entries : Entries} (n : ℕ) (op : E.EffectOf payload entries) :
      CustomRow payload
        (upsertFrame .effect ("effect_" ++ E.rt.uuidHex n)
          (effectRow ("effect_" ++ E.rt.uuidHex n) entries) none)

inductive WrittenBy : TaskName → Frame → Prop
  | user {name : TaskName} {msgId text : String} {attachments : List PyValue}
      (item : E.source name (.userMessage msgId text attachments))
      (own : name.isSubagent = false) (ordinal order createdAt : ℤ) :
      WrittenBy name
        (upsertFrame .message msgId
          (userRow E.threadId msgId ordinal order createdAt text attachments) (some msgId))
  | anchor {name : TaskName} {agentId : Option String} {msgId : String}
      (author : E.MessageAuthor name agentId msgId) (ordinal order createdAt : ℤ) :
      WrittenBy name
        (upsertFrame .message msgId (messageRow E.threadId msgId ordinal order createdAt agentId)
          none)
  | chunk {name : TaskName} {agentId : Option String} {msgId : String}
      (author : E.MessageAuthor name agentId msgId) (channel : ChunkChannel) (seq : ℕ)
      (text : String) :
      WrittenBy name
        (upsertFrame .messageChunk (chunkId msgId channel seq)
          (chunkRow E.threadId msgId channel seq text agentId) none)
  | started {name : TaskName} {agentId : Option String} {tc : ToolCallExecution}
      (author : E.CallAuthor name agentId tc) (order : ℤ) :
      WrittenBy name
        (upsertFrame .tool tc.toolCallId (startedRow E.rt E.threadId agentId tc order) none)
  | settled {name : TaskName} {agentId : Option String} {tc : ToolCallExecution}
      (author : E.CallAuthor name agentId tc) (order : ℤ) (settlement : ToolSettlement) :
      WrittenBy name
        (upsertFrame .tool tc.toolCallId
          (resultRow E.rt E.threadId agentId tc order settlement)
          (resultTxid (toAgUiToolName E.rt tc.toolName) tc.toolCallId))
  | custom {payload : Entries} {f : Frame}
      (item : E.source .custom (.payload (.dict payload))) (row : E.CustomRow payload f) :
      WrittenBy .custom f
  | state {state : Entries} (item : E.source .values (.snapshot (.dict state))) :
      WrittenBy .values
        (upsertFrame .agentState E.threadId (stateRow E.threadId (projectClientState state)) none)

/-- The task takes an item whose text the salvage view captures. -/
def Captures (name : TaskName) : Prop :=
  name.isSubagent = false ∧
    ((∃ m, E.source name (.message m)) ∨ ∃ msgId text attachments,
      E.source name (.userMessage msgId text attachments))

end Setting

end StreamDB
