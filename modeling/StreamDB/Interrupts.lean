import StreamDB.Checkpoint
import StreamDB.Serialization

/-!
# Interrupt adaptation

LangGraph interrupts become rows of the interrupt collection, and the results of the interrupt
tools are unwrapped to the artifact they carry.
-/

namespace StreamDB

/-- What a tool call can report as its error. `text` is `str(error)`. -/
inductive ErrorValue where
  | none
  | str (s : String)
  | exception (text : String)
  | graphInterrupt (text : String)
  | interrupt (text : String)
  | group (text : String) (exceptions : List ErrorValue)
  | sequence (text : String) (items : List ErrorValue)

namespace ErrorValue

def text : ErrorValue → String
  | .none => "None"
  | .str s => s
  | .exception text => text
  | .graphInterrupt text => text
  | .interrupt text => text
  | .group text _ => text
  | .sequence text _ => text

/-- `bool(error)`. -/
def truthy : ErrorValue → Bool
  | .none => false
  | .str s => s ≠ ""
  | .sequence _ items => !items.isEmpty
  | _ => true

end ErrorValue

mutual

def isInterruptError : ErrorValue → Bool
  | .graphInterrupt _ => true
  | .interrupt _ => true
  | .group _ exceptions => anyInterruptError exceptions
  | .sequence _ items => anyInterruptError items
  | _ => false

def anyInterruptError : List ErrorValue → Bool
  | [] => false
  | e :: es => isInterruptError e || anyInterruptError es

end

/-- A tool's output: the attributes the translator looks up, when it has them, and the value
itself. -/
structure ToolOutput where
  artifact : Option PyValue
  content : Option PyValue
  value : PyValue

/-- A `ToolMessage` has both attributes, and is not a dictionary. -/
def ToolMessage.output (m : ToolMessage) : ToolOutput :=
  { artifact := some m.artifact, content := some m.content, value := .none }

def interruptToolNames : List String := ["ask_question", "request_review"]

def unwrapToolResult (rt : Runtime) (toolName : String) (output : ToolOutput) : PyValue :=
  let plain := PyValue.str (toAgUiContent rt (output.content.getD output.value))
  if toolName ∈ interruptToolNames then
    match output.artifact.getD .none with
    | .none => match output.value with
        | .dict entries => match Entries.get entries "artifact" with
            | .none => plain
            | artifact => artifact
        | _ => plain
    | artifact => artifact
  else plain

structure Interrupt where
  value : PyValue
  id : Option String

structure AgUiInterrupt where
  id : String
  reason : String
  metadata : Entries
  message : Option String
  toolCallId : Option String

def agUiInterruptReason (interruptType : String) : String :=
  if interruptType = "ask_question" then "input_required"
  else if interruptType = "request_review" then "confirmation"
  else "langgraph:" ++ interruptType

/-- `fresh` is the token drawn when LangGraph supplied no id. -/
def langgraphInterruptToAgUiInterrupt (rt : Runtime) (fresh : String) (interrupt : Interrupt) :
    Option AgUiInterrupt :=
  match interrupt.value with
  | .dict payload =>
      let type := Entries.get payload "type"
      let interruptType := rt.str (if type.truthy then type else .str "unknown")
      some
        { id := if interrupt.id.getD "" = "" then fresh else interrupt.id.getD ""
          reason := agUiInterruptReason interruptType
          metadata := payload
          message := (Entries.get payload "message").nonemptyStr
          toolCallId := (Entries.get payload "tool_call_id").nonemptyStr }
  | _ => none

def AgUiInterrupt.row (item : AgUiInterrupt) (threadId : String) : Row :=
  (((OrderedDict.ofEntries
    [("id", .str item.id), ("reason", .str item.reason), ("metadata", .dict item.metadata)]).setSome
      "message" (item.message.map .str)).setSome
      "toolCallId" (item.toolCallId.map .str)).set "threadId" (.str threadId)

/-- The loop of `ag_ui_interrupt_rows`: `seen` counts the raw ids met so far, `uuids` the tokens
drawn. A row is kept with its key; the id is always present, so its fallback is never drawn. -/
def interruptRowsFrom (rt : Runtime) (threadId : String) :
    OrderedDict String ℕ → ℕ → List Interrupt → List (String × Row)
  | _, _, [] => []
  | seen, uuids, interrupt :: interrupts =>
      let drawn := if interrupt.id.getD "" = "" then uuids + 1 else uuids
      match langgraphInterruptToAgUiInterrupt rt (rt.uuidHex uuids) interrupt with
      | none => interruptRowsFrom rt threadId seen uuids interrupts
      | some item =>
          let count := seen.getD item.id 0
          let id := if count > 0 then
              item.id ++ ":" ++ item.toolCallId.getD (toString count)
            else item.id
          (id, { item with id }.row threadId) ::
            interruptRowsFrom rt threadId (seen.set item.id (count + 1)) drawn interrupts

def agUiInterruptRows (rt : Runtime) (uuids : ℕ) (threadId : String)
    (interrupts : List Interrupt) : List (String × Row) :=
  interruptRowsFrom rt threadId .empty uuids interrupts

end StreamDB
