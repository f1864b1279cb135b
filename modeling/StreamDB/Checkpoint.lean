import StreamDB.PyValue

/-!
# Checkpoint messages

The message list of a LangGraph checkpoint, with the attributes the replay reads.
-/

namespace StreamDB

structure ToolCall where
  id : Option String
  name : PyValue
  args : PyValue

structure HumanMessage where
  id : Option String
  content : PyValue
  additionalKwargs : Entries

structure AIMessage where
  id : Option String
  content : PyValue
  toolCalls : List ToolCall

inductive ToolStatus where
  | success
  | error
  deriving DecidableEq

structure ToolMessage where
  toolCallId : String
  content : PyValue
  artifact : PyValue
  status : ToolStatus

inductive BaseMessage where
  | human (message : HumanMessage)
  | ai (message : AIMessage)
  | tool (message : ToolMessage)
  | other (id : Option String)

def BaseMessage.isHuman : BaseMessage → Bool
  | .human _ => true
  | _ => false

end StreamDB
