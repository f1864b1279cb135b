import StreamDB.Translator

/-!
# The values drain

State snapshots are projected to the client-facing slices, and the `agentState` row is written
again whenever the projection changes.
-/

namespace StreamDB

open Coroutine

def tasksSlice (state : Entries) : PyValue :=
  match state.get "tasks" with
  | .dict tasks => .list (tasks.map Prod.snd)
  | _ => .list []

def dictSlice (key : String) (state : Entries) : PyValue :=
  match state.get key with
  | .dict entries => .dict entries
  | _ => .dict []

def contextWindowSlice (state : Entries) : PyValue := dictSlice "context_window" state

def subagentThreadsSlice (state : Entries) : PyValue := dictSlice "subagent_threads" state

def slugSlice (key : String) (state : Entries) : PyValue :=
  match (state.get key).nonemptyStr with
  | some slug => .str slug
  | none => .none

def activeProjectSlice (state : Entries) : PyValue := slugSlice "active_project" state

def activeWorkflowSlice (state : Entries) : PyValue := slugSlice "active_workflow" state

def projectClientState (state : Entries) : Entries :=
  [("active_project", activeProjectSlice state), ("active_workflow", activeWorkflowSlice state),
    ("context_window", contextWindowSlice state),
    ("subagent_threads", subagentThreadsSlice state), ("tasks", tasksSlice state)]

def stateRow (threadId : String) (state : Entries) : Row :=
  (OrderedDict.ofEntries [("id", .str threadId)]).update state

/-- The loop of `_stream_values`; `prev` is the last projection. -/
def streamSnapshots (error : Option PyException) :
    ℕ → Option Entries → List PyValue → Task Unit
  | _, _, [] => Feed.close ⟨([] : List PyValue), error⟩
  | i, prev, rawState :: rest => do
      Proc.awaiting fun w => decide (i < w.published .values)
      match rawState with
      | .dict state =>
          let current := projectClientState state
          let unchanged := match prev with
            | some p => (PyValue.dict current).eq (.dict p)
            | none => false
          if unchanged then streamSnapshots error (i + 1) (some current) rest
          else do
            let t ← readSelf
            upsert .agentState t.threadId (stateRow t.threadId current) none
            streamSnapshots error (i + 1) (some current) rest
      | _ => streamSnapshots error (i + 1) prev rest

def streamValues (snapshots : Feed PyValue) : Task Unit :=
  streamSnapshots snapshots.error 0 none snapshots.items

end StreamDB
