import StreamDB.ReplayRows

/-!
# The store after a replay

What the collections of a store hold once a replay has been written to it, read off the state of
the replay: the last frame of a message id, and the row kept for a call.
-/

namespace StreamDB

/-- The messages a replay goes through. -/
def replayWindow (messages : List BaseMessage) (maxTurns : Option ℤ) : List BaseMessage :=
  match maxTurns with
  | none => messages
  | some n => windowToLastTurns messages n

namespace ReplayState

/-- The row a store would hold if the replay ended here. -/
def row (st : ReplayState) : RowType → String → Option Row
  | .message, key => (LastWriter.collect (st.frames.map Frame.change)).get key
  | .tool, key => st.toolRows.get key
  | _, _ => none

variable (st : ReplayState) (type : RowType) (key : String)

theorem row_initial : initial.row type key = none := by
  cases type with
  | _ => rfl

theorem row_putMessage (id : String) (row : Row) :
    (st.putMessage id row).row type key =
      if type = .message ∧ id = key then some row else st.row type key := by
  cases type with
  | message =>
      rw [ReplayState.row, putMessage, List.map_append, List.map_singleton,
        LastWriter.get_collect_concat]
      by_cases hk : id = key
      · simp [Frame.change, upsertFrame, changeEvent, hk]
      · simp [Frame.change, upsertFrame, changeEvent, hk, ReplayState.row]
  | _ => rfl

end ReplayState

variable (rt : Runtime) (threadId summaryPrefix : String) (st : ReplayState) (type : RowType)
  (key : String)

theorem row_replayCall (call : ToolCall) :
    (replayCall rt threadId st call).row type key =
      if call.keyed ∧ type = .tool ∧ call.id.getD "" = key then
        some (callRow rt threadId (call.id.getD "") call st.order)
      else st.row type key := by
  by_cases hk : call.keyed
  · cases type with
    | tool => simp [replayCall, hk, ReplayState.row, OrderedDict.get_set]
    | _ => simp [replayCall, hk, ReplayState.row]
  · simp [replayCall, hk]

theorem row_replayMessage_tool (message : ToolMessage) :
    (replayMessage rt threadId summaryPrefix st (.tool message)).row type key =
      if type = .tool ∧ message.toolCallId = key then
        (st.row .tool key).map fun row => settledRow rt row message
      else st.row type key := by
  by_cases hkey : message.toolCallId = key
  · subst hkey
    cases hrow : st.toolRows.get message.toolCallId with
    | none =>
        cases type with
        | tool => simp [replayMessage, hrow, ReplayState.row]
        | _ => simp [replayMessage, hrow, ReplayState.row]
    | some row =>
        cases type with
        | tool => simp [replayMessage, hrow, ReplayState.row]
        | _ => simp [replayMessage, hrow, ReplayState.row]
  · cases hrow : st.toolRows.get message.toolCallId with
    | none => simp [replayMessage, hrow, hkey]
    | some row =>
        cases type with
        | tool => simp [replayMessage, hrow, hkey, ReplayState.row, OrderedDict.get_set]
        | _ => simp [replayMessage, hrow, ReplayState.row]

/-! ## The frames of a replay -/

variable (messages : List BaseMessage) (maxTurns : Option ℤ)

theorem replayHistory_frames :
    (replayHistory rt threadId messages maxTurns summaryPrefix).frames =
      (replayMessages rt threadId summaryPrefix (replayWindow messages maxTurns)).frames ++
        toolFrames (replayMessages rt threadId summaryPrefix
          (replayWindow messages maxTurns)).toolRows := by
  cases maxTurns with
  | none => rfl
  | some n => rfl

theorem replayHistory_ordinal :
    (replayHistory rt threadId messages maxTurns summaryPrefix).ordinal =
      (replayMessages rt threadId summaryPrefix (replayWindow messages maxTurns)).ordinal := by
  cases maxTurns with
  | none => rfl
  | some n => rfl

variable {rt threadId summaryPrefix st type messages}

theorem filter_type_replayMessages :
    (replayMessages rt threadId summaryPrefix messages).frames.filter (fun f => f.type = type) =
      if type = .message then (replayMessages rt threadId summaryPrefix messages).frames
      else [] := by
  have hmessage := fun f hf =>
    ((rowsBelow_replayMessages rt threadId summaryPrefix messages).messages f hf).1
  split_ifs with htype
  · rw [List.filter_eq_self]
    intro f hf
    simp [hmessage f hf, htype]
  · rw [List.filter_eq_nil_iff]
    intro f hf
    simp [hmessage f hf, Ne.symm htype]

theorem filter_type_toolFrames (toolRows : OrderedDict String Row) :
    (toolFrames toolRows).filter (fun f => f.type = type) =
      if type = .tool then toolFrames toolRows else [] := by
  split_ifs with htype
  · rw [List.filter_eq_self]
    intro f hf
    obtain ⟨row, _, rfl⟩ := mem_toolFrames hf
    simp [htype]
  · rw [List.filter_eq_nil_iff]
    intro f hf
    obtain ⟨row, _, rfl⟩ := mem_toolFrames hf
    simp [Ne.symm htype]

/-- Each row that is kept is written once, under its own key. -/
theorem get_collect_toolFrames (hkeyed : KeyedRows st) :
    (LastWriter.collect ((toolFrames st.toolRows).map Frame.change)).get key =
      st.toolRows.get key := by
  have hlog : (toolFrames st.toolRows).map Frame.change =
      st.toolRows.entries.map fun e => (e.1, some e.2) := by
    rw [toolFrames, OrderedDict.values, List.map_map, List.map_map]
    apply List.map_congr_left
    intro e he
    have hid := (hkeyed e.1 e.2 (OrderedDict.mem_entries_iff.mp he)).1
    simp [Frame.change, upsertFrame, changeEvent, hid]
  rw [hlog, LastWriter.get_collect_entries]

/-- What a store holds after a replay. -/
theorem get_collection_replayHistory :
    (collection type (replayHistory rt threadId messages maxTurns summaryPrefix).frames).get key =
      (replayMessages rt threadId summaryPrefix (replayWindow messages maxTurns)).row type key := by
  rw [collection, replayHistory_frames, List.filter_append, filter_type_replayMessages,
    filter_type_toolFrames]
  cases type with
  | message => simp [ReplayState.row]
  | tool =>
      have hkeyed := keyedRows_replayMessages rt threadId summaryPrefix
        (replayWindow messages maxTurns)
      simpa [ReplayState.row] using get_collect_toolFrames key hkeyed
  | _ => rfl

end StreamDB
