import StreamDB.ReplayStore

/-!
# Windowed replays

A replay of the last turns only leaves the rows a replay of the whole list leaves for them, at
earlier places. What the dropped messages have put into the table of calls never shows: a call the
window does not request has no row there, and one it does request is written over.
-/

namespace StreamDB

/-- Rows that differ in their places only; those of the second are so much later. -/
structure ShiftedRow (ordinals orders : ℕ) (row row' : Row) : Prop where
  fields : ∀ field, field ≠ "ordinal" → field ≠ "order" → row'.get field = row.get field
  order : ∃ o : ℤ, row.get "order" = some (.int o) ∧ row'.get "order" = some (.int (o + orders))
  ordinal : (row.get "ordinal" = none ∧ row'.get "ordinal" = none) ∨
    ∃ o : ℤ, row.get "ordinal" = some (.int o) ∧ row'.get "ordinal" = some (.int (o + ordinals))

/-- The second replay has numbered so much more, and has every row of the first at a later place. -/
structure Ahead (ordinals orders : ℕ) (st st' : ReplayState) : Prop where
  ordinal : st'.ordinal = st.ordinal + ordinals
  order : st'.order = st.order + orders
  rows : ∀ type key row, st.row type key = some row →
    ∃ row', st'.row type key = some row' ∧ ShiftedRow ordinals orders row row'

namespace Ahead

variable {ordinals orders : ℕ} {st st' : ReplayState}

theorem initial : Ahead st'.ordinal st'.order .initial st' where
  ordinal := (Nat.zero_add _).symm
  order := (Nat.zero_add _).symm
  rows type key row h := by
    rw [ReplayState.row_initial] at h
    cases h

theorem shifted_humanRow (h : Ahead ordinals orders st st') (rt : Runtime) (threadId id : String)
    (message : HumanMessage) :
    ShiftedRow ordinals orders (humanRow rt threadId id message st)
      (humanRow rt threadId id message st') where
  fields field hordinal horder := by
    simp [humanRow, OrderedDict.ofEntries, OrderedDict.get_setSome, OrderedDict.get_set,
      Ne.symm hordinal, Ne.symm horder]
  order := ⟨st.order, humanRow_order _ _ _ _ _, by rw [humanRow_order, h.order]; rfl⟩
  ordinal := .inr ⟨st.ordinal, humanRow_ordinal _ _ _ _ _, by rw [humanRow_ordinal, h.ordinal]; rfl⟩

theorem shifted_aiRow (h : Ahead ordinals orders st st') (rt : Runtime) (threadId id : String)
    (message : AIMessage) :
    ShiftedRow ordinals orders (aiRow rt threadId id message st)
      (aiRow rt threadId id message st') where
  fields field hordinal horder := by
    simp [aiRow, OrderedDict.ofEntries, OrderedDict.get_setSome, OrderedDict.get_set,
      Ne.symm hordinal, Ne.symm horder]
  order := ⟨st.order, aiRow_order _ _ _ _ _, by rw [aiRow_order, h.order]; rfl⟩
  ordinal := .inr ⟨st.ordinal, aiRow_ordinal _ _ _ _ _, by rw [aiRow_ordinal, h.ordinal]; rfl⟩

theorem shifted_callRow (h : Ahead ordinals orders st st') (rt : Runtime) (threadId id : String)
    (call : ToolCall) :
    ShiftedRow ordinals orders (callRow rt threadId id call st.order)
      (callRow rt threadId id call st'.order) where
  fields field hordinal horder := by
    simp [callRow, OrderedDict.ofEntries, OrderedDict.get_set, Ne.symm horder]
  order := ⟨st.order, by simp [callRow, OrderedDict.ofEntries],
    by simp [callRow, OrderedDict.ofEntries, h.order]⟩
  ordinal := .inl ⟨by simp [callRow, OrderedDict.ofEntries, OrderedDict.get_set],
    by simp [callRow, OrderedDict.ofEntries, OrderedDict.get_set]⟩

end Ahead

/-- A result depends on the name of the row and leaves its place alone. -/
theorem ShiftedRow.settle {ordinals orders : ℕ} {row row' : Row}
    (h : ShiftedRow ordinals orders row row') (rt : Runtime) (message : ToolMessage) :
    ShiftedRow ordinals orders (settledRow rt row message) (settledRow rt row' message) := by
  have hname : rowText row' "name" = rowText row "name" := by
    rw [rowText, rowText, h.fields "name" (by decide) (by decide)]
  have hordinal : ∀ r : Row, (settledRow rt r message).get "ordinal" =
      r.get "ordinal" := by
    intro r
    unfold settledRow
    split_ifs
    · rw [OrderedDict.get_set_of_ne _ _ (by decide), OrderedDict.get_set_of_ne _ _ (by decide)]
    · rw [OrderedDict.get_set_of_ne _ _ (by decide)]
  constructor
  · intro field hne hne'
    unfold settledRow
    split_ifs
    · rw [OrderedDict.get_set, OrderedDict.get_set, OrderedDict.get_set, OrderedDict.get_set,
        h.fields field hne hne']
    · rw [OrderedDict.get_set, OrderedDict.get_set, hname, h.fields field hne hne']
  · rw [settledRow_order, settledRow_order]
    exact h.order
  · rw [hordinal, hordinal]
    exact h.ordinal

namespace Ahead

variable {ordinals orders : ℕ} {st st' : ReplayState}

theorem putMessage (h : Ahead ordinals orders st st') (id : String) {row row' : Row}
    (hrow : ShiftedRow ordinals orders row row') :
    Ahead ordinals orders (st.putMessage id row) (st'.putMessage id row') where
  ordinal := by
    simp only [ReplayState.putMessage, h.ordinal]
    omega
  order := by
    simp only [ReplayState.putMessage, h.order]
    omega
  rows type key held hheld := by
    rw [ReplayState.row_putMessage] at hheld ⊢
    split_ifs at hheld ⊢ with hkey
    · cases hheld
      exact ⟨row', rfl, hrow⟩
    · exact h.rows type key held hheld

theorem replayCall (h : Ahead ordinals orders st st') (rt : Runtime) (threadId : String)
    (call : ToolCall) :
    Ahead ordinals orders (replayCall rt threadId st call)
      (StreamDB.replayCall rt threadId st' call) where
  ordinal := by
    have hone := replayCalls_ordinal rt threadId [call]
    simp only [List.foldl_cons, List.foldl_nil] at hone
    rw [hone, hone, h.ordinal]
  order := by
    have hone := replayCalls_order rt threadId [call]
    simp only [List.foldl_cons, List.foldl_nil] at hone
    rw [hone, hone, h.order]
    omega
  rows type key held hheld := by
    rw [row_replayCall] at hheld ⊢
    split_ifs at hheld ⊢ with hkey
    · cases hheld
      exact ⟨_, rfl, h.shifted_callRow rt threadId _ call⟩
    · exact h.rows type key held hheld

theorem replayCalls (h : Ahead ordinals orders st st') (rt : Runtime) (threadId : String)
    (calls : List ToolCall) :
    Ahead ordinals orders (calls.foldl (StreamDB.replayCall rt threadId) st)
      (calls.foldl (StreamDB.replayCall rt threadId) st') := by
  induction calls generalizing st st' with
  | nil => exact h
  | cons call calls ih => exact ih (h.replayCall rt threadId call)

theorem replayTool (h : Ahead ordinals orders st st') (rt : Runtime)
    (threadId summaryPrefix : String) (message : ToolMessage) :
    Ahead ordinals orders (replayMessage rt threadId summaryPrefix st (.tool message))
      (replayMessage rt threadId summaryPrefix st' (.tool message)) where
  ordinal := by
    rw [replayMessage_ordinal, replayMessage_ordinal, h.ordinal]
    omega
  order := by
    rw [replayMessage_order, replayMessage_order, h.order]
    omega
  rows type key held hheld := by
    rw [row_replayMessage_tool] at hheld ⊢
    split_ifs at hheld ⊢ with hkey
    · obtain ⟨row, hrow, rfl⟩ := Option.map_eq_some_iff.mp hheld
      obtain ⟨row', hrow', hshifted⟩ := h.rows .tool key row hrow
      rw [hrow']
      exact ⟨_, rfl, hshifted.settle rt message⟩
    · exact h.rows type key held hheld

theorem replayMessage (h : Ahead ordinals orders st st') (rt : Runtime)
    (threadId summaryPrefix : String) (m : BaseMessage) :
    Ahead ordinals orders (replayMessage rt threadId summaryPrefix st m)
      (StreamDB.replayMessage rt threadId summaryPrefix st' m) := by
  cases m with
  | human message =>
      rw [StreamDB.replayMessage, StreamDB.replayMessage]
      split_ifs
      · exact h.putMessage _ (h.shifted_humanRow rt threadId _ message)
      · exact h
  | ai message =>
      rw [StreamDB.replayMessage, StreamDB.replayMessage]
      split_ifs
      · exact (h.putMessage _ (h.shifted_aiRow rt threadId _ message)).replayCalls rt threadId _
      · exact h
  | tool message => exact h.replayTool rt threadId summaryPrefix message
  | other id => exact h

theorem foldl_replayMessage (h : Ahead ordinals orders st st') (rt : Runtime)
    (threadId summaryPrefix : String) (messages : List BaseMessage) :
    Ahead ordinals orders (messages.foldl (StreamDB.replayMessage rt threadId summaryPrefix) st)
      (messages.foldl (StreamDB.replayMessage rt threadId summaryPrefix) st') := by
  induction messages generalizing st st' with
  | nil => exact h
  | cons m messages ih => exact ih (h.replayMessage rt threadId summaryPrefix m)

end Ahead

variable (rt : Runtime) (threadId summaryPrefix : String)

/-- A replay after others leaves the rows it leaves on its own, past those of the others. -/
theorem ahead_replayMessages (dropped kept : List BaseMessage) :
    Ahead (replayMessages rt threadId summaryPrefix dropped).ordinal
      (replayMessages rt threadId summaryPrefix dropped).order
      (replayMessages rt threadId summaryPrefix kept)
      (replayMessages rt threadId summaryPrefix (dropped ++ kept)) := by
  have hstart : Ahead _ _ .initial (replayMessages rt threadId summaryPrefix dropped) :=
    Ahead.initial
  have hlater := hstart.foldl_replayMessage rt threadId summaryPrefix kept
  rw [replayMessages, replayMessages, replayMessages, List.foldl_append]
  exact hlater

theorem replayWindow_suffix (messages : List BaseMessage) (maxTurns : Option ℤ) :
    ∃ dropped, messages = dropped ++ replayWindow messages maxTurns := by
  cases maxTurns with
  | none => exact ⟨[], rfl⟩
  | some n =>
      obtain ⟨k, hk⟩ := windowToLastTurns_eq_drop messages n
      refine ⟨messages.take k, ?_⟩
      rw [replayWindow, hk, List.take_append_drop]

/-- A windowed replay is the full one restricted to the window and moved to the front. -/
theorem windowed_replay_shifted (messages : List BaseMessage) (maxTurns : Option ℤ) :
    ∃ dropped, messages = dropped ++ replayWindow messages maxTurns ∧
      (∀ type key row,
        (collection type
          (replayHistory rt threadId messages maxTurns summaryPrefix).frames).get key = some row →
        ∃ row', (collection type
            (replayHistory rt threadId messages none summaryPrefix).frames).get key = some row' ∧
          ShiftedRow (replayHistory rt threadId dropped none summaryPrefix).ordinal
            (replayHistory rt threadId dropped none summaryPrefix).order row row') ∧
      (replayHistory rt threadId messages maxTurns summaryPrefix).ordinal +
          (replayHistory rt threadId dropped none summaryPrefix).ordinal =
        (replayHistory rt threadId messages none summaryPrefix).ordinal := by
  obtain ⟨dropped, hmessages⟩ := replayWindow_suffix messages maxTurns
  have hahead := ahead_replayMessages rt threadId summaryPrefix dropped
    (replayWindow messages maxTurns)
  rw [← hmessages] at hahead
  refine ⟨dropped, hmessages, fun type key row hrow => ?_, ?_⟩
  · rw [get_collection_replayHistory] at hrow ⊢
    exact hahead.rows type key row hrow
  · rw [replayHistory_ordinal, replayHistory_ordinal, replayHistory_ordinal]
    exact hahead.ordinal.symm

end StreamDB
