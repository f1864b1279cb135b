import StreamDB.ToolRows

/-!
# The rows of a replay

Every row a replay writes is that of a rendered message, or the row of a call under its own id.
-/

namespace StreamDB

variable (rt : Runtime) (threadId summaryPrefix : String)

inductive Replayed (messages : List BaseMessage) : Frame → Prop
  | human {message : HumanMessage} (mem : .human message ∈ messages)
      (renders : rendersId summaryPrefix message.id) (st : ReplayState) :
      Replayed messages (upsertFrame .message (message.id.getD "")
        (humanRow rt threadId (message.id.getD "") message st) none)
  | ai {message : AIMessage} (mem : .ai message ∈ messages)
      (renders : rendersId summaryPrefix message.id) (st : ReplayState) :
      Replayed messages (upsertFrame .message (message.id.getD "")
        (aiRow rt threadId (message.id.getD "") message st) none)
  | tool {row : Row} {k : String} (id : row.get "id" = some (.str k)) :
      Replayed messages (upsertFrame .tool k row none)

variable {rt threadId summaryPrefix} {messages : List BaseMessage}

theorem replayCalls_frames (calls : List ToolCall) (st : ReplayState) :
    (calls.foldl (replayCall rt threadId) st).frames = st.frames := by
  induction calls generalizing st with
  | nil => rfl
  | cons call calls ih =>
      rw [List.foldl_cons, ih]
      by_cases hk : call.keyed
      · simp only [replayCall, hk, if_true]
      · simp only [replayCall, hk, Bool.false_eq_true, if_false]

theorem replayed_replayMessage {st : ReplayState} {m : BaseMessage} (hm : m ∈ messages)
    (h : ∀ f ∈ st.frames, Replayed rt threadId summaryPrefix messages f) :
    ∀ f ∈ (replayMessage rt threadId summaryPrefix st m).frames,
      Replayed rt threadId summaryPrefix messages f := by
  cases m with
  | human message =>
      by_cases hr : rendersId summaryPrefix message.id
      · simp only [replayMessage, hr, if_true, ReplayState.putMessage]
        intro f hf
        rcases List.mem_append.mp hf with hf | hf
        · exact h f hf
        · rw [List.mem_singleton.mp hf]
          exact .human hm hr st
      · simpa only [replayMessage, hr, Bool.false_eq_true, if_false] using h
  | ai message =>
      by_cases hr : rendersId summaryPrefix message.id
      · simp only [replayMessage, hr, if_true, replayCalls_frames, ReplayState.putMessage]
        intro f hf
        rcases List.mem_append.mp hf with hf | hf
        · exact h f hf
        · rw [List.mem_singleton.mp hf]
          exact .ai hm hr st
      · simpa only [replayMessage, hr, Bool.false_eq_true, if_false] using h
  | tool message =>
      cases hrow : st.toolRows.get message.toolCallId with
      | none => simpa only [replayMessage, hrow] using h
      | some row => simpa only [replayMessage, hrow] using h
  | other id => exact h

theorem replayed_replayMessages :
    ∀ f ∈ (replayMessages rt threadId summaryPrefix messages).frames,
      Replayed rt threadId summaryPrefix messages f := by
  have hfold : ∀ ms : List BaseMessage, (∀ m ∈ ms, m ∈ messages) → ∀ st : ReplayState,
      (∀ f ∈ st.frames, Replayed rt threadId summaryPrefix messages f) →
      ∀ f ∈ (ms.foldl (replayMessage rt threadId summaryPrefix) st).frames,
        Replayed rt threadId summaryPrefix messages f := by
    intro ms
    induction ms with
    | nil => exact fun _ _ h => h
    | cons m ms ih =>
        intro hmem st h
        exact ih (fun other ho => hmem other (List.mem_cons_of_mem _ ho)) _
          (replayed_replayMessage (hmem m List.mem_cons_self) h)
  exact hfold messages (fun _ hm => hm) _ fun _ hf => nomatch hf

theorem Replayed.mono {messages' : List BaseMessage} {f : Frame}
    (h : Replayed rt threadId summaryPrefix messages f) (hsub : ∀ m ∈ messages, m ∈ messages') :
    Replayed rt threadId summaryPrefix messages' f := by
  cases h with
  | human mem renders st => exact .human (hsub _ mem) renders st
  | ai mem renders st => exact .ai (hsub _ mem) renders st
  | tool id => exact .tool id

/-- A row kept under its own id has that id as a text. -/
theorem KeyedRows.get_id {st : ReplayState} (h : KeyedRows st) {k : String} {row : Row}
    (hrow : st.toolRows.get k = some row) : row.get "id" = some (.str k) := by
  obtain ⟨hid, hne⟩ := h k row hrow
  rw [rowText] at hid
  split at hid
  · next s hget => rw [hget, hid]
  · exact absurd hid.symm hne

theorem replayed_of_mem (maxTurns : Option ℤ) :
    ∀ f ∈ (replayHistory rt threadId messages maxTurns summaryPrefix).frames,
      Replayed rt threadId summaryPrefix messages f := by
  obtain ⟨k, hframes⟩ := replayHistory_eq_drop rt threadId summaryPrefix messages maxTurns
  intro f hf
  rw [hframes] at hf
  rcases List.mem_append.mp hf with hf | hf
  · exact (replayed_replayMessages f hf).mono fun m hm => List.mem_of_mem_drop hm
  · obtain ⟨row, hrow, rfl⟩ := mem_toolFrames hf
    obtain ⟨key, hget⟩ := OrderedDict.mem_values_iff.mp hrow
    have hkeyed := keyedRows_replayMessages rt threadId summaryPrefix (messages.drop k)
    rw [(hkeyed key row hget).1]
    exact .tool (hkeyed.get_id hget)

end StreamDB
