import StreamDB.ReplayStore

/-!
# The transcript a replay numbers

A transcript lists the rows of a replay: each rendered message, an assistant message followed by
its keyed calls. Where no row is listed twice, the replay leaves exactly the listed rows, each at
its position in the list and each message at its position among the messages.
-/

namespace StreamDB

/-- The rows of one message: their collections and keys. -/
def listing (summaryPrefix : String) : BaseMessage → List (RowType × String)
  | .human message =>
      if rendersId summaryPrefix message.id then [(.message, message.id.getD "")] else []
  | .ai message =>
      if rendersId summaryPrefix message.id then
        (.message, message.id.getD "") ::
          (message.toolCalls.filter ToolCall.keyed).map fun call => (.tool, call.id.getD "")
      else []
  | _ => []

def transcript (summaryPrefix : String) (messages : List BaseMessage) : List (RowType × String) :=
  messages.flatMap (listing summaryPrefix)

def messageIds (rows : List (RowType × String)) : List String :=
  (rows.filter fun e => e.1 = .message).map Prod.snd

theorem messageIds_append (rows later : List (RowType × String)) :
    messageIds (rows ++ later) = messageIds rows ++ messageIds later := by
  rw [messageIds, List.filter_append, List.map_append]
  rfl

theorem mem_messageIds {rows : List (RowType × String)} {key : String} :
    key ∈ messageIds rows ↔ (RowType.message, key) ∈ rows := by
  simp [messageIds]

theorem getElem?_concat_eq_some {α : Type} {l : List α} {a b : α} {i : ℕ} :
    (l ++ [a])[i]? = some b ↔ l[i]? = some b ∨ i = l.length ∧ a = b := by
  rw [List.getElem?_append]
  split_ifs with hlt
  · have hne : i ≠ l.length := by omega
    simp [hne]
  · have hnone : l[i]? = none := List.getElem?_eq_none (by omega)
    rw [List.getElem?_singleton, hnone]
    split_ifs with hz
    · have hlast : i = l.length := by omega
      simp [hlast]
    · have hne : i ≠ l.length := by omega
      simp [hne]

/-- What a store holds is what is listed, at the places of the list. -/
structure Lists (held : RowType → String → Option Row) (rows : List (RowType × String)) :
    Prop where
  orders : ∀ (i : ℕ) type key, rows[i]? = some (type, key) →
    ∃ row, held type key = some row ∧ row.get "order" = some (.int i)
  ordinals : ∀ (i : ℕ) key, (messageIds rows)[i]? = some key →
    ∃ row, held .message key = some row ∧ row.get "ordinal" = some (.int i)
  only : ∀ type key row, held type key = some row → (type, key) ∈ rows

/-- A row under a new key goes to the end of the list. -/
theorem Lists.concat {held held' : RowType → String → Option Row}
    {rows : List (RowType × String)} (h : Lists held rows) {type : RowType} {id : String}
    (hnew : (type, id) ∉ rows) {row : Row}
    (hheld : ∀ type' key, held' type' key =
      if type' = type ∧ id = key then some row else held type' key)
    (ho : row.get "order" = some (.int rows.length))
    (hn : type = .message → row.get "ordinal" = some (.int (messageIds rows).length)) :
    Lists held' (rows ++ [(type, id)]) where
  orders i type' key hi := by
    rw [hheld]
    rcases getElem?_concat_eq_some.mp hi with hold | ⟨rfl, heq⟩
    · have hne : ¬ (type' = type ∧ id = key) := by
        rintro ⟨rfl, rfl⟩
        exact hnew (List.mem_of_getElem? hold)
      rw [if_neg hne]
      exact h.orders i type' key hold
    · cases heq
      rw [if_pos ⟨rfl, rfl⟩]
      exact ⟨row, rfl, ho⟩
  ordinals i key hi := by
    rw [hheld]
    by_cases hkey : RowType.message = type ∧ id = key
    · obtain ⟨rfl, rfl⟩ := hkey
      have hlast : messageIds (rows ++ [(.message, id)]) = messageIds rows ++ [id] :=
        messageIds_append _ _
      rw [hlast] at hi
      rw [if_pos ⟨rfl, rfl⟩]
      rcases getElem?_concat_eq_some.mp hi with hi | ⟨rfl, _⟩
      · exact absurd (mem_messageIds.mp (List.mem_of_getElem? hi)) hnew
      · exact ⟨row, rfl, hn rfl⟩
    · rw [if_neg hkey]
      apply h.ordinals
      by_cases htype : type = .message
      · subst htype
        rw [messageIds_append] at hi
        rcases getElem?_concat_eq_some.mp hi with hi | ⟨_, heq⟩
        · exact hi
        · exact absurd ⟨rfl, heq⟩ hkey
      · have hsame : messageIds (rows ++ [(type, id)]) = messageIds rows := by
          rw [messageIds_append]
          simp [messageIds, htype]
        rwa [hsame] at hi
  only type' key row' hrow := by
    rw [hheld] at hrow
    split_ifs at hrow with hkey
    · obtain ⟨rfl, rfl⟩ := hkey
      exact List.mem_append_right _ (List.mem_singleton_self _)
    · exact List.mem_append_left _ (h.only type' key row' hrow)

structure ListedSoFar (st : ReplayState) (rows : List (RowType × String)) : Prop where
  order : st.order = rows.length
  ordinal : st.ordinal = (messageIds rows).length
  lists : Lists st.row rows

namespace ListedSoFar

variable {st : ReplayState} {rows : List (RowType × String)}

theorem initial : ListedSoFar .initial [] where
  order := rfl
  ordinal := rfl
  lists :=
    { orders := fun _ _ _ h => nomatch h
      ordinals := fun _ _ h => nomatch h
      only := fun type key row h => by
        rw [ReplayState.row_initial] at h
        cases h }

theorem putMessage (h : ListedSoFar st rows) {id : String} (hnew : (RowType.message, id) ∉ rows)
    {row : Row} (ho : row.get "order" = some (.int st.order))
    (hn : row.get "ordinal" = some (.int st.ordinal)) :
    ListedSoFar (st.putMessage id row) (rows ++ [(.message, id)]) where
  order := by
    rw [List.length_append, ← h.order]
    rfl
  ordinal := by
    rw [messageIds_append, List.length_append, ← h.ordinal]
    rfl
  lists := by
    rw [h.order] at ho
    rw [h.ordinal] at hn
    exact h.lists.concat hnew (fun type key => st.row_putMessage type key id row) ho fun _ => hn

theorem replayCall (h : ListedSoFar st rows) (rt : Runtime) (threadId : String) {call : ToolCall}
    (hkeyed : call.keyed) (hnew : (RowType.tool, call.id.getD "") ∉ rows) :
    ListedSoFar (replayCall rt threadId st call) (rows ++ [(.tool, call.id.getD "")]) where
  order := by
    rw [List.length_append, ← h.order, StreamDB.replayCall, if_pos hkeyed]
    rfl
  ordinal := by
    rw [messageIds_append, List.length_append, ← h.ordinal, StreamDB.replayCall, if_pos hkeyed]
    rfl
  lists := by
    have hplace : (callRow rt threadId (call.id.getD "") call st.order).get "order" =
        some (.int rows.length) := by
      rw [← h.order]
      simp [callRow, OrderedDict.ofEntries]
    refine h.lists.concat hnew (fun type key => ?_) hplace fun htype => ?_
    · rw [row_replayCall]
      simp only [hkeyed, true_and]
    · cases htype

theorem replayCalls (h : ListedSoFar st rows) (rt : Runtime) (threadId : String)
    {calls : List ToolCall}
    (hnodup : (rows ++ (calls.filter ToolCall.keyed).map fun call =>
      (RowType.tool, call.id.getD "")).Nodup) :
    ListedSoFar (calls.foldl (StreamDB.replayCall rt threadId) st)
      (rows ++ (calls.filter ToolCall.keyed).map fun call => (.tool, call.id.getD "")) := by
  induction calls generalizing st rows with
  | nil =>
      rw [List.filter_nil, List.map_nil, List.append_nil]
      exact h
  | cons call calls ih =>
      rw [List.foldl_cons]
      by_cases hkeyed : call.keyed
      · rw [List.filter_cons_of_pos hkeyed, List.map_cons, List.append_cons] at hnodup ⊢
        have hnew : (RowType.tool, call.id.getD "") ∉ rows := by
          have hfront := (List.nodup_append.mp hnodup).1
          exact fun hmem => (List.nodup_append.mp hfront).2.2 _ hmem _ (.head _) rfl
        exact ih (h.replayCall rt threadId hkeyed hnew) hnodup
      · rw [List.filter_cons_of_neg hkeyed] at hnodup ⊢
        rw [StreamDB.replayCall, if_neg hkeyed]
        exact ih h hnodup

theorem replayTool (h : ListedSoFar st rows) (rt : Runtime) (threadId summaryPrefix : String)
    (message : ToolMessage) :
    ListedSoFar (replayMessage rt threadId summaryPrefix st (.tool message)) rows where
  order := by
    rw [replayMessage_order]
    exact h.order
  ordinal := by
    rw [replayMessage_ordinal]
    exact h.ordinal
  lists :=
    { orders := by
        intro i type key hi
        obtain ⟨row, hrow, ho⟩ := h.lists.orders i type key hi
        rw [row_replayMessage_tool]
        split_ifs with hkey
        · rw [hkey.1] at hrow
          rw [hrow]
          exact ⟨_, rfl, by rw [settledRow_order, ho]⟩
        · exact ⟨row, hrow, ho⟩
      ordinals := by
        intro i key hi
        have htype : RowType.message ≠ .tool := fun h => by cases h
        rw [row_replayMessage_tool, if_neg fun hkey => htype hkey.1]
        exact h.lists.ordinals i key hi
      only := by
        intro type key row hrow
        rw [row_replayMessage_tool] at hrow
        split_ifs at hrow with hkey
        · obtain ⟨row', hrow', _⟩ := Option.map_eq_some_iff.mp hrow
          rw [hkey.1]
          exact h.lists.only .tool key row' hrow'
        · exact h.lists.only type key row hrow }

theorem replayMessage (h : ListedSoFar st rows) (rt : Runtime) (threadId summaryPrefix : String)
    {m : BaseMessage} (hnodup : (rows ++ listing summaryPrefix m).Nodup) :
    ListedSoFar (replayMessage rt threadId summaryPrefix st m)
      (rows ++ listing summaryPrefix m) := by
  cases m with
  | human message =>
      rw [StreamDB.replayMessage]
      rw [listing] at hnodup ⊢
      split_ifs at hnodup ⊢
      · have hnew := fun hmem => (List.nodup_append.mp hnodup).2.2 _ hmem _ (.head _) rfl
        exact h.putMessage hnew (humanRow_order _ _ _ _ _) (humanRow_ordinal _ _ _ _ _)
      · rw [List.append_nil]
        exact h
  | ai message =>
      rw [StreamDB.replayMessage]
      rw [listing] at hnodup ⊢
      split_ifs at hnodup ⊢
      · have hnew := fun hmem => (List.nodup_append.mp hnodup).2.2 _ hmem _ (.head _) rfl
        rw [List.append_cons] at hnodup ⊢
        have hput := h.putMessage hnew (aiRow_order rt threadId (message.id.getD "") st message)
          (aiRow_ordinal rt threadId (message.id.getD "") st message)
        exact hput.replayCalls rt threadId hnodup
      · rw [List.append_nil]
        exact h
  | tool message =>
      simpa only [listing, List.append_nil] using h.replayTool rt threadId summaryPrefix message
  | other id =>
      simpa only [listing, List.append_nil, StreamDB.replayMessage] using h

theorem foldl_replayMessage (h : ListedSoFar st rows) (rt : Runtime)
    (threadId summaryPrefix : String) {messages : List BaseMessage}
    (hnodup : (rows ++ transcript summaryPrefix messages).Nodup) :
    ListedSoFar (messages.foldl (StreamDB.replayMessage rt threadId summaryPrefix) st)
      (rows ++ transcript summaryPrefix messages) := by
  induction messages generalizing st rows with
  | nil =>
      rw [transcript, List.flatMap_nil, List.append_nil]
      exact h
  | cons m messages ih =>
      rw [transcript, List.flatMap_cons, ← List.append_assoc] at hnodup ⊢
      exact ih (h.replayMessage rt threadId summaryPrefix (List.nodup_append.mp hnodup).1) hnodup

end ListedSoFar

/-- The rows of a replay carry the places of the transcript, and there are no others. -/
theorem replay_numbers_transcript (rt : Runtime) (threadId summaryPrefix : String)
    (messages : List BaseMessage) (h : (transcript summaryPrefix messages).Nodup) :
    let r := replayHistory rt threadId messages none summaryPrefix
    Lists (fun type key => (collection type r.frames).get key)
        (transcript summaryPrefix messages) ∧
      r.ordinal = (messageIds (transcript summaryPrefix messages)).length ∧
      r.ordinal = nextLiveOrdinal messages summaryPrefix := by
  intro r
  have hlisted : ListedSoFar (replayMessages rt threadId summaryPrefix messages)
      (transcript summaryPrefix messages) :=
    ListedSoFar.initial.foldl_replayMessage rt threadId summaryPrefix h
  have hheld : (fun type key => (collection type r.frames).get key) =
      (replayMessages rt threadId summaryPrefix messages).row := by
    funext type key
    exact get_collection_replayHistory key none
  rw [hheld]
  exact ⟨hlisted.lists, hlisted.ordinal, replayMessages_ordinal rt threadId summaryPrefix messages⟩

/-- Two messages, one of them with a call that is answered. -/
theorem replay_numbers_transcript_earlierTurn :
    let r := replayHistory plainRuntime "t" earlierTurn none "summarization-"
    transcript "summarization-" earlierTurn =
        [(.message, "u0"), (.message, "a0"), (.tool, "c0")] ∧
      Lists (fun type key => (collection type r.frames).get key)
          (transcript "summarization-" earlierTurn) ∧
        r.ordinal = (messageIds (transcript "summarization-" earlierTurn)).length ∧
        r.ordinal = nextLiveOrdinal earlierTurn "summarization-" :=
  ⟨rfl, replay_numbers_transcript plainRuntime "t" "summarization-" earlierTurn (by decide)⟩

end StreamDB
