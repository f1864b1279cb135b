import StreamDB.CounterInvariant
import StreamDB.ReplayNumbering

/-!
# Seeded history below the live rows

Every row of a replay lies below the counters the replay ends with, these do not pass the live
start of the full list, windowed or not, and a translator seeded with that start numbers its own
rows from there on.
-/

namespace StreamDB

open Coroutine

structure RowsBelow (st : ReplayState) : Prop where
  messages : ∀ f ∈ st.frames, f.type = .message ∧
    (∃ o : ℕ, f.order = some (o : ℤ) ∧ o < st.order) ∧
    ∃ n : ℕ, f.ordinal = some (n : ℤ) ∧ n < st.ordinal
  tools : ∀ row ∈ st.toolRows.values, ∃ o : ℕ, row.get "order" = some (.int o) ∧ o < st.order

namespace RowsBelow

variable {st : ReplayState}

theorem initial : RowsBelow .initial :=
  ⟨by simp [ReplayState.initial], by simp [ReplayState.initial]⟩

theorem putMessage (h : RowsBelow st) (id : String) {row : Row}
    (ho : row.get "order" = some (.int st.order))
    (hn : row.get "ordinal" = some (.int st.ordinal)) : RowsBelow (st.putMessage id row) := by
  constructor
  · intro f hf
    rcases List.mem_append.mp hf with hf | hf
    · obtain ⟨hm, ⟨o, hfo, hlt⟩, n, hfn, hnlt⟩ := h.messages f hf
      exact ⟨hm, ⟨o, hfo, Nat.lt_succ_of_lt hlt⟩, n, hfn, Nat.lt_succ_of_lt hnlt⟩
    · rw [List.mem_singleton.mp hf]
      exact ⟨rfl, ⟨st.order, intField_upsertFrame ho _ _ _, Nat.lt_succ_self _⟩, st.ordinal,
        intField_upsertFrame hn _ _ _, Nat.lt_succ_self _⟩
  · intro row' hrow
    obtain ⟨o, hget, hlt⟩ := h.tools row' hrow
    exact ⟨o, hget, Nat.lt_succ_of_lt hlt⟩

theorem replayCall (h : RowsBelow st) (rt : Runtime) (threadId : String) (call : ToolCall) :
    RowsBelow (replayCall rt threadId st call) := by
  by_cases hk : call.keyed
  · simp only [StreamDB.replayCall, hk, if_true]
    constructor
    · intro f hf
      obtain ⟨hm, ⟨o, hfo, hlt⟩, hn⟩ := h.messages f hf
      exact ⟨hm, ⟨o, hfo, Nat.lt_succ_of_lt hlt⟩, hn⟩
    · intro row hrow
      rcases OrderedDict.mem_values_set hrow with rfl | hrow
      · exact ⟨st.order, by simp [callRow, OrderedDict.ofEntries], Nat.lt_succ_self _⟩
      · obtain ⟨o, hget, hlt⟩ := h.tools row hrow
        exact ⟨o, hget, Nat.lt_succ_of_lt hlt⟩
  · simpa only [StreamDB.replayCall, hk, Bool.false_eq_true, if_false] using h

theorem replayCalls (h : RowsBelow st) (rt : Runtime) (threadId : String)
    (calls : List ToolCall) : RowsBelow (calls.foldl (StreamDB.replayCall rt threadId) st) := by
  induction calls generalizing st with
  | nil => exact h
  | cons call calls ih => exact ih (h.replayCall rt threadId call)

end RowsBelow

/-- A result leaves the place of the call's row alone. -/
theorem settledRow_order (rt : Runtime) (row : Row) (message : ToolMessage) :
    (settledRow rt row message).get "order" = row.get "order" := by
  unfold settledRow
  split_ifs
  · rw [OrderedDict.get_set_of_ne _ _ (by decide), OrderedDict.get_set_of_ne _ _ (by decide)]
  · rw [OrderedDict.get_set_of_ne _ _ (by decide)]

variable (rt : Runtime) (threadId summaryPrefix : String)

theorem rowsBelow_replayMessage {st : ReplayState} (h : RowsBelow st) (m : BaseMessage) :
    RowsBelow (replayMessage rt threadId summaryPrefix st m) := by
  cases m with
  | human message =>
      by_cases hr : rendersId summaryPrefix message.id
      · simp only [replayMessage, hr, if_true]
        exact h.putMessage _ (humanRow_order _ _ _ _ _) (humanRow_ordinal _ _ _ _ _)
      · simpa only [replayMessage, hr, Bool.false_eq_true, if_false] using h
  | ai message =>
      by_cases hr : rendersId summaryPrefix message.id
      · simp only [replayMessage, hr, if_true]
        apply RowsBelow.replayCalls
        exact h.putMessage _ (aiRow_order _ _ _ _ _) (aiRow_ordinal _ _ _ _ _)
      · simpa only [replayMessage, hr, Bool.false_eq_true, if_false] using h
  | tool message =>
      cases hrow : st.toolRows.get message.toolCallId with
      | none => simpa only [replayMessage, hrow] using h
      | some row =>
          simp only [replayMessage, hrow]
          refine ⟨h.messages, ?_⟩
          intro row' hmem
          rcases OrderedDict.mem_values_set hmem with rfl | hmem
          · rw [settledRow_order]
            exact h.tools row (OrderedDict.mem_values_iff.mpr ⟨_, hrow⟩)
          · exact h.tools row' hmem
  | other id => exact h

theorem rowsBelow_replayMessages (messages : List BaseMessage) :
    RowsBelow (replayMessages rt threadId summaryPrefix messages) := by
  have hfold : ∀ st, RowsBelow st →
      RowsBelow (messages.foldl (replayMessage rt threadId summaryPrefix) st) := by
    induction messages with
    | nil => exact fun _ h => h
    | cons m messages ih =>
        exact fun st h => ih _ (rowsBelow_replayMessage rt threadId summaryPrefix h m)
  exact hfold _ .initial

/-! ## The window -/

theorem windowToLastTurns_eq_drop (messages : List BaseMessage) (maxTurns : ℤ) :
    ∃ k, windowToLastTurns messages maxTurns = messages.drop k := by
  unfold windowToLastTurns
  split_ifs
  · exact ⟨0, rfl⟩
  · dsimp only
    split_ifs
    · exact ⟨0, rfl⟩
    · exact ⟨_, rfl⟩

theorem nextLiveOrdinal_drop_le (messages : List BaseMessage) (k : ℕ) :
    nextLiveOrdinal (messages.drop k) summaryPrefix ≤ nextLiveOrdinal messages summaryPrefix :=
  (List.drop_sublist k messages).countP_le

theorem nextLiveOrder_drop_le (messages : List BaseMessage) (k : ℕ) :
    nextLiveOrder (messages.drop k) summaryPrefix ≤ nextLiveOrder messages summaryPrefix := by
  have happ := nextLiveOrder_append summaryPrefix (messages.take k) (messages.drop k)
  rw [List.take_append_drop] at happ
  omega

/-- The messages a replay goes through. -/
theorem replayHistory_eq_drop (messages : List BaseMessage) (maxTurns : Option ℤ) :
    ∃ k, (replayHistory rt threadId messages maxTurns summaryPrefix).frames =
      (replayMessages rt threadId summaryPrefix (messages.drop k)).frames ++
        toolFrames (replayMessages rt threadId summaryPrefix (messages.drop k)).toolRows := by
  cases maxTurns with
  | none => exact ⟨0, rfl⟩
  | some n =>
      obtain ⟨k, hk⟩ := windowToLastTurns_eq_drop messages n
      refine ⟨k, ?_⟩
      simp only [replayHistory, hk]

theorem replayMessages_order_le (messages : List BaseMessage) (k : ℕ) :
    (replayMessages rt threadId summaryPrefix (messages.drop k)).order ≤
      nextLiveOrder messages summaryPrefix := by
  have heq := nextLiveOrder_eq rt threadId summaryPrefix (messages.drop k)
  have hle := nextLiveOrder_drop_le summaryPrefix messages k
  omega

theorem replayMessages_ordinal_le (messages : List BaseMessage) (k : ℕ) :
    (replayMessages rt threadId summaryPrefix (messages.drop k)).ordinal ≤
      nextLiveOrdinal messages summaryPrefix := by
  rw [replayMessages_ordinal]
  exact nextLiveOrdinal_drop_le summaryPrefix messages k

theorem mem_toolFrames {toolRows : OrderedDict String Row} {f : Frame}
    (h : f ∈ toolFrames toolRows) :
    ∃ row ∈ toolRows.values, f = upsertFrame .tool (rowText row "id") row none := by
  obtain ⟨row, hrow, rfl⟩ := List.mem_map.mp h
  exact ⟨row, hrow, rfl⟩

/-- No row of a replay reaches the live start of the full list. -/
theorem replayHistory_below (messages : List BaseMessage) (maxTurns : Option ℤ) :
    ∀ f ∈ (replayHistory rt threadId messages maxTurns summaryPrefix).frames,
      (∃ o, f.order = some o ∧ o < nextLiveOrder messages summaryPrefix) ∧
      (f.type = .message →
        ∃ n, f.ordinal = some n ∧ n < nextLiveOrdinal messages summaryPrefix) := by
  obtain ⟨k, hframes⟩ := replayHistory_eq_drop rt threadId summaryPrefix messages maxTurns
  have hbelow := rowsBelow_replayMessages rt threadId summaryPrefix (messages.drop k)
  have horder := replayMessages_order_le rt threadId summaryPrefix messages k
  have hordinal := replayMessages_ordinal_le rt threadId summaryPrefix messages k
  intro f hf
  rw [hframes] at hf
  rcases List.mem_append.mp hf with hf | hf
  · obtain ⟨_, ⟨o, hfo, ho⟩, n, hfn, hn⟩ := hbelow.messages f hf
    exact ⟨⟨o, hfo, by omega⟩, fun _ => ⟨n, hfn, by omega⟩⟩
  · obtain ⟨row, hrow, rfl⟩ := mem_toolFrames hf
    obtain ⟨o, hget, ho⟩ := hbelow.tools row hrow
    exact ⟨⟨o, intField_upsertFrame hget _ _ _, by omega⟩, fun hm => nomatch hm⟩

variable {rt threadId summaryPrefix} {runId : String} {s t : ℤ}

/-- Live rows are numbered from the seed on. -/
theorem live_rows_from_seed {activities : List Activity} {c : System}
    (h : Reaches anyStep
      (startSystem rt (Translator.seeded threadId runId summaryPrefix s t) activities) c) :
    ∀ f ∈ c.state.frames,
      (f.placed → ∃ o, f.order = some o ∧ s ≤ o) ∧
      (f.transcript → ∃ n, f.ordinal = some n ∧ t ≤ n) := by
  have hcounted := counted_of_reaches h
  intro f hf
  refine ⟨fun hplaced => ?_, fun htranscript => ?_⟩
  · obtain ⟨o, ho, hs, _⟩ := hcounted.orders.number_bounds hf hplaced
    exact ⟨o, ho, hs⟩
  · obtain ⟨n, hn, ht, _⟩ := hcounted.ordinals.number_bounds hf htranscript
    exact ⟨n, hn, ht⟩

/-- Seeded rows stay below the live start, and every live row lies strictly above every seeded
one, in the order of the stream and in the order of the transcript. -/
theorem seeded_rows_below_live_rows (messages : List BaseMessage) (maxTurns : Option ℤ)
    {activities : List Activity} {c : System}
    (h : Reaches anyStep
      (startSystem rt
        (Translator.seeded threadId runId summaryPrefix (nextLiveOrder messages summaryPrefix)
          (nextLiveOrdinal messages summaryPrefix)) activities) c) :
    ∀ f ∈ (replayHistory rt threadId messages maxTurns summaryPrefix).frames,
      ((∃ o, f.order = some o ∧ o < nextLiveOrder messages summaryPrefix) ∧
        (f.type = .message →
          ∃ n, f.ordinal = some n ∧ n < nextLiveOrdinal messages summaryPrefix)) ∧
      ∀ g ∈ c.state.frames,
        (g.placed → ∃ o o', f.order = some o ∧ g.order = some o' ∧ o < o') ∧
        (f.type = .message → g.transcript →
          ∃ n n', f.ordinal = some n ∧ g.ordinal = some n' ∧ n < n') := by
  intro f hf
  have hbelow := replayHistory_below rt threadId summaryPrefix messages maxTurns f hf
  refine ⟨hbelow, ?_⟩
  intro g hg
  have hlive := live_rows_from_seed h g hg
  refine ⟨fun hplaced => ?_, fun hm htranscript => ?_⟩
  · obtain ⟨o, hfo, ho⟩ := hbelow.1
    obtain ⟨o', hgo, ho'⟩ := hlive.1 hplaced
    exact ⟨o, o', hfo, hgo, by omega⟩
  · obtain ⟨n, hfn, hn⟩ := hbelow.2 hm
    obtain ⟨n', hgn, hn'⟩ := hlive.2 htranscript
    exact ⟨n, n', hfn, hgn, by omega⟩

def earlierTurn : List BaseMessage :=
  [.human ⟨some "u0", .str "hello", []⟩,
    .ai ⟨some "a0", .str "looking", [⟨some "c0", .str "search", .dict []⟩]⟩,
    .tool ⟨"c0", .str "found", .none, .success⟩]

theorem seeded_rows_below_live_rows_earlierTurn :
    let replayed := replayHistory plainRuntime "t" earlierTurn (some 1) "summarization-"
    let c := (askAndSearch (nextLiveOrder earlierTurn "summarization-")
      (nextLiveOrdinal earlierTurn "summarization-")).after (fun _ _ => true)
      askThenSearch (by decide)
    (replayed.frames.map Frame.order = [some 0, some 1, some 2] ∧
        c.state.frames.map Frame.order = [some 3, some 4, some 4]) ∧
      ∀ f ∈ replayed.frames, ∀ g ∈ c.state.frames, g.placed →
        ∃ o o', f.order = some o ∧ g.order = some o' ∧ o < o' :=
  ⟨by decide, fun f hf g hg =>
    ((seeded_rows_below_live_rows earlierTurn (some 1)
      (reaches_after (fun _ _ _ => trivial) _ _ _) f hf).2 g hg).1⟩

end StreamDB
