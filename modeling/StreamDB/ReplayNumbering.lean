import Mathlib.Algebra.Order.BigOperators.Group.List
import Mathlib.Algebra.Order.Ring.Nat
import StreamDB.HistoryReplay

/-!
# What the replay numbers and what the live start counts

Both go through the same message list. `slots` is what one message adds to the replay's order
counter; the live start adds `keyedCalls` whether or not the message is rendered, so the two
agree exactly when no unrendered assistant message carries a keyed call.
-/

namespace StreamDB

variable (rt : Runtime) (threadId summaryPrefix : String)

/-- The order positions the replay gives to one message and its tool calls. -/
def slots (summaryPrefix : String) (m : BaseMessage) : ℕ :=
  if carriesOrdinal summaryPrefix m then 1 + keyedCalls m else 0

/-- The keyed calls of a message the replay skips. -/
def skippedCalls (summaryPrefix : String) (m : BaseMessage) : ℕ :=
  if carriesOrdinal summaryPrefix m then 0 else keyedCalls m

theorem replayCalls_order (calls : List ToolCall) (st : ReplayState) :
    (calls.foldl (replayCall rt threadId) st).order =
      st.order + calls.countP ToolCall.keyed := by
  induction calls generalizing st with
  | nil => rfl
  | cons call calls ih =>
      rw [List.foldl_cons, ih]
      by_cases hk : call.keyed
      · simp only [replayCall, hk, if_true, List.countP_cons_of_pos]
        omega
      · simp only [replayCall, hk, List.countP_cons_of_neg, not_false_eq_true, Bool.false_eq_true,
          if_false]

theorem replayCalls_ordinal (calls : List ToolCall) (st : ReplayState) :
    (calls.foldl (replayCall rt threadId) st).ordinal = st.ordinal := by
  induction calls generalizing st with
  | nil => rfl
  | cons call calls ih =>
      rw [List.foldl_cons, ih]
      by_cases hk : call.keyed
      · simp only [replayCall, hk, if_true]
      · simp only [replayCall, hk, Bool.false_eq_true, if_false]

theorem replayMessage_order (st : ReplayState) (m : BaseMessage) :
    (replayMessage rt threadId summaryPrefix st m).order = st.order + slots summaryPrefix m := by
  cases m with
  | human message =>
      by_cases hr : rendersId summaryPrefix message.id
      · simp [replayMessage, slots, carriesOrdinal, keyedCalls, hr, ReplayState.putMessage]
      · simp [replayMessage, slots, carriesOrdinal, hr]
  | ai message =>
      by_cases hr : rendersId summaryPrefix message.id
      · simp only [replayMessage, hr, if_true, replayCalls_order, ReplayState.putMessage, slots,
          carriesOrdinal, keyedCalls]
        omega
      · simp [replayMessage, slots, carriesOrdinal, hr]
  | tool message =>
      cases hrow : st.toolRows.get message.toolCallId with
      | none => simp [replayMessage, hrow, slots, carriesOrdinal]
      | some row => simp [replayMessage, hrow, slots, carriesOrdinal]
  | other id => simp [replayMessage, slots, carriesOrdinal]

theorem replayMessage_ordinal (st : ReplayState) (m : BaseMessage) :
    (replayMessage rt threadId summaryPrefix st m).ordinal =
      st.ordinal + if carriesOrdinal summaryPrefix m then 1 else 0 := by
  cases m with
  | human message =>
      by_cases hr : rendersId summaryPrefix message.id
      · simp [replayMessage, carriesOrdinal, hr, ReplayState.putMessage]
      · simp [replayMessage, carriesOrdinal, hr]
  | ai message =>
      by_cases hr : rendersId summaryPrefix message.id
      · simp [replayMessage, hr, replayCalls_ordinal, ReplayState.putMessage, carriesOrdinal]
      · simp [replayMessage, carriesOrdinal, hr]
  | tool message =>
      cases hrow : st.toolRows.get message.toolCallId with
      | none => simp [replayMessage, hrow, carriesOrdinal]
      | some row => simp [replayMessage, hrow, carriesOrdinal]
  | other id => simp [replayMessage, carriesOrdinal]

theorem foldl_replayMessage_order (messages : List BaseMessage) (st : ReplayState) :
    (messages.foldl (replayMessage rt threadId summaryPrefix) st).order =
      st.order + (messages.map (slots summaryPrefix)).sum := by
  induction messages generalizing st with
  | nil => rfl
  | cons m messages ih =>
      rw [List.foldl_cons, ih, replayMessage_order, List.map_cons, List.sum_cons, Nat.add_assoc]

theorem foldl_replayMessage_ordinal (messages : List BaseMessage) (st : ReplayState) :
    (messages.foldl (replayMessage rt threadId summaryPrefix) st).ordinal =
      st.ordinal + nextLiveOrdinal messages summaryPrefix := by
  induction messages generalizing st with
  | nil => rfl
  | cons m messages ih =>
      rw [List.foldl_cons, ih, replayMessage_ordinal, nextLiveOrdinal, nextLiveOrdinal,
        List.countP_cons, Nat.add_assoc, Nat.add_comm (List.countP _ _)]

theorem replayMessages_order (messages : List BaseMessage) :
    (replayMessages rt threadId summaryPrefix messages).order =
      (messages.map (slots summaryPrefix)).sum := by
  rw [replayMessages, foldl_replayMessage_order]
  exact Nat.zero_add _

/-- The replay assigns exactly the ordinals the live start counts. -/
theorem replayMessages_ordinal (messages : List BaseMessage) :
    (replayMessages rt threadId summaryPrefix messages).ordinal =
      nextLiveOrdinal messages summaryPrefix := by
  rw [replayMessages, foldl_replayMessage_ordinal]
  exact Nat.zero_add _

theorem nextLiveOrder_cons (m : BaseMessage) (messages : List BaseMessage) :
    nextLiveOrder (m :: messages) summaryPrefix =
      slots summaryPrefix m + skippedCalls summaryPrefix m +
        nextLiveOrder messages summaryPrefix := by
  simp only [nextLiveOrder, nextLiveOrdinal, List.countP_cons, List.map_cons, List.sum_cons, slots,
    skippedCalls]
  split_ifs <;> omega

theorem nextLiveOrder_append (ms ms' : List BaseMessage) :
    nextLiveOrder (ms ++ ms') summaryPrefix =
      nextLiveOrder ms summaryPrefix + nextLiveOrder ms' summaryPrefix := by
  simp only [nextLiveOrder, nextLiveOrdinal, List.countP_append, List.map_append, List.sum_append]
  omega

/-- The live start overshoots the replay by the keyed calls of the messages the replay skips. -/
theorem nextLiveOrder_eq (messages : List BaseMessage) :
    nextLiveOrder messages summaryPrefix =
      (replayMessages rt threadId summaryPrefix messages).order +
        (messages.map (skippedCalls summaryPrefix)).sum := by
  rw [replayMessages_order]
  induction messages with
  | nil => rfl
  | cons m messages ih =>
      rw [nextLiveOrder_cons, ih, List.map_cons, List.map_cons, List.sum_cons, List.sum_cons]
      omega

theorem sum_skippedCalls_eq_zero (messages : List BaseMessage) :
    (messages.map (skippedCalls summaryPrefix)).sum = 0 ↔
      ∀ m ∈ messages, carriesOrdinal summaryPrefix m = false → keyedCalls m = 0 := by
  rw [List.sum_eq_zero_iff (M := ℕ), List.forall_mem_map]
  apply forall₂_congr
  intro m _
  cases hc : carriesOrdinal summaryPrefix m with
  | true => simp [skippedCalls, hc]
  | false => simp [skippedCalls, hc]

theorem replay_order_eq_nextLiveOrder_iff (messages : List BaseMessage) :
    (replayHistory rt threadId messages none summaryPrefix).order =
        nextLiveOrder messages summaryPrefix ↔
      ∀ m ∈ messages, carriesOrdinal summaryPrefix m = false → keyedCalls m = 0 := by
  rw [← sum_skippedCalls_eq_zero, nextLiveOrder_eq rt threadId]
  change (replayMessages rt threadId summaryPrefix messages).order = _ ↔ _
  omega

/-- A compaction summary that still carries a call is skipped by the replay, call included, and
counted by the live start. -/
theorem replay_order_ne_nextLiveOrder :
    ¬ ∀ (rt : Runtime) (threadId : String) (messages : List BaseMessage) (summaryPrefix : String),
      (replayHistory rt threadId messages none summaryPrefix).order =
        nextLiveOrder messages summaryPrefix := by
  intro h
  have he := h plainRuntime "t"
    [.ai ⟨some "summarization-1", .str "", [⟨some "c1", .str "search", .dict []⟩]⟩]
    summarizationMessageIdPrefix
  revert he
  decide

end StreamDB
