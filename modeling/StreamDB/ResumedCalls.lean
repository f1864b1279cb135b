import StreamDB.ToolRows
import StreamDB.TurnOrder

/-!
# Calls that are resumed

A call of the history has one replayed row, below the live start. A translator that executes the
call again numbers it from the live start on, as it does every key it has not met: whatever it
writes for the call has one order, past the whole history.
-/

namespace StreamDB

open Coroutine

section Replay

variable (rt : Runtime) (threadId summaryPrefix : String)

/-- The row of a call is kept, settled or replaced, but never dropped. -/
theorem replayCall_get_isSome (call : ToolCall) {st : ReplayState} {k : String}
    (h : (st.toolRows.get k).isSome) :
    ((replayCall rt threadId st call).toolRows.get k).isSome := by
  by_cases hkeyed : call.keyed
  · simp only [replayCall, hkeyed, if_true, OrderedDict.get_set]
    split_ifs
    · rfl
    · exact h
  · simpa only [replayCall, hkeyed, Bool.false_eq_true, if_false] using h

theorem replayCalls_get_isSome (calls : List ToolCall) {st : ReplayState} {k : String}
    (h : (st.toolRows.get k).isSome) :
    ((calls.foldl (replayCall rt threadId) st).toolRows.get k).isSome := by
  induction calls generalizing st with
  | nil => exact h
  | cons call calls ih => exact ih (replayCall_get_isSome rt threadId call h)

theorem replayMessage_get_isSome (m : BaseMessage) {st : ReplayState} {k : String}
    (h : (st.toolRows.get k).isSome) :
    ((replayMessage rt threadId summaryPrefix st m).toolRows.get k).isSome := by
  cases m with
  | human message =>
      rw [replayMessage]
      split_ifs
      · exact h
      · exact h
  | ai message =>
      rw [replayMessage]
      split_ifs
      · exact replayCalls_get_isSome rt threadId _ h
      · exact h
  | tool message =>
      rw [replayMessage]
      split
      · exact h
      · rw [OrderedDict.get_set]
        split_ifs
        · rfl
        · exact h
  | other id => exact h

theorem replayMessages_get_isSome (messages : List BaseMessage) {st : ReplayState} {k : String}
    (h : (st.toolRows.get k).isSome) :
    ((messages.foldl (replayMessage rt threadId summaryPrefix) st).toolRows.get k).isSome := by
  induction messages generalizing st with
  | nil => exact h
  | cons m messages ih => exact ih (replayMessage_get_isSome rt threadId summaryPrefix m h)

variable {rt threadId summaryPrefix} {messages : List BaseMessage} {message : AIMessage}
  {call : ToolCall} {k : String}

theorem toolRow_of_requested (hmessage : .ai message ∈ messages)
    (hrenders : rendersId summaryPrefix message.id) (hcall : call ∈ message.toolCalls)
    (hid : call.id = some k) (hk : k ≠ "") :
    ((replayMessages rt threadId summaryPrefix messages).toolRows.get k).isSome := by
  obtain ⟨earlier, later, rfl⟩ := List.append_of_mem hmessage
  obtain ⟨before, after, hcalls⟩ := List.append_of_mem hcall
  rw [replayMessages, List.foldl_append, List.foldl_cons]
  apply replayMessages_get_isSome
  rw [replayMessage, if_pos hrenders, hcalls, List.foldl_append, List.foldl_cons]
  apply replayCalls_get_isSome
  have hkeyed : call.keyed := by simp [ToolCall.keyed, hid, hk]
  simp only [replayCall, hkeyed, if_true, hid, Option.getD_some, OrderedDict.get_set_self,
    Option.isSome_some]

/-- The rows a replay writes for a call are all one. -/
theorem toolRow_of_replayHistory {f : Frame}
    (hf : f ∈ (replayHistory rt threadId messages none summaryPrefix).frames)
    (htype : f.type = .tool) :
    ∃ row, (replayMessages rt threadId summaryPrefix messages).toolRows.get f.key = some row ∧
      f.value = some row := by
  rcases List.mem_append.mp hf with hf | hf
  · have hmessage := ((rowsBelow_replayMessages rt threadId summaryPrefix messages).messages f hf).1
    rw [hmessage] at htype
    cases htype
  · obtain ⟨row, hrow, rfl⟩ := mem_toolFrames hf
    obtain ⟨k, hk⟩ := OrderedDict.mem_values_iff.mp hrow
    have hid := (keyedRows_replayMessages rt threadId summaryPrefix messages k row hk).1
    refine ⟨row, ?_, rfl⟩
    change OrderedDict.get _ (rowText row "id") = some row
    rw [hid]
    exact hk

end Replay

section Resumed

variable {rt : Runtime} {threadId runId summaryPrefix : String} {messages : List BaseMessage}
  {message : AIMessage} {call : ToolCall} {k : String}

theorem exists_replayed_order (hmessage : .ai message ∈ messages)
    (hrenders : rendersId summaryPrefix message.id) (hcall : call ∈ message.toolCalls)
    (hid : call.id = some k) (hk : k ≠ "") :
    ∃ o : ℤ, (∃ f ∈ (replayHistory rt threadId messages none summaryPrefix).frames,
        f.type = .tool ∧ f.key = k) ∧
      ∀ f ∈ (replayHistory rt threadId messages none summaryPrefix).frames,
        f.type = .tool → f.key = k → f.order = some o := by
  have hsome : ((replayMessages rt threadId summaryPrefix messages).toolRows.get k).isSome :=
    toolRow_of_requested hmessage hrenders hcall hid hk
  obtain ⟨row, hrow⟩ := Option.isSome_iff_exists.mp hsome
  have hkey : rowText row "id" = k :=
    (keyedRows_replayMessages rt threadId summaryPrefix messages k row hrow).1
  have hmem : upsertFrame .tool (rowText row "id") row none ∈
      (replayHistory rt threadId messages none summaryPrefix).frames :=
    List.mem_append_right _ (List.mem_map.mpr
      ⟨row, OrderedDict.mem_values_iff.mpr ⟨k, hrow⟩, rfl⟩)
  obtain ⟨o, ho, _⟩ := (replayHistory_below rt threadId summaryPrefix messages none _ hmem).1
  refine ⟨o, ⟨_, hmem, rfl, hkey⟩, fun f hf htype hfk => ?_⟩
  obtain ⟨row', hrow', hvalue⟩ := toolRow_of_replayHistory hf htype
  rw [hfk, hrow, Option.some.injEq] at hrow'
  subst hrow'
  rw [← ho, Frame.order, Frame.order, Frame.intField, Frame.intField, Frame.field, hvalue]
  rfl

theorem exists_live_order {s n : ℤ} {activities : List Activity} {c : System}
    (h : Reaches anyStep
      (startSystem rt (Translator.seeded threadId runId summaryPrefix s n) activities) c)
    (k : String) :
    ∃ o : ℤ, (∀ f ∈ c.state.frames, f.type = .tool → f.key = k → f.order = some o) ∧ s ≤ o := by
  by_cases hex : ∃ f ∈ c.state.frames, f.type = .tool ∧ f.key = k
  · obtain ⟨f, hf, htype, hfk⟩ := hex
    obtain ⟨o, ho, hpast⟩ := (live_rows_from_seed h f hf).1 (by simp [Frame.placed, htype])
    refine ⟨o, fun g hg hgtype hgk => ?_, hpast⟩
    rw [← ho]
    exact (counted_of_reaches h).orders.number_unique hg hf (by simp [Frame.placed, hgtype])
      (by simp [Frame.placed, htype]) (hgk.trans hfk.symm)
  · exact ⟨s, fun f hf htype hfk => absurd ⟨f, hf, htype, hfk⟩ hex, le_rfl⟩

/-- The replay gives a call one order, below the live start. The translator that executes the call
again gives it one order too, past that of every replayed row. -/
theorem resumed_call_after_history (hmessage : .ai message ∈ messages)
    (hrenders : rendersId summaryPrefix message.id) (hcall : call ∈ message.toolCalls)
    (hid : call.id = some k) (hk : k ≠ "") {activities : List Activity} {c : System}
    (h : Reaches anyStep
      (startSystem rt
        (Translator.seeded threadId runId summaryPrefix (nextLiveOrder messages summaryPrefix)
          (nextLiveOrdinal messages summaryPrefix)) activities) c) :
    let replayed := (replayHistory rt threadId messages none summaryPrefix).frames
    ∃ o o' : ℤ, (∃ f ∈ replayed, f.type = .tool ∧ f.key = k) ∧
      (∀ f ∈ replayed, f.type = .tool → f.key = k → f.order = some o) ∧
      (∀ f ∈ c.state.frames, f.type = .tool → f.key = k → f.order = some o') ∧
      ∀ f ∈ replayed, ∃ p, f.order = some p ∧ p < o' := by
  intro replayed
  obtain ⟨o, hexists, hreplayed⟩ := exists_replayed_order hmessage hrenders hcall hid hk
  obtain ⟨o', hlive, hpast⟩ := exists_live_order h k
  refine ⟨o, o', hexists, hreplayed, hlive, fun f hf => ?_⟩
  obtain ⟨p, hp, hlt⟩ := (replayHistory_below rt threadId summaryPrefix messages none f hf).1
  exact ⟨p, hp, by omega⟩

end Resumed

def resumedSystem : System :=
  startSystem plainRuntime
    (Translator.seeded "t" "r" "summarization-" (nextLiveOrder earlierTurn "summarization-")
      (nextLiveOrdinal earlierTurn "summarization-"))
    [.source [.toolCalls], .toolCalls ⟨[searchCall "c0"], none⟩]

def resumeCall : List Pick := [.run 0, .run 1, .run 2, .run 2, .run 2]

def resumedRun : System := resumedSystem.after (fun _ _ => true) resumeCall (by decide)

theorem requested_earlierTurn :
    .ai ⟨some "a0", .str "looking", [⟨some "c0", .str "search", .dict []⟩]⟩ ∈ earlierTurn :=
  List.mem_cons_of_mem _ List.mem_cons_self

theorem resumed_call_after_history_resumedRun :
    let replayed := (replayHistory plainRuntime "t" earlierTurn none "summarization-").frames
    resumedRun.state.frames.map Frame.order = [some 3, some 3] ∧
      ∃ o o' : ℤ, (∃ f ∈ replayed, f.type = .tool ∧ f.key = "c0") ∧
        (∀ f ∈ replayed, f.type = .tool → f.key = "c0" → f.order = some o) ∧
        (∀ f ∈ resumedRun.state.frames, f.type = .tool → f.key = "c0" → f.order = some o') ∧
        ∀ f ∈ replayed, ∃ p, f.order = some p ∧ p < o' :=
  ⟨by decide,
    resumed_call_after_history requested_earlierTurn rfl List.mem_cons_self rfl (by decide)
    (reaches_after (fun _ _ _ => trivial) _ _ _)⟩

/-- The resumed call has moved past the history. -/
theorem not_place_kept :
    ¬ ∀ (rt : Runtime) (threadId runId summaryPrefix : String) (messages : List BaseMessage)
      (message : AIMessage) (call : ToolCall) (k : String) (activities : List Activity)
      (c : System), (messages.flatMap (slotKeys summaryPrefix)).Nodup →
      .ai message ∈ messages → rendersId summaryPrefix message.id →
      call ∈ message.toolCalls → call.id = some k → k ≠ "" →
      Reaches anyStep
        (startSystem rt
          (Translator.seeded threadId runId summaryPrefix (nextLiveOrder messages summaryPrefix)
            (nextLiveOrdinal messages summaryPrefix)) activities) c →
      ∀ f ∈ (replayHistory rt threadId messages none summaryPrefix).frames,
        ∀ g ∈ c.state.frames, f.type = .tool → f.key = k → g.type = .tool → g.key = k →
          f.order = g.order := by
  intro h
  have hmoved := h plainRuntime "t" "r" "summarization-" earlierTurn _ _ "c0"
    [.source [.toolCalls], .toolCalls ⟨[searchCall "c0"], none⟩] resumedRun (by decide)
    requested_earlierTurn rfl List.mem_cons_self rfl (by decide)
    (reaches_after (fun _ _ _ => trivial) _ _ _)
  revert hmoved
  decide

end StreamDB
