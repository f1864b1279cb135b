import StreamDB.CounterInvariant
import StreamDB.ItemCustody
import StreamDB.SubagentTags

/-!
# The rows of one tool call

Whatever runs next to it, at the top level or for a subagent of any depth, a call whose id no other
call of the run has gets the rows of its own task: one as it starts, and one with the settlement
its handle shows, unless it pauses on an interrupt, or its output breaks, or its subagent is never
linked.
-/

namespace StreamDB

open Coroutine

/-! ## What a call leaves on the stream -/

/-- A settlement the handle of the call shows when the drain of its deltas is over. -/
inductive ToolCallExecution.Settles (tc : ToolCallExecution) : ToolSettlement → Prop
  | drained (sound : tc.deltasError = none) : tc.Settles tc.settled
  | gaveUp : tc.Settles tc.unsettled

section Rows

variable (rt : Runtime) (threadId : String) (tc : ToolCallExecution) (agentId : Option String)

def startedFrame (order : ℤ) : Frame :=
  upsertFrame .tool tc.toolCallId (startedRow rt threadId agentId tc order) none

def settledFrame (order : ℤ) (settlement : ToolSettlement) : Frame :=
  upsertFrame .tool tc.toolCallId (resultRow rt threadId agentId tc order settlement)
    (resultTxid (toAgUiToolName rt tc.toolName) tc.toolCallId)

/-- The frames of a call that has started. -/
inductive CallLog : List Frame → Prop
  | started (order : ℤ) : CallLog [startedFrame rt threadId tc agentId order]
  | settled (order : ℤ) {settlement : ToolSettlement} (shows : tc.Settles settlement)
      (completed : isInterruptError settlement.error = false) :
      CallLog [startedFrame rt threadId tc agentId order,
        settledFrame rt threadId tc agentId order settlement]

/-- The frames of a call that has ended, by itself or with an exception. -/
inductive CallEnd : Option PyException → List Frame → Prop
  | paused (order : ℤ) {settlement : ToolSettlement} (shows : tc.Settles settlement)
      (interrupt : isInterruptError settlement.error) :
      CallEnd none [startedFrame rt threadId tc agentId order]
  | settled (order : ℤ) {settlement : ToolSettlement} (shows : tc.Settles settlement)
      (completed : isInterruptError settlement.error = false) :
      CallEnd none [startedFrame rt threadId tc agentId order,
        settledFrame rt threadId tc agentId order settlement]
  | broken (order : ℤ) {exc : PyException} (error : tc.deltasError = some exc) :
      CallEnd (some exc) [startedFrame rt threadId tc agentId order]

end Rows

def Item.isCall (key : String) : Item → Bool
  | .toolCall tc => tc.toolCallId = key
  | _ => false

theorem picksListed_isCall (key : String) : PicksListed (Item.isCall key) where
  payload _ := rfl
  snapshot _ := rfl

def Frame.isCallRow (key : String) (f : Frame) : Bool := f.type = .tool && f.key = key

def framesOfCall (key : String) (frames : List Frame) : List Frame :=
  frames.filter (Frame.isCallRow key)

theorem framesOfCall_append (key : String) (frames later : List Frame) :
    framesOfCall key (frames ++ later) = framesOfCall key frames ++ framesOfCall key later :=
  List.filter_append _ _

/-- A task that works on no call of the key writes none of its rows. -/
theorem framesOfCall_of_advances {rt : Runtime} {threadId summaryPrefix key : String}
    {activities : List Activity} {name : TaskName} {w w' : World}
    (h : (othersOf rt threadId summaryPrefix activities (Item.isCall key)).Advances name w w') :
    framesOfCall key w'.frames = framesOfCall key w.frames := by
  obtain ⟨frames, hframes, hrows⟩ := h.rows
  have hnone : framesOfCall key frames = [] := by
    rw [framesOfCall, List.filter_eq_nil_iff]
    intro f hf
    have hother : ∀ tc agentId,
        (othersOf rt threadId summaryPrefix activities (Item.isCall key)).CallAuthor name agentId
          tc → tc.toolCallId ≠ key := by
      intro tc agentId author
      cases author with
      | top item => exact of_decide_eq_false item.2
      | nested item _ => exact of_decide_eq_false item.2
    cases hrows f hf with
    | started author order =>
        simp [Frame.isCallRow, upsertFrame, changeEvent, hother _ _ author]
    | settled author order settlement =>
        simp [Frame.isCallRow, upsertFrame, changeEvent, hother _ _ author]
    | custom item row =>
        cases row with
        | _ => exact Bool.false_ne_true
    | _ => exact Bool.false_ne_true
  rw [hframes, framesOfCall_append, hnone, List.append_nil]

/-! ## The task of the call -/

/-- The frames of the call so far, if it has any, and who has written them. -/
def CallRuns (F : Setting) (tc : ToolCallExecution) (frames : List Frame) : Prop :=
  frames = [] ∨ ∃ name agentId, F.CallAuthor name agentId tc ∧
    CallLog F.rt F.threadId tc agentId frames

/-- The frames of a call that has ended. A subagent's call leaves none where the wait for its link
has `expired`. -/
def CallEnds (F : Setting) (tc : ToolCallExecution) (expired : Prop) (failure : Option PyException)
    (frames : List Frame) : Prop :=
  (∃ subagentId, F.source (.subagentTool subagentId tc) (.toolCall tc) ∧ expired ∧
      failure = none ∧ frames = []) ∨
    ∃ name agentId, F.CallAuthor name agentId tc ∧
      CallEnd F.rt F.threadId tc agentId failure frames

section Task

variable {rt : Runtime} {threadId summaryPrefix : String} {activities : List Activity}
  {tc : ToolCallExecution} {expired : Prop}

variable (rt threadId summaryPrefix activities tc expired) in
def callOwnership : Ownership TaskName World PyException (List Frame) where
  env := (othersOf rt threadId summaryPrefix activities (Item.isCall tc.toolCallId)).rowProtocol
  part w := framesOfCall tc.toolCallId w.frames
  mid := CallRuns (settingOf rt threadId summaryPrefix activities anyStep) tc
  ends := CallEnds (settingOf rt threadId summaryPrefix activities anyStep) tc expired
  anytime _ _ := trivial
  anyhow _ _ := trivial
  others _ _ _ h := framesOfCall_of_advances h
  owner name := drains rt activities name (.toolCall tc)
  expired := expired

theorem runs_callFrame {v : List Frame} {row : Row} {txid : Option String}
    (hmid : CallRuns (settingOf rt threadId summaryPrefix activities anyStep) tc
      (v ++ [upsertFrame .tool tc.toolCallId row txid])) :
    Runs (callOwnership rt threadId summaryPrefix activities tc expired)
      (Holds (callOwnership rt threadId summaryPrefix activities tc expired) v)
      (upsert .tool tc.toolCallId row txid) fun _ =>
        Holds (callOwnership rt threadId summaryPrefix activities tc expired)
          (v ++ [upsertFrame .tool tc.toolCallId row txid]) := by
  refine runs_upsert
    (E := othersOf rt threadId summaryPrefix activities (Item.isCall tc.toolCallId)) rfl ?_ hmid
  rintro w rfl
  have hown : Frame.isCallRow tc.toolCallId (upsertFrame .tool tc.toolCallId row txid) := by
    simp [Frame.isCallRow, upsertFrame, changeEvent]
  change framesOfCall _ (w.frames ++ [_]) = framesOfCall _ w.frames ++ [_]
  rw [framesOfCall_append]
  exact congrArg _ (List.filter_cons_of_pos hown)

theorem runs_drainOutputDeltas {v : List Frame}
    (hmid : CallRuns (settingOf rt threadId summaryPrefix activities anyStep) tc v)
    (hends : ∀ exc, tc.deltasError = some exc →
      CallEnds (settingOf rt threadId summaryPrefix activities anyStep) tc expired (some exc) v) :
    Runs (callOwnership rt threadId summaryPrefix activities tc expired)
      (Holds (callOwnership rt threadId summaryPrefix activities tc expired) v)
      (drainOutputDeltas tc) fun settlement w => tc.Settles settlement ∧
        Holds (callOwnership rt threadId summaryPrefix activities tc expired) v w := by
  refine runs_bind ((runs_awaitingOr hmid).weaken fun _ _ h => h.2.2) fun drained => ?_
  cases drained with
  | false => exact runs_pure fun w hw => ⟨.gaveUp, hw⟩
  | true =>
      cases hdeltas : tc.deltasError with
      | none => exact runs_pure fun w hw => ⟨.drained hdeltas, hw⟩
      | some exc => exact runs_raise hmid (hends exc hdeltas)

/-- The part the drains of both levels share. -/
theorem runs_projectToolCall {name : TaskName} {agentId : Option String}
    (author : (settingOf rt threadId summaryPrefix activities anyStep).CallAuthor name agentId tc) :
    Runs (callOwnership rt threadId summaryPrefix activities tc expired)
      (Holds (callOwnership rt threadId summaryPrefix activities tc expired) [])
      (projectToolCall rt agentId tc) fun _ w =>
        ∃ v, CallEnd rt threadId tc agentId none v ∧
          Holds (callOwnership rt threadId summaryPrefix activities tc expired) v w := by
  let E := othersOf rt threadId summaryPrefix activities (Item.isCall tc.toolCallId)
  refine runs_bind (runs_atomically_of (E := E) rfl (fun _ => ⟨rfl, rfl, rfl⟩) fun _ hw => hw)
    fun order => ?_
  refine runs_readSelf_bind (E := E) rfl fun t ht _ => ?_
  rw [ht]
  have hstarted : CallLog rt threadId tc agentId [startedFrame rt threadId tc agentId order] :=
    .started order
  refine runs_bind (runs_callFrame (.inr ⟨name, agentId, author, hstarted⟩)) fun _ => ?_
  refine runs_bind_of (runs_drainOutputDeltas (.inr ⟨name, agentId, author, hstarted⟩)
    fun exc hexc => .inr ⟨name, agentId, author, .broken order hexc⟩) fun settlement hshows => ?_
  cases hcompleted : isInterruptError settlement.error with
  | true =>
      rw [if_pos rfl]
      exact runs_pure fun w hw => ⟨_, .paused order hshows hcompleted, hw⟩
  | false =>
      rw [if_neg Bool.false_ne_true]
      refine (runs_callFrame
        (.inr ⟨name, agentId, author, .settled order hshows hcompleted⟩)).weaken ?_
      exact fun _ w hw => ⟨_, .settled order hshows hcompleted, hw⟩

theorem CallEnd.log {agentId : Option String} {failure : Option PyException} {v : List Frame}
    (h : CallEnd rt threadId tc agentId failure v) : CallLog rt threadId tc agentId v := by
  cases h with
  | paused order shows interrupt => exact .started order
  | settled order shows completed => exact .settled order shows completed
  | broken order error => exact .started order

/-- A task that has written the rows of the call may end. -/
theorem rests_of_callEnd {name : TaskName} {agentId : Option String}
    (author : (settingOf rt threadId summaryPrefix activities anyStep).CallAuthor name agentId tc)
    (w : World) (h : ∃ v, CallEnd rt threadId tc agentId none v ∧
      Holds (callOwnership rt threadId summaryPrefix activities tc expired) v w) :
    (callOwnership rt threadId summaryPrefix activities tc expired).Rests w ∧
      (callOwnership rt threadId summaryPrefix activities tc expired).ends none
        ((callOwnership rt threadId summaryPrefix activities tc expired).part w) := by
  obtain ⟨v, hend, hi, rfl⟩ := h
  exact ⟨⟨hi, .inr ⟨name, agentId, author, hend.log⟩⟩, .inr ⟨name, agentId, author, hend⟩⟩

theorem owned_consumeToolCallExecution
    (item : drains rt activities (.toolCall tc) (.toolCall tc)) (w : World)
    (hw : (callOwnership rt threadId summaryPrefix activities tc expired).part w = []) :
    Owned (callOwnership rt threadId summaryPrefix activities tc expired)
      (consumeToolCallExecution rt tc).code w := by
  let E := othersOf rt threadId summaryPrefix activities (Item.isCall tc.toolCallId)
  refine owned_code (runs_bind (runs_atomically_of (E := E) rfl (fun _ => ⟨rfl, rfl, rfl⟩)
    fun _ hw => hw) fun _ => runs_projectToolCall (.top item)) ?_ hw
  exact rests_of_callEnd (.top item)

theorem owned_consumeSubagentTool {subagentId : String}
    (item : drains rt activities (.subagentTool subagentId tc) (.toolCall tc)) (w : World)
    (hw : (callOwnership rt threadId summaryPrefix activities tc expired).part w = []) :
    Owned (callOwnership rt threadId summaryPrefix activities tc expired)
      (consumeSubagentTool rt subagentId tc).code w := by
  let O := callOwnership rt threadId summaryPrefix activities tc expired
  have hruns : Runs O (Holds O []) (consumeSubagentTool rt subagentId tc) fun _ w =>
      O.Rests w ∧ O.ends none (O.part w) := by
    refine runs_bind_of (runs_subagentAgentId (.subagentTool subagentId tc) subagentId rfl
      (fun _ _ => rfl) (.inl rfl)) fun agentId hlinked => ?_
    cases agentId with
    | none =>
        refine runs_pure ?_
        rintro w ⟨hi, hpart⟩
        exact ⟨⟨hi, .inl hpart⟩, .inl ⟨subagentId, item, hlinked.1 rfl, rfl, hpart⟩⟩
    | some tag =>
        have author : (settingOf rt threadId summaryPrefix activities anyStep).CallAuthor
            (.subagentTool subagentId tc) (some tag) tc := .nested item (hlinked.2 tag rfl)
        exact (runs_projectToolCall author).weaken fun _ w => rests_of_callEnd author w
  exact owned_code hruns (fun _ h => h) hw

/-! ## The tasks on the way to it -/

/-- A drain that creates one task for each call creates the one of the call. -/
theorem handsOver_spawnCalls {name : TaskName} {ready : ℕ → World → Bool}
    {child : ToolCallExecution → TaskName} {task : ToolCallExecution → Task Unit}
    {calls : List ToolCallExecution}
    (hother : ∀ other ∈ calls, Item.isCall tc.toolCallId (.toolCall other) = false →
      ∀ w, Stable (callOwnership rt threadId summaryPrefix activities tc expired).env
        (child other, (task other).code) w)
    (hname : tc ∈ calls → drains rt activities (child tc) (.toolCall tc))
    (hown : tc ∈ calls → ∀ w,
      (callOwnership rt threadId summaryPrefix activities tc expired).part w = [] →
        Owned (callOwnership rt threadId summaryPrefix activities tc expired) (task tc).code w)
    (hone : (calls.map Item.toolCall).filter (Item.isCall tc.toolCallId) = [.toolCall tc]) :
    HandsOver (callOwnership rt threadId summaryPrefix activities tc expired) [] name
      (Proc.asyncFor ready (fun tc => Proc.spawn (child tc) (task tc)) 0 calls) := by
  obtain ⟨before, own, after, rfl, hcall, hothers⟩ := split_of_filter_map hone
  cases hcall
  have hstable : ∀ other ∈ before ++ after, ∀ w,
      Stable (callOwnership rt threadId summaryPrefix activities tc expired).env
        (child other, (task other).code) w := by
    intro other hmem
    refine hother other ?_ (hothers other hmem)
    rcases List.mem_append.mp hmem with hmem | hmem
    · exact List.mem_append_left _ hmem
    · exact List.mem_append_right _ (List.mem_cons_of_mem _ hmem)
  refine handsOver_asyncFor ?_ ?_ ?_ 0
  · exact fun other hmem => holdsOn_spawn (hstable other (List.mem_append_left _ hmem))
  · have hmem : tc ∈ before ++ tc :: after := List.mem_append_right _ List.mem_cons_self
    exact handsOver_spawn (custodian_of_owned (hname hmem) (hown hmem))
  · exact fun other hmem =>
      preserves_spawn_of_stable (hstable other (List.mem_append_right _ hmem))

theorem custodian_streamToolCalls {feed : Feed ToolCallExecution}
    (mem : .toolCalls feed ∈ activities)
    (hone : (feed.items.map Item.toolCall).filter (Item.isCall tc.toolCallId) = [.toolCall tc]) :
    Custodian (callOwnership rt threadId summaryPrefix activities tc expired) []
      (.toolCalls, (streamToolCalls rt feed).code) := by
  let E := othersOf rt threadId summaryPrefix activities (Item.isCall tc.toolCallId)
  refine custodian_of_handsOver (handsOver_bind
    (handsOver_spawnCalls ?_ (fun hmem => .toolCall mem hmem) ?_ hone)
    fun _ => preserves_close feed)
  · intro other hmem hnot
    exact stable_of_preserves (Setting.writes_consumeToolCallExecution (E := E)
      ⟨.toolCall mem hmem, hnot⟩)
  · exact fun hmem => owned_consumeToolCallExecution (.toolCall mem hmem)

theorem custodian_drainSubagentTools {subagentId : String} {channel : Feed ToolCallExecution}
    (hsource : ∀ other ∈ channel.items,
      drains rt activities (.subagentTool subagentId other) (.toolCall other))
    (hone : (channel.items.map Item.toolCall).filter (Item.isCall tc.toolCallId) =
      [.toolCall tc]) :
    Custodian (callOwnership rt threadId summaryPrefix activities tc expired) []
      (.subagentTools subagentId, (drainSubagentTools rt subagentId channel).code) := by
  let E := othersOf rt threadId summaryPrefix activities (Item.isCall tc.toolCallId)
  refine custodian_of_handsOver (handsOver_bind
    (handsOver_spawnCalls ?_ (fun hmem => hsource tc hmem) ?_ hone)
    fun _ => preserves_close channel)
  · intro other hmem hnot
    exact stable_of_preserves (Setting.writes_consumeSubagentTool (E := E)
      ⟨hsource other hmem, hnot⟩)
  · exact fun hmem => owned_consumeSubagentTool (hsource tc hmem)

theorem allPass_calls {feed : Feed Subgraph} (mem : .subgraphs feed ∈ activities) :
    AllPass (callOwnership rt threadId summaryPrefix activities tc expired) [] rt
      (Item.isCall tc.toolCallId) (.toolCall tc) feed.items := by
  let E := othersOf rt threadId summaryPrefix activities (Item.isCall tc.toolCallId)
  intro sg within agent subagentId hid
  refine ⟨?_, ?_, ?_, ?_, ?_⟩
  · intro channel hchannel _
    exact stable_of_preserves (Setting.writes_drainSubagentMessages (E := E) fun m hm =>
      ⟨.nestedMessage mem within agent hid hchannel hm, rfl⟩)
  · intro channel _ hone
    obtain ⟨_, m, _, _, hm, _⟩ := split_of_filter_map hone
    cases hm
  · intro channel hchannel hnot
    exact stable_of_preserves (Setting.writes_drainSubagentTools (E := E) fun other hmem =>
      ⟨.nestedCall mem within agent hid hchannel hmem, hnot other hmem⟩)
  · intro channel hchannel hone
    exact custodian_drainSubagentTools (fun other hmem =>
      .nestedCall mem within agent hid hchannel hmem) hone
  · intro channel hchannel
    exact stable_of_preserves (Setting.writes_drainSubagentLifecycle (E := E) fun p hp =>
      ⟨.nestedPayload mem within agent hid hchannel hp, rfl⟩)

/-- The activity a call belongs to has its rows in custody. -/
theorem custodian_of_call {a : Activity} (mem : a ∈ activities)
    (hone : a.items.filter (Item.isCall tc.toolCallId) = [.toolCall tc]) :
    Custodian (callOwnership rt threadId summaryPrefix activities tc expired) [] (a.thread rt) := by
  cases a with
  | toolCalls feed => exact custodian_streamToolCalls mem hone
  | subgraphs feed =>
      exact custodian_of_handsOver (handsOver_drainSubgraphs Setting.drawsIds_rowProtocol _ _ 0 _
        (allPass_calls mem) hone _)
  | messages feed =>
      obtain ⟨_, m, _, _, hm, _⟩ := split_of_filter_map hone
      cases hm
  | userMessage msgId text attachments => cases hone
  | _ => cases hone

end Task

/-! ## Whole runs -/

/-- A run with a call whose id no other call of it has. -/
structure CallRun extends TranslatorRun where
  tc : ToolCallExecution
  alone : (runItems activities).filter (Item.isCall tc.toolCallId) = [.toolCall tc]

namespace CallRun

variable (r : CallRun)

def frames : List Frame := framesOfCall r.tc.toolCallId r.final.state.frames

/-- The rows of the call are those of its own task, at any moment and in the end. -/
structure Translated : Prop where
  current : CallRuns r.setting r.tc r.frames
  ends : r.Ended → ∃ failure,
    CallEnds r.setting r.tc (r.GaveUp (.toolCall r.tc)) failure r.frames ∧ r.Raised failure
  row : (collection .tool r.final.state.frames).get r.tc.toolCallId =
    r.frames.getLast?.bind Frame.value

def ownership : Ownership TaskName World PyException (List Frame) :=
  callOwnership r.rt r.threadId r.summaryPrefix r.activities r.tc (r.GaveUp (.toolCall r.tc))

theorem mid_nil : r.ownership.mid [] := .inl rfl

theorem inCustody : InCustody r.ownership [] (∃ i, .cancel i ∈ r.schedule) r.final :=
  TranslatorRun.inCustody (picksListed_isCall _) rfl r.mid_nil rfl (fun _ h => h) id r.alone
    fun _ hmem hone => custodian_of_call hmem hone

end CallRun

end StreamDB
