import StreamDB.CounterProtocol
import StreamDB.DrainRules

/-!
# Every task keeps the counters

One lemma for each program of the drains: started in a state where the rows and the counters
agree, it hands over in such a state, and so at every suspension point in between.
-/

namespace StreamDB

open Coroutine FirstSeen

section Rules

variable (allowed : TaskName → World → Prop) (s n : ℤ)

def Keeps {α : Type} (name : TaskName) (p : Task α) : Prop :=
  Triple (counterProtocol allowed s n) name (fun w => Counted allowed s n w.ledger) p
    (fun _ w => Counted allowed s n w.ledger)

variable {allowed s n} {α β : Type} {name : TaskName}

/-- A step that does not touch the ledger. -/
theorem keeps_atomically {f : World → α × World} (hf : ∀ w, (f w).2.ledger = w.ledger) :
    Keeps allowed s n name (Proc.atomically f) := by
  apply triple_atomically
  intro w hw
  have hl := hf w
  refine ⟨⟨?_, fun _ => congrArg Ledger.ordinals hl, [], ?_⟩, ?_⟩
  · have ho : (f w).2.self.orderByKey = w.self.orderByKey := congrArg Ledger.orderByKey hl
    rw [ho]
    exact OrderedDict.Extends.refl _
  · rw [hl]
    exact Adds.refl name w.ledger
  · rw [hl]
    exact hw

theorem keeps_readSelf : Keeps allowed s n name readSelf := keeps_atomically fun _ => rfl

theorem keeps_nowMs (rt : Runtime) : Keeps allowed s n name (nowMs rt) :=
  keeps_atomically fun _ => rfl

theorem keeps_freshId (rt : Runtime) (tag : String) : Keeps allowed s n name (freshId rt tag) :=
  keeps_atomically fun _ => rfl

theorem keeps_idOr (rt : Runtime) (tag : String) (value : Option String) :
    Keeps allowed s n name (idOr rt tag value) := by
  unfold idOr
  split_ifs
  · exact keeps_freshId rt tag
  · exact preserves_pure _

/-- Writing a row that is neither a message nor a tool row, nor the run row. -/
theorem keeps_upsert {type : RowType} (haux : type.auxiliary) (key : String) (row : Row)
    (txid : Option String) : Keeps allowed s n name (upsert type key row txid) := by
  refine preserves_bind (triple_atomically fun w hw => ?_) fun _ => preserves_suspend
  refine ⟨⟨OrderedDict.Extends.refl _, fun _ => rfl, [] ++ [upsertFrame type key row txid], ?_⟩,
    hw.write_other haux⟩
  refine (Adds.refl name w.ledger).write rfl rfl rfl fun hmessage => ?_
  exact absurd (of_decide_eq_true hmessage) (RowType.ne_of_auxiliary haux).1

end Rules

variable {allowed : TaskName → World → Prop} {s n : ℤ} {name : TaskName} (rt : Runtime)

/-! ## Messages -/

theorem keeps_emitMessageChunk (msgId : String) (channel : ChunkChannel) (seq : ℕ)
    (text : String) (agentId : Option String) :
    Keeps allowed s n name (emitMessageChunk msgId channel seq text agentId) :=
  preserves_bind keeps_readSelf fun _ => keeps_upsert rfl _ _ _

theorem keeps_captureText (msgId text : String) (agentId : Option String) :
    Keeps allowed s n name (captureText msgId text agentId) := by
  unfold captureText
  split_ifs
  · exact keeps_atomically fun _ => rfl
  · exact preserves_pure _

theorem keeps_streamMessageText (message : ModelMessage) (msgId : String)
    (agentId : Option String) :
    Keeps allowed s n name (streamMessageText message msgId agentId) :=
  preserves_streamDeltas _ (fun text => keeps_captureText msgId text agentId)
    fun _ _ => keeps_emitMessageChunk _ _ _ _ _

theorem keeps_consumeMessage (hname : name.isSubagent = false) (message : ModelMessage) :
    Keeps allowed s n name (consumeMessage rt message) := by
  apply preserves_bind (keeps_idOr rt _ _)
  intro msgId k w₀ w _ _ hg hw hk
  -- the anchor row is handed to the writer in the block that draws its two numbers
  simp only [onSelf, nowMs, updateSelf, upsertMessage, upsert, readSelf, Proc.atomically,
    Proc.suspend, Proc.bind_apply, Safe]
  let f := upsertFrame .message msgId (messageRow w.self.threadId msgId
    (assign w.self.ordinals w.self.ordinal msgId).1
    (assign w.self.orderByKey w.self.orderSeq msgId).1 (rt.clockMs w.clockReads) none) none
  have huntagged : f.untagged := by
    rw [Frame.untagged, field_upsertFrame, messageRow_agentId]
    rfl
  have horder : f.order = some (assign w.self.orderByKey w.self.orderSeq msgId).1 :=
    intField_upsertFrame (messageRow_order _ _ _ _ _ _) _ _ _
  have hordinal : f.ordinal = some (assign w.self.ordinals w.self.ordinal msgId).1 :=
    intField_upsertFrame (messageRow_ordinal _ _ _ _ _ _) _ _ _
  have hextends := hg.1.trans (assign_extends w.self.orderByKey w.self.orderSeq msgId)
  obtain ⟨added, hadds⟩ := hg.2.2
  refine ⟨⟨hw.write_transcript (f := f) rfl huntagged horder hordinal, hextends,
    fun hn => by simp [hname] at hn, added ++ [f], hadds.write rfl rfl rfl
      fun _ => ⟨huntagged, TaskName.speaksFor_of_own hname⟩⟩, ?_⟩
  intro w' hi' _ ha' _
  exact keeps_streamMessageText message msgId none k w' w' hi' ha'
    ((counterProtocol allowed s n).guarantee_refl _ _) hi' hk

theorem keeps_streamMessages (messages : Feed ModelMessage) :
    Keeps allowed s n .messages (streamMessages rt messages) := by
  refine preserves_drainProjection fun message _ => preserves_bind keeps_readSelf fun t => ?_
  split_ifs
  · exact keeps_consumeMessage rt rfl message
  · exact preserves_pure ()

theorem keeps_emitUserMessage (hname : name.isSubagent = false) (msgId text : String)
    (attachments : List PyValue) :
    Keeps allowed s n name (emitUserMessage rt msgId text attachments) := by
  intro k w₀ w _ _ hg hw hk
  simp only [emitUserMessage, onSelf, nowMs, updateSelf, upsert, readSelf, Proc.atomically,
    Proc.suspend, Proc.bind_apply, Safe]
  let f := upsertFrame .message msgId (userRow w.self.threadId msgId
    (assign w.self.ordinals w.self.ordinal msgId).1
    (assign w.self.orderByKey w.self.orderSeq msgId).1 (rt.clockMs w.clockReads) text attachments)
    (some msgId)
  have huntagged : f.untagged := by
    rw [Frame.untagged, field_upsertFrame, userRow_agentId]
    rfl
  have horder : f.order = some (assign w.self.orderByKey w.self.orderSeq msgId).1 :=
    intField_upsertFrame (userRow_order _ _ _ _ _ _ _) _ _ _
  have hordinal : f.ordinal = some (assign w.self.ordinals w.self.ordinal msgId).1 :=
    intField_upsertFrame (userRow_ordinal _ _ _ _ _ _ _) _ _ _
  have hextends := hg.1.trans (assign_extends w.self.orderByKey w.self.orderSeq msgId)
  obtain ⟨added, hadds⟩ := hg.2.2
  refine ⟨⟨hw.write_transcript (f := f) rfl huntagged horder hordinal, hextends,
    fun hn => by simp [hname] at hn, added ++ [f], hadds.write rfl rfl rfl
      fun _ => ⟨huntagged, TaskName.speaksFor_of_own hname⟩⟩, ?_⟩
  intro w' hi' _ ha' _
  exact hk () w' w' hi' ha' ((counterProtocol allowed s n).guarantee_refl _ _) hi'

/-! ## Tool calls -/

/-- A call that has no row yet draws its place now, and one that has a row has drawn it then. -/
theorem drawnFrom_of_allowed {tc : ToolCallExecution} {w₀ : World} {l : Ledger}
    (ha : allowed (.toolCall tc) w₀) (hi : Counted allowed s n w₀.ledger)
    (hl : Counted allowed s n l) (hframes : ∃ added, l.frames = w₀.frames ++ added)
    (hd : w₀.self.orderByKey.Extends l.orderByKey) :
    DrawnFrom allowed s tc.toolCallId l.orderByKey := by
  by_cases hw : Unwritten tc.toolCallId l.frames
  · obtain ⟨added, heq⟩ := hframes
    rw [heq] at hw
    have hw₀ : Unwritten tc.toolCallId w₀.frames := fun f hf => hw f (List.mem_append_left _ hf)
    exact ⟨tc, w₀, rfl, ha, hw₀, hi.orders.numbered, hd⟩
  · simp only [Unwritten, not_forall, not_not] at hw
    obtain ⟨f, hf, htype, hun, hkey⟩ := hw
    rw [← hkey]
    exact hl.drawn f hf htype hun

/-- The number a call has drawn is still its own when its deltas have been drained. -/
theorem triple_drainOutputDeltas (tc : ToolCallExecution) (key : String) (order : ℤ) :
    Triple (counterProtocol allowed s n) name
      (fun w => Counted allowed s n w.ledger ∧ w.self.orderByKey.get key = some order)
      (drainOutputDeltas tc)
      (fun _ w => Counted allowed s n w.ledger ∧ w.self.orderByKey.get key = some order) := by
  have hwait : Triple (counterProtocol allowed s n) name
      (fun w => Counted allowed s n w.ledger ∧ w.self.orderByKey.get key = some order)
      (Proc.awaitingOr fun _ => true : Task Bool)
      (fun _ w => Counted allowed s n w.ledger ∧ w.self.orderByKey.get key = some order) :=
    triple_awaitingOr (fun _ h => h.1) fun _ _ _ h hi hr _ _ => ⟨hi, hr _ _ h.2⟩
  apply triple_bind hwait
  intro drained
  cases drained with
  | false => exact triple_pure fun _ h => h
  | true =>
      cases tc.deltasError with
      | none => exact triple_pure fun _ h => h
      | some exc => exact triple_raise fun _ h => h.1

theorem startedRow_order (threadId : String) (agentId : Option String) (tc : ToolCallExecution)
    (order : ℤ) : (startedRow rt threadId agentId tc order).get "order" = some (.int order) := by
  simp [startedRow, OrderedDict.ofEntries, OrderedDict.get_setSome]

theorem resultRow_order (threadId : String) (agentId : Option String) (tc : ToolCallExecution)
    (order : ℤ) (settlement : ToolSettlement) :
    (resultRow rt threadId agentId tc order settlement).get "order" = some (.int order) := by
  simp [resultRow, OrderedDict.ofEntries, OrderedDict.get_setSome]

theorem startedRow_agentId (threadId : String) (agentId : Option String)
    (tc : ToolCallExecution) (order : ℤ) :
    (startedRow rt threadId agentId tc order).get "agentId" = agentId.map .str := by
  simp [startedRow, OrderedDict.ofEntries, OrderedDict.get_set, OrderedDict.get_setSome]

theorem resultRow_agentId (threadId : String) (agentId : Option String)
    (tc : ToolCallExecution) (order : ℤ) (settlement : ToolSettlement) :
    (resultRow rt threadId agentId tc order settlement).get "agentId" = agentId.map .str := by
  simp [resultRow, OrderedDict.ofEntries, OrderedDict.get_set, OrderedDict.get_setSome]

/-- A row without a tag is written by the task of the call itself. -/
theorem drawnFrom_of_untagged {agentId : Option String} {tc : ToolCallExecution}
    (hown : agentId = none → name = .toolCall tc) {w₀ w : World}
    {row : Row} {txid : Option String} (hrow : row.get "agentId" = agentId.map .str)
    (ha : allowed name w₀) (hi : Counted allowed s n w₀.ledger)
    (hg : (counterProtocol allowed s n).guarantee name w₀ w) (hw : Counted allowed s n w.ledger)
    (hun : (upsertFrame .tool tc.toolCallId row txid).untagged) :
    DrawnFrom allowed s tc.toolCallId w.ledger.orderByKey := by
  cases agentId with
  | some agentId => simp [Frame.untagged, field_upsertFrame, hrow] at hun
  | none =>
      rw [hown rfl] at ha
      obtain ⟨hextends, _, added, hadds⟩ := hg
      exact drawnFrom_of_allowed ha hi hw ⟨added, hadds.frames⟩ hextends

/-- A row with a tag is written by a task of a subagent. -/
theorem nestedStep_of_tagged {agentId : Option String} {key : String}
    (hnested : agentId ≠ none → name.writesNested) {w₀ : World} {row : Row} {txid : Option String}
    (hrow : row.get "agentId" = agentId.map .str) (ha : allowed name w₀)
    (htag : (upsertFrame .tool key row txid).untagged = false) : NestedStep allowed := by
  cases agentId with
  | some agentId => exact ⟨name, w₀, hnested (by simp), ha⟩
  | none => simp [Frame.untagged, field_upsertFrame, hrow] at htag

/-- Both rows of a call carry the number drawn when it started. -/
theorem keeps_projectToolCall (agentId : Option String) (tc : ToolCallExecution)
    (hown : agentId = none → name = .toolCall tc)
    (hnested : agentId ≠ none → name.writesNested) :
    Keeps allowed s n name (projectToolCall rt agentId tc) := by
  intro k w₀ w hi ha hg hw hk
  simp only [projectToolCall, onSelf, upsert, readSelf, Proc.atomically, Proc.suspend,
    Proc.bind_apply, Safe]
  let order := (assign w.self.orderByKey w.self.orderSeq tc.toolCallId).1
  let started := upsertFrame .tool tc.toolCallId
    (startedRow rt w.self.threadId agentId tc order) none
  have hstarted : started.order = some order :=
    intField_upsertFrame (startedRow_order _ _ _ _ _) _ _ _
  have hwritten := hw.write_tool (f := started) rfl hstarted
    (drawnFrom_of_untagged hown (startedRow_agentId _ _ _ _ _) ha hi hg hw)
    (nestedStep_of_tagged hnested (startedRow_agentId _ _ _ _ _) ha)
  have hextends := hg.1.trans (assign_extends w.self.orderByKey w.self.orderSeq tc.toolCallId)
  obtain ⟨added, hadds⟩ := hg.2.2
  refine ⟨⟨hwritten, hextends, hg.2.1, added ++ [started],
    hadds.write rfl rfl rfl fun hmessage => by cases hmessage⟩, ?_⟩
  intro w' hi' hr ha' _
  have horder := hr _ _ (assign_get w.self.orderByKey w.self.orderSeq tc.toolCallId)
  refine triple_drainOutputDeltas tc tc.toolCallId _ _ w' w' hi' ha'
    ((counterProtocol allowed s n).guarantee_refl _ _) ⟨hi', horder⟩ ?_
  intro settlement w₁ w₂ hi₁ ha₁ hg₁ hw₂
  by_cases herror : isInterruptError settlement.error
  · simp only [herror, if_true]
    exact hk () _ _ hi₁ ha₁ hg₁ hw₂.1
  · simp only [herror]
    let settled := upsertFrame .tool tc.toolCallId
      (resultRow rt w.self.threadId agentId tc order settlement)
      (resultTxid (toAgUiToolName rt tc.toolName) tc.toolCallId)
    have hsettled : settled.order = some order :=
      intField_upsertFrame (resultRow_order _ _ _ _ _ _) _ _ _
    have hrewritten := hw₂.1.rewrite_tool (f := settled) rfl hw₂.2 hsettled
      (drawnFrom_of_untagged hown (resultRow_agentId _ _ _ _ _ _) ha₁ hi₁ hg₁ hw₂.1)
      (nestedStep_of_tagged hnested (resultRow_agentId _ _ _ _ _ _) ha₁)
    obtain ⟨added₁, hadds₁⟩ := hg₁.2.2
    refine ⟨⟨hrewritten, hg₁.1, hg₁.2.1, added₁ ++ [settled],
      hadds₁.write rfl rfl rfl fun hmessage => by cases hmessage⟩, ?_⟩
    intro w₃ hi₃ _ ha₃ _
    exact hk () w₃ w₃ hi₃ ha₃ ((counterProtocol allowed s n).guarantee_refl _ _) hi₃

theorem keeps_consumeToolCallExecution (tc : ToolCallExecution) :
    Keeps allowed s n (.toolCall tc) (consumeToolCallExecution rt tc) :=
  preserves_bind (keeps_atomically fun _ => rfl) fun _ =>
    keeps_projectToolCall rt none tc (fun _ => rfl) fun h => absurd rfl h

theorem keeps_streamToolCalls (calls : Feed ToolCallExecution) :
    Keeps allowed s n .toolCalls (streamToolCalls rt calls) :=
  preserves_drainProjection fun tc _ => preserves_spawn (keeps_consumeToolCallExecution rt tc)

/-! ## Subagents -/

/-- A recorded tag is not empty. -/
theorem counted_recordSubagentLink {w : World} (h : Counted allowed s n w.ledger)
    (payload : Entries) :
    Counted allowed s n
      { w with self := Translator.recordSubagentLink payload w.self : World }.ledger := by
  cases hid : payload.get "subagent_id" with
  | str subagentId =>
      cases htag : (payload.get "tool_call_id").nonemptyStr with
      | none => simpa [Translator.recordSubagentLink, hid, htag] using h
      | some tag =>
          simp only [Translator.recordSubagentLink, hid, htag]
          refine { h with links := ?_ }
          intro other tag' hget
          change (w.self.subagentToolCall.set subagentId tag).get other = some tag' at hget
          rw [OrderedDict.get_set] at hget
          split_ifs at hget with ho
          · rw [← Option.some.inj hget]
            exact PyValue.nonemptyStr_ne htag
          · exact h.links other tag' hget
  | _ => simpa [Translator.recordSubagentLink, hid] using h

theorem keeps_recordSubagentLink (payload : Entries) :
    Keeps allowed s n name (updateSelf (Translator.recordSubagentLink payload)) := by
  refine triple_atomically fun w hw => ⟨?_, counted_recordSubagentLink hw payload⟩
  have hsame : (w.self.recordSubagentLink payload).orderByKey = w.self.orderByKey ∧
      (w.self.recordSubagentLink payload).ordinals = w.self.ordinals ∧
      (w.self.recordSubagentLink payload).subagentMsgOrdinal = w.self.subagentMsgOrdinal ∧
      (w.self.recordSubagentLink payload).subagentOrdinal = w.self.subagentOrdinal := by
    unfold Translator.recordSubagentLink
    split <;> exact ⟨rfl, rfl, rfl, rfl⟩
  obtain ⟨horders, hordinals, hnested, hnext⟩ := hsame
  refine ⟨?_, fun _ => hordinals, _, (Adds.refl name w.ledger).same hnested hnext rfl⟩
  change w.self.orderByKey.Extends (w.self.recordSubagentLink payload).orderByKey
  rw [horders]
  exact OrderedDict.Extends.refl _

/-- The tag a nested drain goes on with is not empty. -/
theorem triple_subagentAgentId (subagentId : String) :
    Triple (counterProtocol allowed s n) name (fun w => Counted allowed s n w.ledger)
      (subagentAgentId subagentId)
      (fun r w => Counted allowed s n w.ledger ∧ ∀ tag, r = some tag → tag ≠ "") := by
  refine triple_bind (keeps_atomically fun _ => rfl) fun _ =>
    triple_bind (preserves_awaitingOr _) fun linked => ?_
  cases linked with
  | false => exact triple_pure fun _ h => ⟨h, fun _ hr => nomatch hr⟩
  | true => exact fun _ _ _ hi ha hg h hk => hk _ _ _ hi ha hg ⟨h, fun tag => h.links _ tag⟩

theorem agentField_of_ne {tag : String} (h : tag ≠ "") :
    agentField (some tag) = some (.str tag) := by
  simp [agentField, h]

theorem ledger_nextSubagentOrdinal (w : World) (subagentId msgId : String) :
    { w with self := (w.self.nextSubagentOrdinal subagentId msgId).2 : World }.ledger =
      { w.ledger with
        subagentOrdinal := (w.self.nextSubagentOrdinal subagentId msgId).2.subagentOrdinal
        subagentMsgOrdinal :=
          (w.self.nextSubagentOrdinal subagentId msgId).2.subagentMsgOrdinal } := by
  cases hk : (w.self.msgOrdinals subagentId).get msgId with
  | some existing => simp [World.ledger, Translator.nextSubagentOrdinal, hk]
  | none => simp [World.ledger, Translator.nextSubagentOrdinal, hk]

theorem counted_nextSubagentOrdinal {w : World} (h : Counted allowed s n w.ledger)
    (subagentId msgId : String) :
    Counted allowed s n
      { w with self := (w.self.nextSubagentOrdinal subagentId msgId).2 : World }.ledger := by
  rw [ledger_nextSubagentOrdinal]
  exact ⟨h.orders, h.ordinals, h.links, h.drawn, h.writer, h.notRun⟩

/-- The anchor of a subagent's message draws both of its numbers in the block that writes it. -/
theorem keeps_drainSubagentMessage {tag : String} (htag : tag ≠ "") (subagentId : String)
    (message : ModelMessage) :
    Keeps allowed s n (.subagentMessages subagentId)
      (drainSubagentMessage rt subagentId tag message) := by
  refine preserves_ite ?_ (preserves_pure ())
  apply preserves_bind (keeps_idOr rt _ _)
  intro msgId k w₀ w _ ha hg hw hk
  have hw₁ := counted_nextSubagentOrdinal hw subagentId msgId
  have hl := ledger_nextSubagentOrdinal w subagentId msgId
  obtain ⟨hordinal₁, hordinals₁, hnext₁⟩ :=
    Translator.nextSubagentOrdinal_eq_assign w.self subagentId msgId
  have hothers : ∀ other, other ≠ subagentId →
      (w.self.nextSubagentOrdinal subagentId msgId).2.msgOrdinals other = w.self.msgOrdinals other ∧
      (w.self.nextSubagentOrdinal subagentId msgId).2.subagentOrdinal.getD other 0 =
        w.self.subagentOrdinal.getD other 0 := by
    intro other hother
    rw [Translator.msgOrdinals_nextSubagentOrdinal, Translator.getD_nextSubagentOrdinal]
    exact ⟨if_neg fun h => hother h.1.symm, if_neg fun h => hother h.1.symm⟩
  simp only [onSelf, nowMs, upsertMessage, upsert, readSelf, Proc.atomically, Proc.suspend,
    Proc.bind_apply, Safe]
  generalize Translator.nextSubagentOrdinal subagentId msgId w.self = r at *
  obtain ⟨ordinal, self⟩ := r
  let f := upsertFrame .message msgId (messageRow self.threadId msgId ordinal
    (assign self.orderByKey self.orderSeq msgId).1 (rt.clockMs w.clockReads) (some tag)) none
  have htagged : f.untagged = false := by
    rw [Frame.untagged, field_upsertFrame, messageRow_agentId, agentField_of_ne htag]
    rfl
  have horder : f.order = some (assign self.orderByKey self.orderSeq msgId).1 :=
    intField_upsertFrame (messageRow_order _ _ _ _ _ _) _ _ _
  have hordinal : f.ordinal = some ordinal :=
    intField_upsertFrame (messageRow_ordinal _ _ _ _ _ _) _ _ _
  have hwritten := hw₁.write_nested (f := f) rfl htagged horder ⟨_, w₀, rfl, ha⟩
  have horders : self.orderByKey = w.self.orderByKey := congrArg Ledger.orderByKey hl
  have hextends := (horders ▸ hg.1).trans (assign_extends self.orderByKey self.orderSeq msgId)
  obtain ⟨added, hadds⟩ := hg.2.2
  refine ⟨⟨hwritten, hextends, fun hn => ?_, added ++ [f], ?_⟩, ?_⟩
  · exact (congrArg Ledger.ordinals hl).trans (hg.2.1 hn)
  · exact hadds.speak hordinals₁ hnext₁ hothers rfl rfl
      (hordinal.trans (congrArg some hordinal₁)) htagged
  intro w' hi' _ ha' _
  exact keeps_streamMessageText message msgId (some tag) k w' w' hi' ha'
    ((counterProtocol allowed s n).guarantee_refl _ _) hi' hk

theorem keeps_drainSubagentMessages (subagentId : String) (channel : Feed ModelMessage) :
    Keeps allowed s n (.subagentMessages subagentId)
      (drainSubagentMessages rt subagentId channel) := by
  apply triple_bind (triple_subagentAgentId subagentId)
  intro tag
  cases tag with
  | none => exact triple_pure fun _ h => h.1
  | some tag =>
      intro k w₀ w hi ha hg hw hk
      have hbody : ∀ message, Keeps allowed s n (.subagentMessages subagentId)
          (drainSubagentMessage rt subagentId tag message) :=
        keeps_drainSubagentMessage rt (hw.2 tag rfl) subagentId
      exact preserves_drainFeed (fun message _ => hbody message) k w₀ w hi ha hg hw.1 hk

theorem keeps_consumeSubagentTool (hname : name.writesNested) (subagentId : String)
    (tc : ToolCallExecution) :
    Keeps allowed s n name (consumeSubagentTool rt subagentId tc) := by
  apply triple_bind (triple_subagentAgentId subagentId)
  intro tag
  cases tag with
  | none => exact triple_pure fun _ h => h.1
  | some tag =>
      intro k w₀ w hi ha hg hw hk
      exact keeps_projectToolCall rt (some tag) tc (fun h => nomatch h) (fun _ => hname)
        k w₀ w hi ha hg hw.1 hk

theorem keeps_drainSubagentTools (subagentId : String) (channel : Feed ToolCallExecution) :
    Keeps allowed s n name (drainSubagentTools rt subagentId channel) :=
  preserves_drainFeed fun tc _ => preserves_spawn (keeps_consumeSubagentTool rt rfl subagentId tc)

theorem keeps_drainSubagentLifecycle (channel : Feed PyValue) :
    Keeps allowed s n name (drainSubagentLifecycle channel) := by
  apply preserves_drainFeed
  intro payload _
  cases payload with
  | dict entries =>
      dsimp only
      split_ifs
      · exact keeps_recordSubagentLink entries
      · exact preserves_pure ()
  | _ => exact preserves_pure ()

theorem drainsKeep_counterProtocol (sg : Subgraph) (subagentId : String) :
    DrainsKeep rt (counterProtocol allowed s n) sg subagentId where
  messages channel _ := stable_of_preserves (keeps_drainSubagentMessages rt subagentId channel)
  toolCalls channel _ := stable_of_preserves (keeps_drainSubagentTools rt subagentId channel)
  custom channel _ := stable_of_preserves (keeps_drainSubagentLifecycle channel)

theorem drawsIds_counterProtocol : DrawsIds (counterProtocol allowed s n) := fun _ _ hw =>
  ⟨(counterProtocol allowed s n).guarantee_refl _ _, hw⟩

theorem keeps_streamSubgraphs (subgraphs : Feed Subgraph) :
    Keeps allowed s n name (streamSubgraphs rt subgraphs) :=
  preserves_streamSubgraphs drawsIds_counterProtocol
    fun sg _ _ subagentId _ => drainsKeep_counterProtocol rt sg subagentId

/-! ## Custom payloads and state snapshots -/

theorem keeps_emitEffect (op : PyValue) : Keeps allowed s n name (emitEffect rt op) := by
  apply preserves_bind (keeps_freshId rt _)
  intro effectId
  cases dictOf rt op with
  | none => exact preserves_raise _
  | some entries => exact keeps_upsert rfl _ _ _

theorem keeps_emitReport (op : Entries) (toolCallId : Option String) :
    Keeps allowed s n name (emitReport rt op toolCallId) := by
  unfold emitReport
  cases (op.get "file_id").nonemptyStr with
  | none => exact preserves_pure ()
  | some fileId =>
      exact preserves_bind keeps_readSelf fun _ => preserves_bind (keeps_nowMs rt) fun _ =>
        keeps_upsert rfl _ _ _

theorem keeps_frontendUpdate (toolCallId : Option String) (op : PyValue) :
    Keeps allowed s n name (frontendUpdate rt toolCallId op) := by
  cases op with
  | dict entries =>
      dsimp only [frontendUpdate]
      split_ifs
      · exact keeps_emitReport rt _ _
      · exact keeps_emitEffect rt _
  | _ =>
      dsimp only [frontendUpdate]
      exact keeps_emitEffect rt _

theorem keeps_frontendUpdates (toolCallId : Option String) (ops : List PyValue) :
    Keeps allowed s n name (frontendUpdates rt toolCallId ops) := by
  induction ops with
  | nil => exact preserves_pure ()
  | cons op ops ih => exact preserves_bind (keeps_frontendUpdate rt _ _) fun _ => ih

theorem keeps_handleToolSummary (payload : Entries) :
    Keeps allowed s n name (handleToolSummary payload) := by
  unfold handleToolSummary
  split
  · exact keeps_upsert rfl _ _ _
  · exact preserves_pure ()

theorem keeps_handleToolAction (payload : Entries) :
    Keeps allowed s n name (handleToolAction payload) := by
  unfold handleToolAction
  split
  · exact preserves_bind keeps_readSelf fun _ => keeps_upsert rfl _ _ _
  · exact preserves_pure ()

theorem keeps_handleToolEnd (payload : Entries) :
    Keeps allowed s n name (handleToolEnd rt payload) := by
  unfold handleToolEnd
  split
  · exact keeps_frontendUpdates rt _ _
  · exact preserves_pure ()

theorem keeps_emitThreadEffect (kind : String) (active : Option Bool) :
    Keeps allowed s n name (emitThreadEffect rt kind active) :=
  preserves_bind keeps_readSelf fun _ => keeps_emitEffect rt _

theorem keeps_handlePayload (payload : Entries) :
    Keeps allowed s n name (handlePayload rt payload) := by
  apply preserves_ite (keeps_handleToolSummary payload)
  apply preserves_ite (keeps_handleToolAction payload)
  apply preserves_ite (keeps_handleToolEnd rt payload)
  apply preserves_ite (preserves_raise _)
  apply preserves_ite (preserves_pure ())
  apply preserves_ite (keeps_recordSubagentLink payload)
  apply preserves_ite (preserves_pure ())
  apply preserves_ite (keeps_emitThreadEffect rt _ _)
  apply preserves_ite (keeps_emitThreadEffect rt _ _)
  exact preserves_ite (keeps_emitThreadEffect rt _ _) (keeps_emitEffect rt _)

theorem keeps_streamCustom (payloads : Feed PyValue) :
    Keeps allowed s n name (streamCustom rt payloads) := by
  apply preserves_drainProjection
  intro payload _
  cases payload with
  | dict entries => exact keeps_handlePayload rt entries
  | _ => exact preserves_pure ()

theorem keeps_streamSnapshots (error : Option PyException) (i : ℕ) (prev : Option Entries)
    (states : List PyValue) : Keeps allowed s n name (streamSnapshots error i prev states) := by
  induction states generalizing i prev with
  | nil => exact preserves_close _
  | cons rawState rest ih =>
      apply preserves_bind (preserves_awaiting _)
      intro _
      cases rawState with
      | dict state =>
          dsimp only
          split_ifs
          · exact ih _ _
          · exact preserves_bind keeps_readSelf fun _ =>
              preserves_bind (keeps_upsert rfl _ _ _) fun _ => ih _ _
      | _ => exact ih _ _

theorem keeps_streamValues (snapshots : Feed PyValue) :
    Keeps allowed s n name (streamValues snapshots) :=
  keeps_streamSnapshots _ _ _ _

/-! ## Whole translators -/

theorem keeps_publishAll (events : List Projection) :
    Keeps allowed s n name (publishAll events) := by
  induction events with
  | nil => exact preserves_pure ()
  | cons p ps ih =>
      refine preserves_bind preserves_suspend fun _ => ?_
      exact preserves_bind (keeps_atomically fun _ => rfl) fun _ => ih

theorem keeps_activity (a : Activity) : Keeps allowed s n a.name (a.task rt) := by
  cases a with
  | source events => exact keeps_publishAll events
  | userMessage msgId text attachments => exact keeps_emitUserMessage rt rfl msgId text attachments
  | messages feed => exact keeps_streamMessages rt feed
  | custom feed => exact keeps_streamCustom rt feed
  | toolCalls feed => exact keeps_streamToolCalls rt feed
  | subgraphs feed => exact keeps_streamSubgraphs rt feed
  | values feed => exact keeps_streamValues feed

theorem keeps_spawnAll (activities : List Activity) :
    Keeps allowed s n name (spawnAll rt activities) := by
  induction activities with
  | nil => exact preserves_pure ()
  | cons a as ih => exact preserves_bind (preserves_spawn (keeps_activity rt a)) fun _ => ih

theorem keeps_runTurn (userId text : String) (attachments : List PyValue) (stream : RunStream) :
    Keeps allowed s n .turn (runTurn rt userId text attachments stream) :=
  preserves_bind (keeps_emitUserMessage rt rfl userId text attachments) fun _ => keeps_spawnAll rt _

end StreamDB
