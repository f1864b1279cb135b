import StreamDB.CounterInvariant
import StreamDB.ProgramRules
import StreamDB.Salvage
import StreamDB.WindowTurns

/-!
# What a cancelled turn is salvaged from

`emitted_turn` may be asked at any moment, after a cancellation in particular. Its ids are those of
the rows on the main transcript by then: the texts and the ordinals name the message rows, in the
order they were first shown in, the user ids those with the role of a user, and the call ids the
tool rows. Subagents have no part in it.
-/

namespace StreamDB

open Coroutine FirstSeen

/-! ## The message rows of a turn -/

section Rows

variable {threadId msgId text : String} {ordinal order createdAt : ℤ} {attachments : List PyValue}
  {agentId txid : Option String}

theorem isUser_userRow : (upsertFrame .message msgId
    (userRow threadId msgId ordinal order createdAt text attachments) txid).isUser := by
  simp [Frame.isUser, textField_upsertFrame (userRow_role ..)]

theorem transcript_userRow : (upsertFrame .message msgId
    (userRow threadId msgId ordinal order createdAt text attachments) txid).transcript := by
  simp [Frame.transcript, Frame.untagged, field_upsertFrame, userRow_agentId]

theorem textField_userRow : (upsertFrame .message msgId
    (userRow threadId msgId ordinal order createdAt text attachments) txid).textField "text" =
      some text := by
  simp [Frame.textField, field_upsertFrame, userRow, OrderedDict.ofEntries, OrderedDict.get_setSome]

theorem isUser_messageRow : (upsertFrame .message msgId
    (messageRow threadId msgId ordinal order createdAt agentId) txid).isUser = false := by
  simp [Frame.isUser, textField_upsertFrame (messageRow_role ..)]

theorem transcript_messageRow : (upsertFrame .message msgId
    (messageRow threadId msgId ordinal order createdAt none) txid).transcript := by
  simp [Frame.transcript, Frame.untagged, field_upsertFrame, messageRow_agentId, agentField]

end Rows

/-! ## The record -/

/-- The user turns on the main transcript. -/
def Frame.isUserTurn (f : Frame) : Bool := f.transcript && f.isUser

/-- The tool rows on the main transcript. -/
def Frame.isTopCall (f : Frame) : Bool := f.type = .tool && f.untagged

theorem firstSeen_write (sel : Frame → Bool) (frames : List Frame) (f : Frame) :
    firstSeen (selectedKeys sel (frames ++ [f])) =
      if sel f then insertNew (firstSeen (selectedKeys sel frames)) f.key
      else firstSeen (selectedKeys sel frames) := by
  rw [selectedKeys, List.filter_append]
  split_ifs with hsel
  · rw [List.filter_cons_of_pos hsel, List.filter_nil, List.map_append, List.map_singleton,
      firstSeen_concat, selectedKeys]
  · rw [List.filter_cons_of_neg hsel, List.filter_nil, List.append_nil, selectedKeys]

structure Recorded (w : World) : Prop where
  texts : w.self.emittedTexts.keys = firstSeen (selectedKeys Frame.transcript w.frames)
  users : w.self.userMessageIds = firstSeen (selectedKeys Frame.isUserTurn w.frames)
  calls : w.self.emittedToolCallIds = firstSeen (selectedKeys Frame.isTopCall w.frames)
  links : ∀ subagentId tag, w.self.subagentToolCall.get subagentId = some tag → tag ≠ ""

/-- The record only grows. -/
structure Extended (w w' : World) : Prop where
  texts : w.self.emittedTexts.keys <+: w'.self.emittedTexts.keys
  users : w.self.userMessageIds <+: w'.self.userMessageIds
  calls : w.self.emittedToolCallIds <+: w'.self.emittedToolCallIds

theorem Extended.refl (w : World) : Extended w w :=
  ⟨List.prefix_rfl, List.prefix_rfl, List.prefix_rfl⟩

theorem Extended.of_eq {w w' : World} (htexts : w'.self.emittedTexts = w.self.emittedTexts)
    (husers : w'.self.userMessageIds = w.self.userMessageIds)
    (hcalls : w'.self.emittedToolCallIds = w.self.emittedToolCallIds) : Extended w w' :=
  ⟨htexts ▸ List.prefix_rfl, husers ▸ List.prefix_rfl, hcalls ▸ List.prefix_rfl⟩

theorem Extended.trans {w w' w'' : World} (h : Extended w w') (h' : Extended w' w'') :
    Extended w w'' :=
  ⟨h.texts.trans h'.texts, h.users.trans h'.users, h.calls.trans h'.calls⟩

def recordProtocol : Protocol TaskName World where
  inv := Recorded
  allowed _ _ := True
  rely := Extended
  guarantee _ := Extended
  rely_refl := Extended.refl
  rely_trans := Extended.trans
  guarantee_refl _ := Extended.refl
  guarantee_trans := Extended.trans
  rely_of_guarantee h := h

namespace Recorded

variable {w : World}

/-- Rows outside the main transcript are not recorded. -/
theorem write_aside (h : Recorded w) {type : RowType} {row : Row}
    (haside : Aside (· ≠ "") type row) (key : String) (txid : Option String) :
    Recorded (w.write (upsertFrame type key row txid)) := by
  have hnone : (upsertFrame type key row txid).transcript = false ∧
      (upsertFrame type key row txid).isTopCall = false := by
    rcases haside with haux | ⟨tag, ne, _, htag⟩
    · obtain ⟨hm, ht, _⟩ := RowType.ne_of_auxiliary haux
      exact ⟨by simp [Frame.transcript, hm], by simp [Frame.isTopCall, ht]⟩
    · rw [agentField_of_ne ne, or_self] at htag
      have huntagged : (upsertFrame type key row txid).untagged = false := by
        rw [Frame.untagged, field_upsertFrame, htag]
        rfl
      exact ⟨by simp [Frame.transcript, huntagged], by simp [Frame.isTopCall, huntagged]⟩
  refine ⟨?_, ?_, ?_, h.links⟩
  · rw [World.write, firstSeen_write, hnone.1]
    exact h.texts
  · rw [World.write, firstSeen_write, Frame.isUserTurn, hnone.1]
    exact h.users
  · rw [World.write, firstSeen_write, hnone.2]
    exact h.calls

/-- A row of the main transcript is recorded in the block that writes it. -/
theorem transcript {w₀ w' : World} {f : Frame} (h : Recorded w) (hw : Extended w₀ w)
    (hf : f.transcript) (hframes : w'.frames = w.frames ++ [f])
    (htexts : w'.self.emittedTexts.keys = insertNew w.self.emittedTexts.keys f.key)
    (husers : w'.self.userMessageIds =
      if f.isUser then insertNew w.self.userMessageIds f.key else w.self.userMessageIds)
    (hcalls : w'.self.emittedToolCallIds = w.self.emittedToolCallIds)
    (hlinks : w'.self.subagentToolCall = w.self.subagentToolCall) :
    Recorded w' ∧ Extended w₀ w' := by
  have htype : f.type = .message := by
    simp only [Frame.transcript, Bool.and_eq_true, decide_eq_true_eq] at hf
    exact hf.1
  refine ⟨⟨?_, ?_, ?_, by rw [hlinks]; exact h.links⟩, hw.trans ⟨?_, ?_, ?_⟩⟩
  · rw [htexts, hframes, firstSeen_write, if_pos hf, h.texts]
  · rw [husers, hframes, firstSeen_write, Frame.isUserTurn, hf, Bool.true_and, h.users]
  · rw [hcalls, hframes, firstSeen_write, if_neg (by simp [Frame.isTopCall, htype]), h.calls]
  · rw [htexts]
    exact prefix_insertNew _ _
  · rw [husers]
    split_ifs
    · exact prefix_insertNew _ _
    · exact List.prefix_rfl
  · exact hcalls ▸ List.prefix_rfl

/-- So is a tool row. -/
theorem topCall {w₀ w' : World} {f : Frame} (h : Recorded w) (hw : Extended w₀ w)
    (hf : f.isTopCall) (hframes : w'.frames = w.frames ++ [f])
    (htexts : w'.self.emittedTexts = w.self.emittedTexts)
    (husers : w'.self.userMessageIds = w.self.userMessageIds)
    (hcalls : w'.self.emittedToolCallIds = insertNew w.self.emittedToolCallIds f.key)
    (hlinks : w'.self.subagentToolCall = w.self.subagentToolCall) :
    Recorded w' ∧ Extended w₀ w' := by
  have htranscript : f.transcript = false := by
    simp only [Frame.isTopCall, Bool.and_eq_true, decide_eq_true_eq] at hf
    simp [Frame.transcript, hf.1]
  refine ⟨⟨?_, ?_, ?_, by rw [hlinks]; exact h.links⟩, hw.trans ⟨?_, ?_, ?_⟩⟩
  · rw [htexts, hframes, firstSeen_write, htranscript, h.texts, if_neg Bool.false_ne_true]
  · rw [husers, hframes, firstSeen_write, Frame.isUserTurn, htranscript, h.users, Bool.false_and,
      if_neg Bool.false_ne_true]
  · rw [hcalls, hframes, firstSeen_write, if_pos hf, h.calls]
  · exact htexts ▸ List.prefix_rfl
  · exact husers ▸ List.prefix_rfl
  · rw [hcalls]
    exact prefix_insertNew _ _

end Recorded

/-! ## The drains -/

/-- Steps that leave the record and the frames alone. -/
theorem Recorded.silent {α : Type} {f : World → α × World} (hf : Silent f) {w : World}
    (h : Recorded w) : Extended w (f w).2 ∧ Recorded (f w).2 := by
  have htexts := congrArg EmittedTurn.texts (hf.turn w)
  have husers := congrArg EmittedTurn.userMessageIds (hf.turn w)
  have hcalls := congrArg EmittedTurn.toolCallIds (hf.turn w)
  simp only [Translator.emittedTurn] at htexts husers hcalls
  constructor
  · exact Extended.of_eq htexts husers hcalls
  · exact ⟨by rw [htexts, hf.frames, h.texts], by rw [husers, hf.frames, h.users],
      by rw [hcalls, hf.frames, h.calls], by rw [hf.links]; exact h.links⟩

section Drains

variable {name : TaskName} {rt : Runtime}

/-- What the task knows to be on record stays there. -/
abbrev Knows (known : World → Prop) (name : TaskName) {α : Type} (p : Task α) : Prop :=
  Triple recordProtocol name (fun w => Recorded w ∧ known w) p fun _ w => Recorded w ∧ known w

theorem recorded_recordSubagentLink {w : World} (h : Recorded w) (payload : Entries) :
    Extended w { w with self := Translator.recordSubagentLink payload w.self } ∧
      Recorded { w with self := Translator.recordSubagentLink payload w.self } := by
  cases hid : payload.get "subagent_id" with
  | str subagentId =>
      cases htag : (payload.get "tool_call_id").nonemptyStr with
      | none =>
          simp only [Translator.recordSubagentLink, hid, htag]
          exact ⟨Extended.refl w, h⟩
      | some tag =>
          simp only [Translator.recordSubagentLink, hid, htag]
          refine ⟨Extended.of_eq rfl rfl rfl, h.texts, h.users, h.calls, ?_⟩
          intro other tag' hget
          change (w.self.subagentToolCall.set subagentId tag).get other = some tag' at hget
          rw [OrderedDict.get_set] at hget
          split_ifs at hget with ho
          · rw [← Option.some.inj hget]
            exact PyValue.nonemptyStr_ne htag
          · exact h.links other tag' hget
  | _ =>
      simp only [Translator.recordSubagentLink, hid]
      exact ⟨Extended.refl w, h⟩

theorem goesAlong_recordProtocol :
    GoesAlong (fun _ => True) (· ≠ "") fun name _ p => Preserves recordProtocol name p where
  constructs _ := compositional_triple (fun _ h => h) fun _ _ _ hi _ => hi
  silent _ _ _ hf := triple_atomically fun _ hw => hw.silent hf
  link _ payload := triple_atomically fun _ hw => recorded_recordSubagentLink hw payload
  row _ _ key _ txid haside :=
    preserves_bind (triple_atomically fun _ hw =>
      ⟨Extended.of_eq rfl rfl rfl, hw.write_aside haside key txid⟩)
      fun _ => preserves_suspend
  linked name subagentId f hnone hsome := by
    have hevent : Preserves recordProtocol name
        (updateSelf (Translator.subagentEvent subagentId)) :=
      triple_atomically fun _ hw =>
        ⟨Extended.of_eq rfl rfl rfl, hw.texts, hw.users, hw.calls, hw.links⟩
    refine preserves_bind_of (Q := fun agentId => ∀ tag, agentId = some tag → tag ≠ "") ?_ ?_
    · refine triple_bind hevent fun _ => triple_bind (preserves_awaitingOr _) fun linked => ?_
      cases linked with
      | false => exact triple_pure fun _ h => ⟨h, fun _ hr => by cases hr⟩
      | true => exact fun _ _ _ hi ha hg h hk => hk _ _ _ hi ha hg ⟨h, fun tag => h.links _ tag⟩
    · intro agentId htag
      cases agentId with
      | none => exact hnone
      | some tag => exact hsome tag (htag tag rfl)
  spawn _ _ _ := preserves_spawn

theorem knows_compositional {known : World → Prop}
    (hknown : ∀ w w', Extended w w' → known w → known w') :
    Compositional (fun _ => True) fun _ p => Knows known name p :=
  compositional_triple (fun _ h => h.1) fun _ _ h hi hr => ⟨hi, hknown _ _ hr h.2⟩

theorem preserves_emitUserMessage (msgId text : String) (attachments : List PyValue) :
    Preserves recordProtocol name (emitUserMessage rt msgId text attachments) := by
  intro k w₀ w _ _ hg hw hk
  simp only [emitUserMessage, onSelf, nowMs, updateSelf, upsert, readSelf, Proc.atomically,
    Proc.suspend, Proc.bind_apply, Safe]
  let f := upsertFrame .message msgId (userRow w.self.threadId msgId
    (assign w.self.ordinals w.self.ordinal msgId).1
    (assign w.self.orderByKey w.self.orderSeq msgId).1 (rt.clockMs w.clockReads) text attachments)
    (some msgId)
  have htranscript : f.transcript := transcript_userRow
  have huser : f.isUser := isUser_userRow
  refine ⟨hw.transcript hg htranscript rfl (OrderedDict.keys_set _ _ _) (if_pos huser).symm rfl rfl,
    ?_⟩
  exact fun w' hi' _ _ _ => hk () w' w' hi' trivial (Extended.refl w') hi'

/-- The text of a message that is on record may be captured. -/
theorem knows_streamMessageText (message : ModelMessage) (msgId : String) :
    Knows (fun w => msgId ∈ w.self.emittedTexts.keys) name
      (streamMessageText message msgId none) := by
  have C : Compositional (fun _ => True) fun _ p =>
      Knows (fun w => msgId ∈ w.self.emittedTexts.keys) name p :=
    knows_compositional fun _ _ hext hmem => hext.texts.subset hmem
  refine C.streamDeltas _ (fun text => ?_) (fun channel seq text => ?_) _ _ _
  · refine triple_atomically fun w hw => ?_
    have hkeys : (w.self.emittedTexts.set msgId text).keys = w.self.emittedTexts.keys := by
      rw [OrderedDict.keys_set, if_pos hw.2]
    refine ⟨⟨?_, List.prefix_rfl, List.prefix_rfl⟩, ⟨?_, hw.1.users, hw.1.calls, hw.1.links⟩, ?_⟩
    · exact hkeys ▸ List.prefix_rfl
    · exact hkeys.trans hw.1.texts
    · change msgId ∈ (w.self.emittedTexts.set msgId text).keys
      rw [hkeys]
      exact hw.2
  · refine C.bind (triple_atomically fun w hw => ⟨Extended.refl w, hw⟩) fun t => ?_
    refine C.bind (triple_atomically fun w hw => ?_) fun _ => C.suspend
    exact ⟨Extended.of_eq rfl rfl rfl, hw.1.write_aside (.inl rfl) _ _, hw.2⟩

theorem preserves_consumeMessage (message : ModelMessage) :
    Preserves recordProtocol name (consumeMessage rt message) := by
  refine preserves_bind (goesAlong_recordProtocol.idOr _ _) fun msgId => ?_
  intro k w₀ w _ _ hg hw hk
  simp only [onSelf, nowMs, updateSelf, upsertMessage, upsert, readSelf, Proc.atomically,
    Proc.suspend, Proc.bind_apply, Safe]
  let f := upsertFrame .message msgId (messageRow w.self.threadId msgId
    (assign w.self.ordinals w.self.ordinal msgId).1
    (assign w.self.orderByKey w.self.orderSeq msgId).1 (rt.clockMs w.clockReads) none) none
  have htranscript : f.transcript := transcript_messageRow
  have huser : f.isUser = false := isUser_messageRow
  refine ⟨hw.transcript hg htranscript rfl (OrderedDict.keys_setDefault _ _ "")
    (if_neg (Bool.eq_false_iff.mp huser)).symm rfl rfl, fun w' hi' hr _ _ => ?_⟩
  have hmem : msgId ∈ w'.self.emittedTexts.keys := by
    apply hr.texts.subset
    change msgId ∈ (w.self.emittedTexts.setDefault msgId "").keys
    rw [OrderedDict.keys_setDefault]
    exact mem_insertNew _ _
  exact knows_streamMessageText message msgId k w' w' hi' trivial (Extended.refl w') ⟨hi', hmem⟩
    fun _ s₀ s hi _ hg' hs => hk () s₀ s hi trivial hg' hs.1

theorem isTopCall_upsertFrame {toolCallId : String} {row : Row} {txid : Option String}
    (h : row.get "agentId" = none) : (upsertFrame .tool toolCallId row txid).isTopCall := by
  simp [Frame.isTopCall, Frame.untagged, field_upsertFrame, h]

/-- What follows the first row of a call, whose id is on record by then. -/
theorem knows_settle (tc : ToolCallExecution) (threadId : String) (order : ℤ) :
    Knows (fun w => tc.toolCallId ∈ w.self.emittedToolCallIds) name
      (drainOutputDeltas tc >>= fun settlement =>
        if isInterruptError settlement.error then pure ()
        else upsert .tool tc.toolCallId (resultRow rt threadId none tc order settlement)
          (resultTxid (toAgUiToolName rt tc.toolName) tc.toolCallId)) := by
  have C : Compositional (fun _ => True) fun _ p =>
      Knows (fun w => tc.toolCallId ∈ w.self.emittedToolCallIds) name p :=
    knows_compositional fun _ _ hext hmem => hext.calls.subset hmem
  refine C.bind (C.drainOutputDeltas tc) fun settlement => ite_of (C.pure ()) ?_
  refine C.bind (triple_atomically fun w hw => ?_) fun _ => C.suspend
  have hsame : w.self.emittedToolCallIds = insertNew w.self.emittedToolCallIds tc.toolCallId :=
    (if_pos hw.2).symm
  let f := upsertFrame .tool tc.toolCallId (resultRow rt threadId none tc order settlement)
    (resultTxid (toAgUiToolName rt tc.toolName) tc.toolCallId)
  have hcall : f.isTopCall := isTopCall_upsertFrame (resultRow_agentId _ _ _ _ _ _)
  have hboth : Recorded (w.write f) ∧ Extended w (w.write f) :=
    hw.1.topCall (Extended.refl w) hcall rfl rfl rfl hsame rfl
  exact ⟨hboth.2, hboth.1, hw.2⟩

theorem preserves_consumeToolCallExecution (tc : ToolCallExecution) :
    Preserves recordProtocol name (consumeToolCallExecution rt tc) := by
  intro k w₀ w _ _ hg hw hk
  simp only [consumeToolCallExecution, projectToolCall, onSelf, updateSelf, upsert, readSelf,
    Proc.atomically, Proc.suspend, Proc.bind_apply, Safe]
  refine ⟨hw.topCall hg (isTopCall_upsertFrame (startedRow_agentId _ _ _ _ _)) rfl rfl rfl rfl rfl,
    fun w' hi' hr _ _ => ?_⟩
  have hmem : tc.toolCallId ∈ w'.self.emittedToolCallIds :=
    hr.calls.subset (mem_insertNew _ _)
  exact knows_settle tc _ _ k w' w' hi' trivial (Extended.refl w') ⟨hi', hmem⟩
    fun _ s₀ s hi _ hg' hs => hk () s₀ s hi trivial hg' hs.1

end Drains

/-! ## Whole runs -/

variable {rt : Runtime} {threadId runId summaryPrefix : String} {s t : ℤ}

theorem recorded_start : Recorded
    (World.start (Translator.seeded threadId runId summaryPrefix s t)) where
  texts := rfl
  users := rfl
  calls := rfl
  links := fun _ _ h => by cases h

theorem stable_recordProtocol (activities : List Activity) :
    ∀ thread ∈ (startSystem rt (Translator.seeded threadId runId summaryPrefix s t)
        activities).threads, ∀ w, Stable recordProtocol thread w := by
  intro thread hm
  obtain ⟨a, _, rfl⟩ := List.mem_map.mp hm
  exact stable_of_preserves (goesAlong_recordProtocol.activity (fun _ _ _ => trivial)
    preserves_emitUserMessage preserves_consumeMessage
    fun tc => preserves_consumeToolCallExecution tc)

/-- What `emitted_turn` returns where these frames have been written. -/
structure DescribesTurn (start : ℤ) (turn : EmittedTurn) (frames : List Frame) : Prop where
  texts : turn.texts.keys = firstSeen (selectedKeys Frame.transcript frames)
  ordinals : turn.ordinals.keys = turn.texts.keys
  numbered : ∀ f ∈ frames, f.transcript →
    ∃ o, f.ordinal = some o ∧ turn.ordinals.get f.key = some o
  inOrder : turn.ordinals.values =
    (List.range turn.texts.keys.length).map fun i : ℕ => start + i
  users : turn.userMessageIds = firstSeen (selectedKeys Frame.isUserTurn frames)
  calls : turn.toolCallIds = firstSeen (selectedKeys Frame.isTopCall frames)

theorem described_of_reaches {activities : List Activity} {c : System}
    (h : Reaches anyStep
      (startSystem rt (Translator.seeded threadId runId summaryPrefix s t) activities) c) :
    DescribesTurn t c.state.self.emittedTurn c.state.frames ∧
      ∀ p name c', c.step p = some (name, c') → Extended c.state c'.state := by
  have hrecorded : Recorded c.state :=
    run_inv (P := recordProtocol) h recorded_start fun thread hm =>
      stable_recordProtocol activities thread hm _
  have hcounted := counted_of_reaches h
  constructor
  · exact
      { texts := hrecorded.texts
        ordinals := hcounted.ordinals.keys_eq.trans hrecorded.texts.symm
        numbered := hcounted.ordinals.stamped
        inOrder := by
          have htexts : c.state.self.emittedTurn.texts.keys =
              firstSeen (selectedKeys Frame.transcript c.state.frames) := hrecorded.texts
          rw [htexts]
          exact hcounted.ordinals.values_eq
        users := hrecorded.users
        calls := hrecorded.calls }
  · intro p name c' hstep
    exact run_step_guarantee (P := recordProtocol) h recorded_start
      (fun thread hm => stable_recordProtocol activities thread hm _) hstep trivial

/-- The answer is cancelled within its text, while a call is running. -/
def cancelledTurn : System :=
  (startSystem plainRuntime (Translator.seeded "t" "r" "summarization-" 4 2)
    [.userMessage "u1" "hi" [], .messages ⟨[textMessage "m" ["a", "b"]], none⟩,
      .toolCalls ⟨[searchCall "c1"], none⟩, .source [.messages, .toolCalls]]).after
    (fun _ _ => true) [.run 0, .run 3, .run 3, .run 1, .run 1, .run 1, .run 2, .run 4, .cancel 1]
    (by decide)

theorem described_of_reaches_cancelledTurn :
    (cancelledTurn.state.self.emittedTurn.texts.entries = [("u1", "hi"), ("m", "a")] ∧
      cancelledTurn.state.self.emittedTurn.toolCallIds = ["c1"]) ∧
      DescribesTurn 2 cancelledTurn.state.self.emittedTurn cancelledTurn.state.frames ∧
      ∀ p name c', cancelledTurn.step p = some (name, c') →
        Extended cancelledTurn.state c'.state :=
  ⟨by decide, described_of_reaches (reaches_after (fun _ _ _ => trivial) _ _ _)⟩

end StreamDB
