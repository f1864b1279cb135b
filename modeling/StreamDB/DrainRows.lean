import StreamDB.DrainRules
import StreamDB.RowProtocol

/-!
# Every task writes its own rows

One lemma for each program of the drains: what it hands to the writer is a row `WrittenBy` the
task that runs it.
-/

namespace StreamDB

open Coroutine

namespace Setting

variable {E : Setting} {name : TaskName}

/-! ## Messages -/

theorem benign_nextOrdinal (hname : name.isSubagent = false) (msgId : String) (t : Translator) :
    E.Benign name t (t.nextOrdinal msgId).2 :=
  ⟨rfl, rfl, rfl, .inl rfl, fun hn => by simp [hname] at hn⟩

theorem benign_renderOrder (key : String) (t : Translator) :
    E.Benign name t (t.renderOrder key).2 :=
  ⟨rfl, rfl, rfl, .inl rfl, fun _ => rfl⟩

/-- Texts are captured by a task that drains messages. -/
theorem benign_captured (hname : name.isSubagent = false) (hcaptures : E.Captures name)
    (t : Translator) (texts : OrderedDict String String) :
    E.Benign name t { t with emittedTexts := texts } :=
  ⟨rfl, rfl, rfl, .inr hcaptures, fun hn => by simp [hname] at hn⟩

theorem writes_upsertMessage {agentId : Option String} {msgId : String}
    (author : E.MessageAuthor name agentId msgId) (ordinal createdAt : ℤ) :
    E.Writes name (upsertMessage msgId ordinal createdAt agentId) := by
  apply preserves_bind (writes_onSelf (benign_renderOrder msgId))
  intro order
  apply writes_readSelf_bind
  intro t ht _
  rw [ht]
  exact writes_upsert (.anchor author _ _ _)

theorem writes_emitMessageChunk {agentId : Option String} {msgId : String}
    (author : E.MessageAuthor name agentId msgId) (channel : ChunkChannel) (seq : ℕ)
    (text : String) : E.Writes name (emitMessageChunk msgId channel seq text agentId) := by
  apply writes_readSelf_bind
  intro t ht _
  rw [ht]
  exact writes_upsert (.chunk author _ _ _)

/-- Only the text of an untagged message is captured. -/
theorem writes_captureText {agentId : Option String} {msgId : String}
    (author : E.MessageAuthor name agentId msgId) (text : String) :
    E.Writes name (captureText msgId text agentId) := by
  cases author with
  | top item _ _ =>
      apply preserves_ite _ (preserves_pure ())
      exact writes_updateSelf fun t => benign_captured rfl ⟨rfl, .inl ⟨_, item⟩⟩ t _
  | nested _ _ _ _ => exact preserves_pure ()

theorem writes_streamMessageText {agentId : Option String} {msgId : String}
    (author : E.MessageAuthor name agentId msgId) (message : ModelMessage) :
    E.Writes name (streamMessageText message msgId agentId) :=
  preserves_streamDeltas _ (writes_captureText author)
    fun _ _ => writes_emitMessageChunk author _ _ _

theorem writes_consumeMessage {message : ModelMessage}
    (item : E.source .messages (.message message))
    (rendered : rendersMessage E.summaryPrefix message) :
    E.Writes .messages (consumeMessage E.rt message) := by
  apply writes_idOr_bind
  intro msgId hid
  have author : E.MessageAuthor .messages none msgId := .top item rendered hid
  apply preserves_bind (writes_onSelf (benign_nextOrdinal rfl msgId))
  intro ordinal
  apply preserves_bind (writes_nowMs E.rt)
  intro createdAt
  apply preserves_bind (writes_updateSelf fun t =>
    benign_captured rfl ⟨rfl, .inl ⟨_, item⟩⟩ t _)
  intro _
  apply preserves_bind (writes_upsertMessage author ordinal createdAt)
  intro _
  exact writes_streamMessageText author _

theorem writes_streamMessages {messages : Feed ModelMessage}
    (items : ∀ m ∈ messages.items, E.source .messages (.message m)) :
    E.Writes .messages (streamMessages E.rt messages) := by
  apply preserves_drainProjection
  intro m hm
  apply writes_readSelf_bind
  intro t _ ht
  rw [ht]
  split_ifs with hrendered
  · exact writes_consumeMessage (items m hm) hrendered
  · exact preserves_pure ()

theorem writes_emitUserMessage (hname : name.isSubagent = false) {msgId text : String}
    {attachments : List PyValue} (item : E.source name (.userMessage msgId text attachments)) :
    E.Writes name (emitUserMessage E.rt msgId text attachments) := by
  have hcaptures : E.Captures name := ⟨hname, .inr ⟨_, _, _, item⟩⟩
  refine preserves_bind (writes_updateSelf fun t => ?_) fun _ => ?_
  · exact ⟨rfl, rfl, rfl, .inr hcaptures, fun hn => by simp [hname] at hn⟩
  apply writes_readSelf_bind
  intro t ht _
  rw [ht]
  apply preserves_bind (writes_onSelf (benign_nextOrdinal hname msgId))
  intro ordinal
  apply preserves_bind (writes_onSelf (benign_renderOrder msgId))
  intro order
  apply preserves_bind (writes_nowMs E.rt)
  intro createdAt
  exact writes_upsert (.user item hname _ _ _)

/-! ## Tool calls -/

theorem writes_drainOutputDeltas (tc : ToolCallExecution) :
    E.Writes name (drainOutputDeltas tc) := by
  apply preserves_bind (preserves_awaitingOr _)
  intro drained
  cases drained with
  | false => exact preserves_pure _
  | true =>
      cases tc.deltasError with
      | none => exact preserves_pure _
      | some exc => exact preserves_raise exc

theorem writes_projectToolCall {agentId : Option String} {tc : ToolCallExecution}
    (author : E.CallAuthor name agentId tc) :
    E.Writes name (projectToolCall E.rt agentId tc) := by
  apply preserves_bind (writes_onSelf (benign_renderOrder tc.toolCallId))
  intro order
  apply writes_readSelf_bind
  intro t ht _
  rw [ht]
  apply preserves_bind (writes_upsert (.started author order))
  intro _
  apply preserves_bind (writes_drainOutputDeltas tc)
  intro settlement
  exact preserves_ite (preserves_pure ()) (writes_upsert (.settled author order settlement))

theorem writes_consumeToolCallExecution {tc : ToolCallExecution}
    (item : E.source (.toolCall tc) (.toolCall tc)) :
    E.Writes (.toolCall tc) (consumeToolCallExecution E.rt tc) := by
  refine preserves_bind (writes_updateSelf fun t => ?_) fun _ => ?_
  · exact ⟨rfl, rfl, rfl, .inl rfl, fun hn => by cases hn⟩
  · exact writes_projectToolCall (.top item)

theorem writes_streamToolCalls {calls : Feed ToolCallExecution}
    (items : ∀ tc ∈ calls.items, E.source (.toolCall tc) (.toolCall tc)) :
    E.Writes .toolCalls (streamToolCalls E.rt calls) :=
  preserves_drainProjection fun tc hm =>
    preserves_spawn (writes_consumeToolCallExecution (items tc hm))

/-! ## Subagents -/

/-- The link a payload records is one it starts. -/
theorem writes_recordSubagentLink {payload : Entries}
    (item : E.source name (.payload (.dict payload)))
    (start : (payload.get "content_type").isStr "subagent_start") :
    E.Writes name (updateSelf (Translator.recordSubagentLink payload)) := by
  apply preserves_atomically
  intro w hw
  refine ⟨?_, conforms_recordSubagentLink (fun _ _ h => ⟨name, payload, item, h⟩) start hw⟩
  change E.Advances name w { w with self := w.self.recordSubagentLink payload }
  obtain ⟨tags, ready, heq⟩ := w.self.recordSubagentLink_eq payload
  rw [heq]
  exact ⟨World.Adds.of_frames_eq rfl, .inl rfl, fun _ => rfl⟩

/-- A subagent's drain goes on with a tag its link has given it. -/
theorem writes_subagentAgentId_bind {subagentId : String} {f : Option String → Task Unit}
    (hnone : E.Writes name (f none))
    (hsome : ∀ tag, E.Linked name subagentId tag → E.Writes name (f (some tag))) :
    E.Writes name (subagentAgentId subagentId >>= f) := by
  refine preserves_bind_of (Q := fun r => ∀ tag, r = some tag → E.Linked name subagentId tag) ?_ ?_
  · have hevent : E.Writes name (updateSelf (Translator.subagentEvent subagentId)) :=
      writes_updateSelf fun t => ⟨rfl, rfl, t.linkView_subagentEvent _, .inl rfl, fun _ => rfl⟩
    have hwait : Triple E.rowProtocol name E.rowProtocol.inv
        (Proc.awaitingOr fun w => w.self.subagentLinked subagentId : Task Bool)
        fun _ w => E.Conforms w ∧ E.allowed name w :=
      triple_awaitingOr (fun _ h => h) fun _ _ _ _ hi _ ha _ => ⟨hi, ha⟩
    refine triple_bind hevent fun _ => triple_bind hwait fun linked => ?_
    cases linked with
    | false => exact triple_pure fun _ h => ⟨h.1, fun _ hr => nomatch hr⟩
    | true =>
        intro k w₀ w hi ha hg hw hk
        refine hk _ w₀ w hi ha hg ⟨hw.1, fun tag hget => ⟨⟨w, hw.2, hget⟩, ?_⟩⟩
        exact hw.1.links.started subagentId tag hget
  · intro r hlinked
    cases r with
    | none => exact hnone
    | some tag => exact hsome tag (hlinked tag rfl)

theorem benign_nextSubagentOrdinal (subagentId msgId : String) (t : Translator) :
    E.Benign name t (t.nextSubagentOrdinal subagentId msgId).2 := by
  cases hk : (t.msgOrdinals subagentId).get msgId with
  | some existing =>
      simp only [Translator.nextSubagentOrdinal, hk]
      exact ⟨rfl, rfl, rfl, .inl rfl, fun _ => rfl⟩
  | none =>
      simp only [Translator.nextSubagentOrdinal, hk]
      exact ⟨rfl, rfl, rfl, .inl rfl, fun _ => rfl⟩

theorem writes_drainSubagentMessages {subagentId : String} {channel : Feed ModelMessage}
    (items : ∀ m ∈ channel.items, E.source (.subagentMessages subagentId) (.message m)) :
    E.Writes (.subagentMessages subagentId) (drainSubagentMessages E.rt subagentId channel) := by
  apply writes_subagentAgentId_bind
  · exact preserves_pure ()
  · intro tag linked
    apply preserves_drainFeed
    intro m hm
    apply preserves_ite_of
    · intro model
      apply writes_idOr_bind
      intro msgId hid
      have author : E.MessageAuthor (.subagentMessages subagentId) (some tag) msgId :=
        .nested (items m hm) model linked hid
      apply preserves_bind (writes_onSelf (benign_nextSubagentOrdinal subagentId msgId))
      intro ordinal
      apply preserves_bind (writes_nowMs E.rt)
      intro createdAt
      apply preserves_bind (writes_upsertMessage author ordinal createdAt)
      intro _
      exact writes_streamMessageText author _
    · exact fun _ => preserves_pure ()

theorem writes_consumeSubagentTool {subagentId : String} {tc : ToolCallExecution}
    (item : E.source (.subagentTool subagentId tc) (.toolCall tc)) :
    E.Writes (.subagentTool subagentId tc) (consumeSubagentTool E.rt subagentId tc) := by
  apply writes_subagentAgentId_bind
  · exact preserves_pure ()
  · intro tag linked
    exact writes_projectToolCall (.nested item linked)

theorem writes_drainSubagentTools {subagentId : String} {channel : Feed ToolCallExecution}
    (items : ∀ tc ∈ channel.items, E.source (.subagentTool subagentId tc) (.toolCall tc)) :
    E.Writes (.subagentTools subagentId) (drainSubagentTools E.rt subagentId channel) :=
  preserves_drainFeed fun tc hm => preserves_spawn (writes_consumeSubagentTool (items tc hm))

theorem writes_drainSubagentLifecycle {subagentId : String} {channel : Feed PyValue}
    (items : ∀ p ∈ channel.items, E.source (.subagentLifecycle subagentId) (.payload p)) :
    E.Writes (.subagentLifecycle subagentId) (drainSubagentLifecycle channel) := by
  apply preserves_drainFeed
  intro payload hm
  cases payload with
  | dict entries =>
      apply preserves_ite_of
      · exact fun start => writes_recordSubagentLink (items _ hm) start
      · exact fun _ => preserves_pure ()
  | _ => exact preserves_pure ()

/-- The setting knows what the projections of a subagent hold. -/
structure Covers (E : Setting) (sg : Subgraph) (subagentId : String) : Prop where
  messages : ∀ channel, sg.messages = some channel → ∀ m ∈ channel.items,
    E.source (.subagentMessages subagentId) (.message m)
  toolCalls : ∀ channel, sg.toolCalls = some channel → ∀ tc ∈ channel.items,
    E.source (.subagentTool subagentId tc) (.toolCall tc)
  custom : ∀ channel, sg.custom = some channel → ∀ p ∈ channel.items,
    E.source (.subagentLifecycle subagentId) (.payload p)

theorem drainsKeep_of_covers {sg : Subgraph} {subagentId : String}
    (hcovers : E.Covers sg subagentId) : DrainsKeep E.rt E.rowProtocol sg subagentId where
  messages channel h :=
    stable_of_preserves (writes_drainSubagentMessages (hcovers.messages channel h))
  toolCalls channel h :=
    stable_of_preserves (writes_drainSubagentTools (hcovers.toolCalls channel h))
  custom channel h :=
    stable_of_preserves (writes_drainSubagentLifecycle (hcovers.custom channel h))

/-! ## Custom payloads and state snapshots -/

section Custom

variable {payload : Entries}

theorem writes_emitEffect (item : E.source .custom (.payload (.dict payload))) {op : PyValue}
    (hop : ∀ entries, dictOf E.rt op = some entries → E.EffectOf payload entries) :
    E.Writes .custom (emitEffect E.rt op) := by
  apply writes_freshId_bind
  intro n
  cases hdict : dictOf E.rt op with
  | none => exact preserves_raise _
  | some entries => exact writes_upsert (.custom item (.effect n (hop entries hdict)))

theorem writes_emitReport (item : E.source .custom (.payload (.dict payload))) (op : Entries)
    (toolCallId : Option String) : E.Writes .custom (emitReport E.rt op toolCallId) := by
  unfold emitReport
  cases (op.get "file_id").nonemptyStr with
  | none => exact preserves_pure ()
  | some fileId =>
      apply writes_readSelf_bind
      intro t ht _
      rw [ht]
      apply preserves_bind (writes_nowMs E.rt)
      intro createdAt
      exact writes_upsert (.custom item (.report _ _ _ _))

theorem writes_frontendUpdates (item : E.source .custom (.payload (.dict payload)))
    (toolCallId : Option String) {ops : List PyValue}
    (hops : ∀ op ∈ ops,
      (∀ e, op = .dict e → (Entries.get e "type").isStr "report_generated" = false) →
      ∀ entries, dictOf E.rt op = some entries → E.EffectOf payload entries) :
    E.Writes .custom (frontendUpdates E.rt toolCallId ops) := by
  induction ops with
  | nil => exact preserves_pure ()
  | cons op ops ih =>
      refine preserves_bind ?_ fun _ => ih fun other hm => hops other (List.mem_cons_of_mem _ hm)
      have hop := hops op List.mem_cons_self
      cases op with
      | dict entries =>
          apply preserves_ite_of
          · exact fun _ => writes_emitReport item _ _
          · intro htype
            apply writes_emitEffect item
            apply hop
            rintro e ⟨⟩
            simpa using htype
      | _ => exact writes_emitEffect item (hop fun e he => nomatch he)

theorem writes_handleToolEnd (item : E.source .custom (.payload (.dict payload)))
    (htype : (payload.get "content_type").isStr "tool_end") :
    E.Writes .custom (handleToolEnd E.rt payload) := by
  unfold handleToolEnd
  split
  · exact writes_frontendUpdates item _ fun op hm hreport entries hdict =>
      .frontendUpdate htype (by assumption) hm hreport hdict
  · exact preserves_pure ()

theorem writes_handleToolSummary (item : E.source .custom (.payload (.dict payload))) :
    E.Writes .custom (handleToolSummary payload) := by
  unfold handleToolSummary
  split
  · exact writes_upsert (.custom item (.summary _ _))
  · exact preserves_pure ()

theorem writes_handleToolAction (item : E.source .custom (.payload (.dict payload))) :
    E.Writes .custom (handleToolAction payload) := by
  unfold handleToolAction
  split
  · apply writes_readSelf_bind
    intro t ht _
    rw [ht]
    exact writes_upsert (.custom item (.action _))
  · exact preserves_pure ()

theorem writes_emitThreadEffect (item : E.source .custom (.payload (.dict payload)))
    (kind : String) (active : Option Bool) :
    E.Writes .custom (emitThreadEffect E.rt kind active) := by
  apply writes_readSelf_bind
  intro t _ _
  apply writes_emitEffect item
  rintro entries ⟨⟩
  apply EffectOf.payload
  cases active with
  | none => simp
  | some b => simp

theorem writes_handlePayload (item : E.source .custom (.payload (.dict payload))) :
    E.Writes .custom (handlePayload E.rt payload) := by
  apply preserves_ite (writes_handleToolSummary item)
  apply preserves_ite (writes_handleToolAction item)
  apply preserves_ite_of (writes_handleToolEnd item)
  intro _
  apply preserves_ite (preserves_raise _)
  apply preserves_ite (preserves_pure ())
  apply preserves_ite_of (writes_recordSubagentLink item)
  intro _
  apply preserves_ite (preserves_pure ())
  apply preserves_ite (writes_emitThreadEffect item _ _)
  apply preserves_ite (writes_emitThreadEffect item _ _)
  apply preserves_ite (writes_emitThreadEffect item _ _)
  apply writes_emitEffect item
  rintro entries ⟨⟩
  apply EffectOf.payload
  simp

end Custom

theorem writes_streamCustom {payloads : Feed PyValue}
    (items : ∀ p ∈ payloads.items, E.source .custom (.payload p)) :
    E.Writes .custom (streamCustom E.rt payloads) := by
  apply preserves_drainProjection
  intro payload hm
  have item := items payload hm
  cases payload with
  | dict entries => exact writes_handlePayload item
  | _ => exact preserves_pure ()

theorem writes_streamSnapshots (error : Option PyException) (i : ℕ) (prev : Option Entries)
    {states : List PyValue} (items : ∀ v ∈ states, E.source .values (.snapshot v)) :
    E.Writes .values (streamSnapshots error i prev states) := by
  induction states generalizing i prev with
  | nil => exact preserves_close _
  | cons rawState rest ih =>
      have hrest : ∀ v ∈ rest, E.source .values (.snapshot v) :=
        fun v hm => items v (List.mem_cons_of_mem _ hm)
      apply preserves_bind (preserves_awaiting _)
      intro _
      cases rawState with
      | dict state =>
          apply preserves_ite (ih _ _ hrest)
          apply writes_readSelf_bind
          intro t ht _
          rw [ht]
          apply preserves_bind (writes_upsert (.state (items _ List.mem_cons_self)))
          intro _
          exact ih _ _ hrest
      | _ => exact ih _ _ hrest

/-! ## Whole translators -/

theorem writes_publishAll (events : List Projection) : E.Writes name (publishAll events) := by
  induction events with
  | nil => exact preserves_pure ()
  | cons p ps ih =>
      apply preserves_bind preserves_suspend
      intro _
      exact preserves_bind (writes_atomically (fun _ => rfl) fun _ => rfl) fun _ => ih

theorem writes_activity {activities : List Activity} {a : Activity}
    (hsource : ∀ n item, drains E.rt activities n item → E.source n item) (mem : a ∈ activities) :
    E.Writes a.name (a.task E.rt) := by
  cases a with
  | source events => exact writes_publishAll events
  | userMessage msgId text attachments =>
      exact writes_emitUserMessage rfl (hsource _ _ (.userMessage mem))
  | messages feed => exact writes_streamMessages fun m hm => hsource _ _ (.message mem hm)
  | custom feed => exact writes_streamCustom fun p hm => hsource _ _ (.payload mem hm)
  | toolCalls feed => exact writes_streamToolCalls fun tc hm => hsource _ _ (.toolCall mem hm)
  | subgraphs feed =>
      apply preserves_streamSubgraphs drawsIds_rowProtocol
      intro sg hw agent subagentId hid
      apply drainsKeep_of_covers
      refine ⟨?_, ?_, ?_⟩
      · exact fun channel h m hm => hsource _ _ (.nestedMessage mem hw agent hid h hm)
      · exact fun channel h tc hm => hsource _ _ (.nestedCall mem hw agent hid h hm)
      · exact fun channel h p hm => hsource _ _ (.nestedPayload mem hw agent hid h hm)
  | values feed => exact writes_streamSnapshots _ _ _ fun v hm => hsource _ _ (.snapshot mem hm)

end Setting

variable {rt : Runtime} {threadId runId summaryPrefix : String} {s t : ℤ}
  {activities : List Activity} {c : System} {allowed : TaskName → World → Prop}

/-- The rows of a translator with the given activities, all about to start. -/
def settingOf (rt : Runtime) (threadId summaryPrefix : String) (activities : List Activity)
    (allowed : TaskName → World → Prop) : Setting :=
  ⟨rt, threadId, summaryPrefix, drains rt activities, allowed⟩

theorem stable_rows (rt : Runtime) (threadId runId summaryPrefix : String) (s t : ℤ)
    (activities : List Activity) (allowed : TaskName → World → Prop) :
    let c := startSystem rt (Translator.seeded threadId runId summaryPrefix s t) activities
    ∀ thread ∈ c.threads,
      Stable (settingOf rt threadId summaryPrefix activities allowed).rowProtocol thread
        c.state := by
  intro c thread hm
  obtain ⟨a, ha, rfl⟩ := List.mem_map.mp hm
  let E := settingOf rt threadId summaryPrefix activities allowed
  exact stable_of_preserves (Setting.writes_activity (E := E) (fun _ _ h => h) ha) _

/-- Every row on the stream is a row of some task. -/
theorem written_of_reaches
    (h : Reaches allowed
      (startSystem rt (Translator.seeded threadId runId summaryPrefix s t) activities) c) :
    ∀ f ∈ c.state.frames,
      ∃ name, (settingOf rt threadId summaryPrefix activities allowed).WrittenBy name f := by
  let E := settingOf rt threadId summaryPrefix activities allowed
  apply run_keeps (P := E.rowProtocol) h (Setting.conforms_start _ _ _ _ _ _ _ _)
    (stable_rows _ _ _ _ _ _ _ _) (K := fun w => ∀ f ∈ w.frames, ∃ name, E.WrittenBy name f)
  · exact fun _ hf => nomatch hf
  · intro name w w' hadvances
    apply World.Adds.forall_mem
    obtain ⟨frames, hframes, hrows⟩ := hadvances.rows
    exact ⟨frames, hframes, fun f hf => ⟨name, hrows f hf⟩⟩

/-- Every step adds rows of the task that takes it. -/
theorem advances_of_step {c' : System} {p : Pick} {name : TaskName}
    (h : Reaches allowed
      (startSystem rt (Translator.seeded threadId runId summaryPrefix s t) activities) c)
    (hstep : c.step p = some (name, c')) (ha : allowed name c.state) :
    (settingOf rt threadId summaryPrefix activities allowed).Advances name c.state c'.state :=
  run_step_guarantee (P := (settingOf rt threadId summaryPrefix activities allowed).rowProtocol) h
    (Setting.conforms_start _ _ _ _ _ _ _ _) (stable_rows _ _ _ _ _ _ _ _) hstep ha

theorem conforms_of_reaches
    (h : Reaches allowed
      (startSystem rt (Translator.seeded threadId runId summaryPrefix s t) activities) c) :
    (settingOf rt threadId summaryPrefix activities allowed).Conforms c.state :=
  run_inv (P := (settingOf rt threadId summaryPrefix activities allowed).rowProtocol) h
    (Setting.conforms_start _ _ _ _ _ _ _ _) (stable_rows _ _ _ _ _ _ _ _)

/-- What is on the stream stays there. -/
theorem frames_prefix_of_reaches {d : System}
    (h : Reaches allowed
      (startSystem rt (Translator.seeded threadId runId summaryPrefix s t) activities) c)
    (hlater : Reaches allowed c d) : c.state.frames <+: d.state.frames := by
  induction hlater with
  | refl => exact List.prefix_rfl
  | step run next ok ih =>
      obtain ⟨frames, hframes, _⟩ := (advances_of_step (h.trans run) next ok).rows
      exact ih.trans ⟨frames, hframes.symm⟩

end StreamDB
