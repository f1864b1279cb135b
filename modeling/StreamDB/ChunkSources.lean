import StreamDB.DrainRows

/-!
# Where chunks come from

Every chunk a run puts on the stream, at whatever moment and from whichever task, is one of the
chunks of a message that some drain has taken.
-/

namespace StreamDB

open Coroutine

namespace Setting

variable (E : Setting)

/-- A drain may put the message on the stream as `msgId`, tagged with `agentId`. -/
inductive Streams (m : ModelMessage) : Option String → String → Prop
  | top {msgId : String} (item : E.source .messages (.message m))
      (rendered : rendersMessage E.summaryPrefix m)
      (id : ResolvesTo E.rt "msg_" m.messageId msgId) : Streams m none msgId
  | nested {subagentId tag msgId : String}
      (item : E.source (.subagentMessages subagentId) (.message m))
      (model : m.node = some modelNode)
      (id : ResolvesTo E.rt "submsg_" m.messageId msgId) : Streams m (some tag) msgId

/-- The row is one of the chunks of such a message. -/
def ChunkOf (f : Frame) : Prop :=
  ∃ m agentId msgId chunk, E.Streams m agentId msgId ∧ chunk ∈ streamChunks m.events.items ∧
    f = upsertFrame .messageChunk (chunkId msgId chunk.channel chunk.seq)
      (chunkRow E.threadId msgId chunk.channel chunk.seq chunk.text agentId) none

/-- Nothing but chunks of messages is added to the chunks. -/
def Encodes : World → World → Prop := World.Adds fun f => f.type = .messageChunk → E.ChunkOf f

/-- The same tasks without their messages. -/
def wordless : Setting :=
  { E with source := fun name item => E.source name item ∧ ∀ m, item ≠ .message m }

def chunkProtocol : Protocol TaskName World where
  inv := E.wordless.Conforms
  allowed := E.allowed
  rely _ _ := True
  guarantee _ := E.Encodes
  rely_refl _ := trivial
  rely_trans _ _ := trivial
  guarantee_refl _ _ := World.Adds.of_frames_eq rfl
  guarantee_trans := World.Adds.trans
  rely_of_guarantee _ := trivial

variable {E} {name : TaskName} {α β : Type}

abbrev Encoding (E : Setting) (name : TaskName) (p : Task α) : Prop :=
  Preserves E.chunkProtocol name p

/-! ## Tasks without messages -/

theorem type_of_wordless {f : Frame} (h : E.wordless.WrittenBy name f) :
    f.type ≠ .messageChunk := by
  cases h with
  | chunk author _ _ _ =>
      cases author with
      | top item _ _ => exact absurd rfl (item.2 _)
      | nested item _ _ _ => exact absurd rfl (item.2 _)
  | custom _ row =>
      cases row with
      | _ => exact nofun
  | _ => exact nofun

theorem wordless_within : E.wordless.rowProtocol.Within E.chunkProtocol where
  inv _ := Iff.rfl
  allowed _ _ h := h
  rely _ _ h := h
  guarantee _ _ _ h := by
    obtain ⟨frames, hframes, hrows⟩ := h.rows
    exact ⟨frames, hframes, fun f hf hchunk => absurd hchunk (type_of_wordless (hrows f hf))⟩

/-- A task without messages puts no chunk on the stream. -/
theorem stable_of_wordless {p : Task Unit} (h : E.wordless.Writes name p) (w : World) :
    Stable E.chunkProtocol (name, p.code) w :=
  (stable_of_preserves h w).within wordless_within

/-! ## Drains of messages -/

theorem encoding_atomically {f : World → α × World}
    (hself : ∀ w, (f w).2.self.threadId = w.self.threadId ∧
      (f w).2.self.summaryPrefix = w.self.summaryPrefix ∧
      (f w).2.self.linkView = w.self.linkView)
    (hframes : ∀ w, (f w).2.frames = w.frames) : E.Encoding name (Proc.atomically f) := by
  apply preserves_atomically
  intro w hw
  obtain ⟨hthread, hprefix, hlinks⟩ := hself w
  refine ⟨World.Adds.of_frames_eq (hframes w), hthread.trans hw.threadId,
    hprefix.trans hw.summaryPrefix, ?_⟩
  rw [hlinks]
  exact hw.links

theorem encoding_upsert {type : RowType} {key : String} {row : Row} {txid : Option String}
    (h : type = .messageChunk → E.ChunkOf (upsertFrame type key row txid)) :
    E.Encoding name (upsert type key row txid) := by
  refine preserves_bind (preserves_atomically fun w hw => ⟨.of_write h, ?_⟩)
    fun _ => preserves_suspend
  exact ⟨hw.threadId, hw.summaryPrefix, hw.links⟩

theorem encoding_readSelf_bind {f : Translator → Task β}
    (hf : ∀ t, t.threadId = E.threadId → t.summaryPrefix = E.summaryPrefix →
      E.Encoding name (f t)) : E.Encoding name (readSelf >>= f) := by
  refine preserves_bind_of
    (Q := fun t => t.threadId = E.threadId ∧ t.summaryPrefix = E.summaryPrefix) ?_
    fun t ht => hf t ht.1 ht.2
  exact triple_atomically fun w hw =>
    ⟨World.Adds.of_frames_eq rfl, hw, hw.threadId, hw.summaryPrefix⟩

theorem drawsIds_chunkProtocol : DrawsIds E.chunkProtocol := fun _ _ hw =>
  ⟨World.Adds.of_frames_eq rfl, hw.threadId, hw.summaryPrefix, hw.links⟩

theorem encoding_nowMs (rt : Runtime) : E.Encoding name (nowMs rt) :=
  encoding_atomically (fun _ => ⟨rfl, rfl, rfl⟩) fun _ => rfl

section Message

variable {m : ModelMessage} {agentId : Option String} {msgId : String}

theorem encoding_upsertMessage (ordinal createdAt : ℤ) :
    E.Encoding name (upsertMessage msgId ordinal createdAt agentId) := by
  apply preserves_bind (encoding_atomically (fun _ => ⟨rfl, rfl, rfl⟩) fun _ => rfl)
  intro order
  apply encoding_readSelf_bind
  intro t _ _
  exact encoding_upsert nofun

theorem encoding_emitMessageChunk (hstreams : E.Streams m agentId msgId) {chunk : Chunk}
    (hchunk : chunk ∈ streamChunks m.events.items) :
    E.Encoding name (emitMessageChunk msgId chunk.channel chunk.seq chunk.text agentId) := by
  apply encoding_readSelf_bind
  intro t ht _
  rw [ht]
  exact encoding_upsert fun _ => ⟨m, agentId, msgId, chunk, hstreams, hchunk, rfl⟩

theorem encoding_captureText (text : String) :
    E.Encoding name (captureText msgId text agentId) :=
  preserves_ite (encoding_atomically (fun _ => ⟨rfl, rfl, rfl⟩) fun _ => rfl) (preserves_pure ())

theorem encoding_streamMessageText (hstreams : E.Streams m agentId msgId) :
    E.Encoding name (streamMessageText m msgId agentId) :=
  preserves_streamDeltas _ encoding_captureText
    fun _ hchunk => encoding_emitMessageChunk hstreams hchunk

end Message

theorem encoding_streamMessages {messages : Feed ModelMessage}
    (items : ∀ m ∈ messages.items, E.source .messages (.message m)) :
    E.Encoding .messages (streamMessages E.rt messages) := by
  apply preserves_drainProjection
  intro m hm
  apply encoding_readSelf_bind
  intro t _ ht
  rw [ht]
  split_ifs with hrendered
  · apply preserves_idOr_bind drawsIds_chunkProtocol
    intro msgId hid
    apply preserves_bind (encoding_atomically (fun _ => ⟨rfl, rfl, rfl⟩) fun _ => rfl)
    intro ordinal
    apply preserves_bind (encoding_nowMs E.rt)
    intro createdAt
    apply preserves_bind (encoding_atomically (fun _ => ⟨rfl, rfl, rfl⟩) fun _ => rfl)
    intro _
    apply preserves_bind (encoding_upsertMessage ordinal createdAt)
    intro _
    exact encoding_streamMessageText (.top (items m hm) hrendered hid)
  · exact preserves_pure ()

theorem encoding_drainSubagentMessages {subagentId : String} {channel : Feed ModelMessage}
    (items : ∀ m ∈ channel.items, E.source (.subagentMessages subagentId) (.message m)) :
    E.Encoding (.subagentMessages subagentId) (drainSubagentMessages E.rt subagentId channel) := by
  have hagent : E.Encoding (.subagentMessages subagentId) (subagentAgentId subagentId) := by
    apply preserves_bind (encoding_atomically
      (fun w => ⟨rfl, rfl, w.self.linkView_subagentEvent subagentId⟩) fun _ => rfl)
    intro _
    apply preserves_bind (preserves_awaitingOr _)
    intro linked
    exact preserves_ite (encoding_readSelf_bind fun t _ _ => preserves_pure _) (preserves_pure _)
  apply preserves_bind hagent
  intro agentId
  cases agentId with
  | none => exact preserves_pure ()
  | some tag =>
      apply preserves_drainFeed
      intro m hm
      apply preserves_ite_of
      · intro model
        apply preserves_idOr_bind drawsIds_chunkProtocol
        intro msgId hid
        apply preserves_bind (encoding_atomically ?_ fun _ => rfl)
        · intro ordinal
          apply preserves_bind (encoding_nowMs E.rt)
          intro createdAt
          apply preserves_bind (encoding_upsertMessage ordinal createdAt)
          intro _
          exact encoding_streamMessageText (.nested (items m hm) model hid)
        · intro w
          have hbenign : E.Benign (.subagentMessages subagentId) w.self _ :=
            benign_nextSubagentOrdinal subagentId msgId w.self
          exact ⟨hbenign.threadId, hbenign.summaryPrefix, hbenign.links⟩
      · exact fun _ => preserves_pure ()

theorem drainsKeep_chunkProtocol {sg : Subgraph} {subagentId : String}
    (hcovers : E.Covers sg subagentId) : DrainsKeep E.rt E.chunkProtocol sg subagentId where
  messages channel h :=
    stable_of_preserves (encoding_drainSubagentMessages (hcovers.messages channel h))
  toolCalls channel h := stable_of_wordless (writes_drainSubagentTools fun tc htc =>
    ⟨hcovers.toolCalls channel h tc htc, nofun⟩)
  custom channel h := stable_of_wordless (writes_drainSubagentLifecycle fun p hp =>
    ⟨hcovers.custom channel h p hp, nofun⟩)

/-! ## Whole translators -/

theorem stable_activity {activities : List Activity} {a : Activity}
    (hsource : ∀ n item, drains E.rt activities n item → E.source n item) (mem : a ∈ activities)
    (w : World) : Stable E.chunkProtocol (a.thread E.rt) w := by
  have hown : ∀ n item, (∀ m, item ≠ .message m) → drains E.rt activities n item →
      E.wordless.source n item := fun n item hitem h => ⟨hsource n item h, hitem⟩
  cases a with
  | source events => exact stable_of_wordless (writes_publishAll events) w
  | userMessage msgId text attachments =>
      exact stable_of_wordless
        (writes_emitUserMessage rfl (hown _ _ nofun (.userMessage mem))) w
  | messages feed =>
      exact stable_of_preserves
        (encoding_streamMessages fun m hm => hsource _ _ (.message mem hm)) w
  | custom feed =>
      exact stable_of_wordless
        (writes_streamCustom fun p hm => hown _ _ nofun (.payload mem hm)) w
  | toolCalls feed =>
      exact stable_of_wordless
        (writes_streamToolCalls fun tc hm => hown _ _ nofun (.toolCall mem hm)) w
  | subgraphs feed =>
      refine stable_of_preserves (preserves_streamSubgraphs drawsIds_chunkProtocol ?_) w
      intro sg hw agent subagentId hid
      apply drainsKeep_chunkProtocol
      refine ⟨?_, ?_, ?_⟩
      · exact fun channel h m hm => hsource _ _ (.nestedMessage mem hw agent hid h hm)
      · exact fun channel h tc hm => hsource _ _ (.nestedCall mem hw agent hid h hm)
      · exact fun channel h p hm => hsource _ _ (.nestedPayload mem hw agent hid h hm)
  | values feed =>
      exact stable_of_wordless
        (writes_streamSnapshots _ _ _ fun v hm => hown _ _ nofun (.snapshot mem hm)) w

end Setting

variable {rt : Runtime} {threadId runId summaryPrefix : String} {s t : ℤ}
  {activities : List Activity} {c : System} {allowed : TaskName → World → Prop}

/-- Every chunk on the stream is a chunk of a message that some task drains. -/
theorem chunkOf_of_reaches
    (h : Reaches allowed
      (startSystem rt (Translator.seeded threadId runId summaryPrefix s t) activities) c)
    {f : Frame} (hf : f ∈ c.state.frames) (hchunk : f.type = .messageChunk) :
    (settingOf rt threadId summaryPrefix activities allowed).ChunkOf f := by
  let E := settingOf rt threadId summaryPrefix activities allowed
  have hstable : ∀ thread ∈ (startSystem rt (Translator.seeded threadId runId summaryPrefix s t)
      activities).threads, Stable E.chunkProtocol thread (World.start
        (Translator.seeded threadId runId summaryPrefix s t)) := by
    intro thread hm
    obtain ⟨a, ha, rfl⟩ := List.mem_map.mp hm
    exact Setting.stable_activity (E := E) (fun _ _ h => h) ha _
  have hkept : ∀ f ∈ c.state.frames, f.type = .messageChunk → E.ChunkOf f := by
    apply run_keeps (P := E.chunkProtocol) h (Setting.conforms_start _ _ _ _ _ _ _ _) hstable
      (K := fun w => ∀ f ∈ w.frames, f.type = .messageChunk → E.ChunkOf f)
    · exact fun _ hf => nomatch hf
    · exact fun _ _ _ hencodes => hencodes.forall_mem
  exact hkept f hf hchunk

end StreamDB
