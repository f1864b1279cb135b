import StreamDB.ChunkSources
import StreamDB.Salvage

/-!
# When two chunks share a key

A chunk's key is made of its message's id, of a mark for the reasoning channel and of its number.
The mark can be the end of an id: the reasoning of `m` goes under the keys of the text of `m:r`.
-/

namespace StreamDB

open Coroutine

structure ChunkName where
  msgId : String
  channel : ChunkChannel
  seq : ℕ

namespace ChunkName

def key (a : ChunkName) : String := chunkId a.msgId a.channel a.seq

/-- A chunk of reasoning under the key of a chunk of another message's text. -/
structure Shadows (a b : ChunkName) : Prop where
  msgId : b.msgId = a.msgId ++ ":r"
  reasoning : a.channel = .reasoning
  text : b.channel = .text
  seq : a.seq = b.seq

end ChunkName

theorem keyBase_eq_iff {msgId msgId' : String} {c c' : ChunkChannel} :
    keyBase msgId c = keyBase msgId' c' ↔
      (msgId = msgId' ∧ c = c') ∨
        (msgId' = msgId ++ ":r" ∧ c = .reasoning ∧ c' = .text) ∨
          (msgId = msgId' ++ ":r" ∧ c' = .reasoning ∧ c = .text) := by
  cases c with
  | text =>
      cases c' with
      | text => simp [keyBase]
      | reasoning => simp [keyBase]
  | reasoning =>
      cases c' with
      | text => simp [keyBase, eq_comm]
      | reasoning => simp [keyBase]

namespace ChunkName

variable {a b : ChunkName}

theorem key_eq_iff : a.key = b.key ↔ a = b ∨ a.Shadows b ∨ b.Shadows a := by
  obtain ⟨msgId, c, n⟩ := a
  obtain ⟨msgId', c', n'⟩ := b
  have hkeys : chunkId msgId c n = chunkId msgId' c' n' ↔
      keyBase msgId c = keyBase msgId' c' ∧ n = n' := by
    refine ⟨chunkId_inj, ?_⟩
    rintro ⟨hbase, rfl⟩
    rw [chunkId_eq, chunkId_eq, hbase]
  rw [key, key, hkeys, keyBase_eq_iff]
  constructor
  · rintro ⟨⟨rfl, rfl⟩ | ⟨hid, hc, hc'⟩ | ⟨hid, hc', hc⟩, rfl⟩
    · exact .inl rfl
    · exact .inr (.inl ⟨hid, hc, hc', rfl⟩)
    · exact .inr (.inr ⟨hid, hc', hc, rfl⟩)
  · rintro (h | h | h)
    · cases h
      exact ⟨.inl ⟨rfl, rfl⟩, rfl⟩
    · exact ⟨.inr (.inl ⟨h.msgId, h.reasoning, h.text⟩), h.seq⟩
    · exact ⟨.inr (.inr ⟨h.msgId, h.reasoning, h.text⟩), h.seq.symm⟩

theorem Shadows.ne (h : a.Shadows b) : a ≠ b := by
  rintro rfl
  have hchannel := h.reasoning.symm.trans h.text
  cases hchannel

/-- Where no chunk shadows the other, the key tells which it is. -/
theorem key_injective_iff : (a.key = b.key → a = b) ↔ ¬ a.Shadows b ∧ ¬ b.Shadows a := by
  rw [key_eq_iff]
  constructor
  · exact fun h => ⟨fun hs => hs.ne (h (.inr (.inl hs))), fun hs => hs.ne (h (.inr (.inr hs))).symm⟩
  · rintro ⟨hab, hba⟩ (h | h | h)
    · exact h
    · exact absurd h hab
    · exact absurd h hba

end ChunkName

/-! ## Chunks on the stream -/

namespace MessageStream

/-- The reasoning of the one comes under the keys of the text of the other. -/
structure Clashes (s s' : MessageStream) : Prop where
  msgId : s'.msgId = s.msgId ++ ":r"
  reasoning : streamText .reasoning s.events ≠ ""
  text : streamText .text s'.events ≠ ""

def PutsOut (s : MessageStream) (f : Frame) : Prop :=
  ∃ threadId agentId chunk, chunk ∈ streamChunks s.events ∧
    f = upsertFrame .messageChunk (chunkId s.msgId chunk.channel chunk.seq)
      (chunkRow threadId s.msgId chunk.channel chunk.seq chunk.text agentId) none

end MessageStream

def Frame.chunkStream (f : Frame) : Option String × Option PyValue :=
  (f.textField "messageId", f.field "channel")

/-- No chunk is written over a chunk of another message or of the other channel. -/
def ChunksApart (frames : List Frame) : Prop :=
  ∀ f ∈ frames, ∀ g ∈ frames, f.type = .messageChunk → g.type = .messageChunk →
    f.key = g.key → f.chunkStream = g.chunkStream

theorem chunkStream_chunkRow (threadId msgId : String) (channel : ChunkChannel) (seq : ℕ)
    (text key : String) (agentId : Option String) :
    (upsertFrame .messageChunk key (chunkRow threadId msgId channel seq text agentId)
      none).chunkStream =
        (some msgId, if channel = .reasoning then some (.str "reasoning") else none) := by
  rw [Frame.chunkStream, textField_upsertFrame (chunkRow_messageId _ _ _ _ _ _),
    field_upsertFrame, chunkRow_channel]

/-- A stream that puts out a chunk of a channel has received something on it. -/
theorem streamText_ne_empty {events : List Entries} {chunk : Chunk}
    (h : chunk ∈ streamChunks events) : streamText chunk.channel events ≠ "" := by
  rw [ne_eq, ← streamPieces_eq_nil]
  intro hnil
  have hpiece := mem_streamChunks.mp h
  rw [hnil] at hpiece
  cases hpiece

theorem exists_first_chunk {channel : ChunkChannel} {events : List Entries}
    (h : streamText channel events ≠ "") : ∃ text, ⟨channel, 0, text⟩ ∈ streamChunks events := by
  rw [ne_eq, ← streamPieces_eq_nil] at h
  obtain ⟨piece, rest, hpieces⟩ := List.exists_cons_of_ne_nil h
  exact ⟨piece, mem_streamChunks.mpr (by rw [hpieces]; rfl)⟩

theorem MessageStream.not_shadows {s s' : MessageStream} {chunk chunk' : Chunk}
    (hapart : ¬ s.Clashes s') (hchunk : chunk ∈ streamChunks s.events)
    (hchunk' : chunk' ∈ streamChunks s'.events) :
    ¬ ChunkName.Shadows ⟨s.msgId, chunk.channel, chunk.seq⟩
      ⟨s'.msgId, chunk'.channel, chunk'.seq⟩ := by
  rintro ⟨hid, hreasoning, htext, -⟩
  have hne := streamText_ne_empty hchunk
  have hne' := streamText_ne_empty hchunk'
  rw [show chunk.channel = .reasoning from hreasoning] at hne
  rw [show chunk'.channel = .text from htext] at hne'
  exact hapart ⟨hid, hne, hne'⟩

theorem chunksApart_of_streams {frames : List Frame} {S : MessageStream → Prop}
    (hsource : ∀ f ∈ frames, f.type = .messageChunk → ∃ s, S s ∧ s.PutsOut f)
    (hapart : ∀ s s', S s → S s' → ¬ s.Clashes s') : ChunksApart frames := by
  intro f hf g hg hftype hgtype hkey
  obtain ⟨s, hs, threadId, agentId, chunk, hchunk, rfl⟩ := hsource f hf hftype
  obtain ⟨s', hs', threadId', agentId', chunk', hchunk', rfl⟩ := hsource g hg hgtype
  have hname : (⟨s.msgId, chunk.channel, chunk.seq⟩ : ChunkName) =
      ⟨s'.msgId, chunk'.channel, chunk'.seq⟩ :=
    ChunkName.key_injective_iff.mpr
      ⟨MessageStream.not_shadows (hapart s s' hs hs') hchunk hchunk',
        MessageStream.not_shadows (hapart s' s hs' hs) hchunk' hchunk⟩ hkey
  rw [ChunkName.mk.injEq] at hname
  rw [chunkStream_chunkRow, chunkStream_chunkRow, hname.1, hname.2.1]

/-! ## Whole runs -/

/-- No two messages the drains can take clash, whatever ids are drawn for those without one. -/
def Setting.StreamsApart (E : Setting) : Prop :=
  ∀ {m m' : ModelMessage} {agentId agentId' : Option String} {msgId msgId' : String},
    E.Streams m agentId msgId → E.Streams m' agentId' msgId' →
      ¬ MessageStream.Clashes ⟨msgId, m.events.items⟩ ⟨msgId', m'.events.items⟩

theorem chunksApart_of_reaches {rt : Runtime} {threadId runId summaryPrefix : String} {s t : ℤ}
    {activities : List Activity} {c : System}
    (h : Reaches anyStep
      (startSystem rt (Translator.seeded threadId runId summaryPrefix s t) activities) c)
    (hapart : (settingOf rt threadId summaryPrefix activities anyStep).StreamsApart) :
    ChunksApart c.state.frames := by
  apply chunksApart_of_streams (S := fun s => ∃ m agentId,
    (settingOf rt threadId summaryPrefix activities anyStep).Streams m agentId s.msgId ∧
      s.events = m.events.items)
  · intro f hf hchunk
    obtain ⟨m, agentId, msgId, chunk, hstreams, hmem, rfl⟩ := chunkOf_of_reaches h hf hchunk
    exact ⟨⟨msgId, m.events.items⟩, ⟨m, agentId, hstreams, rfl⟩, threadId, agentId, chunk, hmem,
      rfl⟩
  · rintro ⟨msgId, _⟩ ⟨msgId', _⟩ ⟨m, agentId, hstreams, rfl⟩ ⟨m', agentId', hstreams', rfl⟩
    exact hapart hstreams hstreams'

namespace MessageRun

variable {r : MessageRun}

theorem mem_frames_of_drained (h : r.Drained) {f : Frame} :
    (f ∈ r.final.state.frames ∧ f.type = .messageChunk) ↔
      ∃ s ∈ r.streams, ∃ chunk ∈ streamChunks s.events,
        f = chunkFrame r.threadId s.msgId chunk := by
  have hlog : r.final.state.frames.filter (fun f => f.type = .messageChunk) =
      streamLog r.threadId r.streams := by
    rw [← chunks_viewOf, ← (view_of_drained h).2]
    rfl
  have hmem : (f ∈ r.final.state.frames ∧ f.type = .messageChunk) ↔
      f ∈ streamLog r.threadId r.streams := by
    rw [← hlog, List.mem_filter, decide_eq_true_iff]
  rw [hmem, streamLog, List.mem_flatMap]
  simp only [MessageStream.frames, List.mem_map, eq_comm]

/-- Where the messages have been drained, their chunks are apart if and only if no two of them
clash. -/
theorem chunksApart_iff (h : r.Drained) :
    ChunksApart r.final.state.frames ↔ ∀ s ∈ r.streams, ∀ s' ∈ r.streams, ¬ s.Clashes s' := by
  constructor
  · intro hapart s hs s' hs' hclash
    obtain ⟨reasoning, hreasoning⟩ := exists_first_chunk hclash.reasoning
    obtain ⟨text, htext⟩ := exists_first_chunk hclash.text
    obtain ⟨hf, hftype⟩ := (mem_frames_of_drained h).mpr ⟨s, hs, _, hreasoning, rfl⟩
    obtain ⟨hg, hgtype⟩ := (mem_frames_of_drained h).mpr ⟨s', hs', _, htext, rfl⟩
    have hkey : ChunkName.key ⟨s.msgId, .reasoning, 0⟩ = ChunkName.key ⟨s'.msgId, .text, 0⟩ :=
      ChunkName.key_eq_iff.mpr (.inr (.inl ⟨hclash.msgId, rfl, rfl, rfl⟩))
    have hstream := hapart _ hf _ hg hftype hgtype hkey
    rw [chunkFrame, chunkFrame, chunkStream_chunkRow, chunkStream_chunkRow] at hstream
    exact absurd (congrArg Prod.snd hstream) nofun
  · intro hapart
    apply chunksApart_of_streams (S := fun s => s ∈ r.streams)
    · intro f hf hchunk
      obtain ⟨s, hs, chunk, hmem, rfl⟩ := (mem_frames_of_drained h).mp ⟨hf, hchunk⟩
      exact ⟨s, hs, r.threadId, none, chunk, hmem, rfl⟩
    · exact fun s s' hs hs' => hapart s hs s' hs'

end MessageRun

/-- A key tells the message, the channel and the number of its chunk if and only if neither chunk
shadows the other; and the chunks of a run stay apart if, and once the messages have been drained
only if, no two messages clash. -/
theorem chunk_keys_injective_iff (a b : ChunkName) :
    ((a.key = b.key → a = b) ↔ ¬ a.Shadows b ∧ ¬ b.Shadows a) ∧
      (∀ {rt : Runtime} {threadId runId summaryPrefix : String} {s t : ℤ}
        {activities : List Activity} {c : System},
        Reaches anyStep
          (startSystem rt (Translator.seeded threadId runId summaryPrefix s t) activities) c →
        (settingOf rt threadId summaryPrefix activities anyStep).StreamsApart →
        ChunksApart c.state.frames) ∧
      ∀ r : MessageRun, r.Drained →
        (ChunksApart r.final.state.frames ↔
          ∀ s ∈ r.streams, ∀ s' ∈ r.streams, ¬ s.Clashes s') :=
  ⟨ChunkName.key_injective_iff, chunksApart_of_reaches,
    fun _ => MessageRun.chunksApart_iff⟩

def markedRun : MessageRun := messageRun [textMessage "m" ["a"], textMessage "m:r" ["b"]] 8 rfl

theorem streamsApart_markedRun :
    (settingOf markedRun.rt markedRun.threadId markedRun.summaryPrefix
      (markedRun.before ++ .messages markedRun.messages :: markedRun.after)
      anyStep).StreamsApart := by
  have hquiet : ∀ {m : ModelMessage} {agentId : Option String} {msgId : String},
      (settingOf markedRun.rt markedRun.threadId markedRun.summaryPrefix
        (markedRun.before ++ .messages markedRun.messages :: markedRun.after)
        anyStep).Streams m agentId msgId → streamText .reasoning m.events.items = "" := by
    intro m agentId msgId hstreams
    cases hstreams with
    | top item _ _ =>
        cases item with
        | message mem hm =>
            simp only [markedRun, messageRun, List.cons_append, List.nil_append, List.mem_cons,
              reduceCtorEq, Activity.messages.injEq, false_or, List.not_mem_nil, or_false] at mem
            subst mem
            simp only [List.mem_cons, List.not_mem_nil, or_false] at hm
            rcases hm with rfl | rfl
            · rfl
            · rfl
    | nested item _ _ =>
        cases item with
        | nestedMessage mem _ _ _ _ _ => simp [markedRun, messageRun] at mem
  intro _ _ _ _ _ _ hstreams _ hclash
  exact hclash.reasoning (hquiet hstreams)

theorem chunk_keys_injective_iff_markedRun :
    let a : ChunkName := ⟨"m", .text, 0⟩
    let b : ChunkName := ⟨"m:r", .text, 0⟩
    ((a.key = b.key → a = b) ↔ ¬ a.Shadows b ∧ ¬ b.Shadows a) ∧
      markedRun.ids = ["m", "m:r"] ∧ ChunksApart markedRun.final.state.frames ∧
        (ChunksApart markedRun.final.state.frames ↔
          ∀ s ∈ markedRun.streams, ∀ s' ∈ markedRun.streams, ¬ s.Clashes s') := by
  intro a b
  obtain ⟨hkeys, hruns, hdrained⟩ := chunk_keys_injective_iff a b
  exact ⟨hkeys, by decide, hruns (reaches_of_follow markedRun.follows) streamsApart_markedRun,
    hdrained markedRun ⟨by decide, rfl⟩⟩

theorem not_chunk_keys_injective :
    ¬ ∀ a b : ChunkName, a.msgId ≠ "" → b.msgId ≠ "" → a.key = b.key → a = b := by
  intro h
  have hname := h ⟨"m", .reasoning, 0⟩ ⟨"m:r", .text, 0⟩ (by decide) (by decide) (by decide)
  exact absurd (congrArg ChunkName.channel hname) nofun

end StreamDB
