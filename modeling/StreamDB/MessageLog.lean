import StreamDB.ItemCustody
import StreamDB.MessageScript
import StreamDB.Reconnection

/-!
# The log of one message

A message whose id is like no other of the run has frames of its own: its anchor and its chunks.
From the first ones a client reads a beginning of what the model has said on each channel.
-/

namespace StreamDB

open Coalescing Coroutine

/-! ## Ids that stay apart -/

/-- Chunks of messages with these ids may have one key. -/
def idsClash (id key : String) : Bool :=
  id = key || id = keyBase key .reasoning || keyBase id .reasoning = key

theorem keyBase_ne {id key : String} (h : idsClash id key = false) (c c' : ChunkChannel) :
    keyBase id c ≠ keyBase key c' := by
  simp only [idsClash, Bool.or_eq_false_iff, decide_eq_false_iff_not] at h
  obtain ⟨⟨hid, hreasoning⟩, hother⟩ := h
  cases c with
  | text =>
      cases c' with
      | text => exact hid
      | reasoning => exact hreasoning
  | reasoning =>
      cases c' with
      | text => exact hother
      | reasoning =>
          intro heq
          apply hid
          simpa [keyBase, ← String.toList_inj] using heq

theorem ne_of_not_clash {id key : String} (h : idsClash id key = false) : id ≠ key :=
  keyBase_ne h .text .text

theorem chunkId_ne {id key : String} (h : idsClash id key = false) (c c' : ChunkChannel)
    (n n' : ℕ) : chunkId id c n ≠ chunkId key c' n' :=
  fun heq => keyBase_ne h c c' (chunkId_inj heq).1

def Item.clashes (key : String) : Item → Bool
  | .message m => m.messageId.getD "" ≠ "" && idsClash (m.messageId.getD "") key
  | .userMessage msgId _ _ => msgId = key
  | _ => false

theorem picksListed_clashes (key : String) : PicksListed (Item.clashes key) where
  payload _ := rfl
  snapshot _ := rfl

/-- No fresh id of a message is like the key. -/
structure Undrawn (rt : Runtime) (key : String) : Prop where
  msg : ∀ n, idsClash ("msg_" ++ rt.uuidHex n) key = false
  submsg : ∀ n, idsClash ("submsg_" ++ rt.uuidHex n) key = false

theorem apart_of_resolves {rt : Runtime} {tag key msgId : String} {m : ModelMessage}
    (hdrawn : ∀ n, idsClash (tag ++ rt.uuidHex n) key = false)
    (hid : ResolvesTo rt tag m.messageId msgId) (hother : (Item.message m).clashes key = false) :
    idsClash msgId key = false := by
  cases hid with
  | given present => simpa [Item.clashes, present] using hother
  | fresh absent n => exact hdrawn n

/-! ## The frames of a message -/

def Frame.isMessageRow (key : String) (f : Frame) : Bool :=
  f.type = .message && f.key = key ||
    f.type = .messageChunk && (f.field "messageId").any fun v => v.isStr key

def framesOfMessage (key : String) (frames : List Frame) : List Frame :=
  frames.filter (Frame.isMessageRow key)

theorem framesOfMessage_append (key : String) (frames later : List Frame) :
    framesOfMessage key (frames ++ later) =
      framesOfMessage key frames ++ framesOfMessage key later :=
  List.filter_append _ _

theorem framesOfMessage_write {key : String} {f : Frame} (h : f.isMessageRow key) (w : World) :
    framesOfMessage key (w.write f).frames = framesOfMessage key w.frames ++ [f] := by
  rw [World.write, framesOfMessage_append]
  exact congrArg _ (List.filter_cons_of_pos h)

theorem framesOfMessage_write_other {key : String} {f : Frame} (h : ¬ f.isMessageRow key)
    (w : World) : framesOfMessage key (w.write f).frames = framesOfMessage key w.frames := by
  have hnone : framesOfMessage key [f] = [] := List.filter_cons_of_neg h
  rw [World.write, framesOfMessage_append, hnone, List.append_nil]

theorem isMessageRow_message {key msgId : String} {row : Row} {txid : Option String} :
    (upsertFrame .message msgId row txid).isMessageRow key ↔ msgId = key := by
  change (decide (msgId = key) || false) = true ↔ _
  rw [Bool.or_false, decide_eq_true_iff]

theorem isMessageRow_chunk {key threadId msgId : String} {channel : ChunkChannel} {seq : ℕ}
    {text : String} {agentId : Option String} :
    (upsertFrame .messageChunk (chunkId msgId channel seq)
      (chunkRow threadId msgId channel seq text agentId) none).isMessageRow key ↔ msgId = key := by
  rw [Frame.isMessageRow, field_upsertFrame, chunkRow_messageId]
  simp [upsertFrame, changeEvent, PyValue.isStr]

/-- The row belongs to another message, also by its key. -/
structure Frame.StrangerTo (key : String) (f : Frame) : Prop where
  row : f.isMessageRow key = false
  apart : f.type = .messageChunk → ∀ channel n, f.key ≠ chunkId key channel n

theorem framesOfMessage_of_strangers {key : String} {frames : List Frame}
    (h : ∀ f ∈ frames, f.StrangerTo key) : framesOfMessage key frames = [] :=
  List.filter_eq_nil_iff.mpr fun f hf => Bool.eq_false_iff.mp (h f hf).row

theorem framesOfMessage_surround {key : String} {before after : List Frame} (frames : List Frame)
    (hbefore : ∀ f ∈ before, f.StrangerTo key) (hafter : ∀ f ∈ after, f.StrangerTo key) :
    framesOfMessage key (before ++ frames ++ after) = framesOfMessage key frames := by
  rw [framesOfMessage_append, framesOfMessage_append, framesOfMessage_of_strangers hbefore,
    framesOfMessage_of_strangers hafter, List.nil_append, List.append_nil]

/-- Where no message is like it, nothing written is. -/
theorem stranger_of_writtenBy {E : Setting} {key : String} (hdrawn : Undrawn E.rt key)
    (hsource : ∀ name item, E.source name item → item.clashes key = false) {name : TaskName}
    {f : Frame} (h : E.WrittenBy name f) : f.StrangerTo key := by
  have hauthor : ∀ {agentId : Option String} {msgId : String},
      E.MessageAuthor name agentId msgId → idsClash msgId key = false := by
    intro agentId msgId author
    cases author with
    | top item _ id => exact apart_of_resolves hdrawn.msg id (hsource _ _ item)
    | nested item _ _ id => exact apart_of_resolves hdrawn.submsg id (hsource _ _ item)
  cases h with
  | user item =>
      refine ⟨Bool.eq_false_iff.mpr fun hrow => ?_, fun htype => by cases htype⟩
      exact of_decide_eq_false (hsource _ _ item) (isMessageRow_message.mp hrow)
  | anchor author =>
      refine ⟨Bool.eq_false_iff.mpr fun hrow => ?_, fun htype => by cases htype⟩
      exact ne_of_not_clash (hauthor author) (isMessageRow_message.mp hrow)
  | chunk author channel seq text =>
      refine ⟨Bool.eq_false_iff.mpr fun hrow => ?_, fun _ channel' n => ?_⟩
      · exact ne_of_not_clash (hauthor author) (isMessageRow_chunk.mp hrow)
      · exact chunkId_ne (hauthor author) channel channel' seq n
  | custom item row =>
      cases row with
      | _ => exact ⟨rfl, fun htype => by cases htype⟩
  | _ => exact ⟨rfl, fun htype => by cases htype⟩

/-- A task that works on no message like it writes none of its rows. -/
theorem framesOfMessage_of_advances {rt : Runtime} {threadId summaryPrefix key : String}
    {activities : List Activity} (hdrawn : Undrawn rt key) {name : TaskName} {w w' : World}
    (h : (othersOf rt threadId summaryPrefix activities (Item.clashes key)).Advances name w w') :
    framesOfMessage key w'.frames = framesOfMessage key w.frames := by
  let E := othersOf rt threadId summaryPrefix activities (Item.clashes key)
  obtain ⟨frames, hframes, hrows⟩ := h.rows
  have hsource : ∀ name item, E.source name item → item.clashes key = false :=
    fun _ _ hitem => hitem.2
  have hnone : framesOfMessage key frames = [] :=
    framesOfMessage_of_strangers fun f hf => stranger_of_writtenBy hdrawn hsource (hrows f hf)
  rw [hframes, framesOfMessage_append, hnone, List.append_nil]

section Log

variable (threadId key : String) (agentId : Option String)

def anchorFrame (ordinal order createdAt : ℤ) : Frame :=
  upsertFrame .message key (messageRow threadId key ordinal order createdAt agentId) none

def chunkFrameOf (chunk : Chunk) : Frame :=
  upsertFrame .messageChunk (chunkId key chunk.channel chunk.seq)
    (chunkRow threadId key chunk.channel chunk.seq chunk.text agentId) none

/-- The frames of a message that has sent these chunks. -/
def MessageLog (cs : List Chunk) (frames : List Frame) : Prop :=
  ∃ ordinal order createdAt, frames = anchorFrame threadId key agentId ordinal order createdAt ::
    cs.map (chunkFrameOf threadId key agentId)

inductive MessageEntry where
  | anchor
  | chunk (chunk : Chunk)

/-- The frame is the row of the entry. -/
inductive MessageEntry.ShownBy : MessageEntry → Frame → Prop
  | anchor (ordinal order createdAt : ℤ) :
      ShownBy .anchor (anchorFrame threadId key agentId ordinal order createdAt)
  | chunk (chunk : Chunk) : ShownBy (.chunk chunk) (chunkFrameOf threadId key agentId chunk)

abbrev Says : List MessageEntry → List Frame → Prop :=
  List.Forall₂ (MessageEntry.ShownBy threadId key agentId)

end Log

section Says

variable {threadId key : String} {agentId : Option String} {frames : List Frame}

theorem messageLog_of_says {cs : List Chunk}
    (h : Says threadId key agentId (.anchor :: cs.map .chunk) frames) :
    MessageLog threadId key agentId cs frames := by
  have hchunks : ∀ (cs : List Chunk) (rest : List Frame),
      Says threadId key agentId (cs.map .chunk) rest →
        rest = cs.map (chunkFrameOf threadId key agentId) := by
    intro cs
    induction cs with
    | nil =>
        rintro _ ⟨⟩
        rfl
    | cons c cs ih =>
        rintro _ (_ | ⟨⟨⟩, hrest⟩)
        rw [ih _ hrest, List.map_cons]
  cases h with
  | cons hanchor hrest =>
      cases hanchor with
      | anchor ordinal order createdAt =>
          exact ⟨ordinal, order, createdAt, by rw [hchunks cs _ hrest]⟩

/-- A message that has begun to be shown. -/
theorem exists_log_of_says {cs : List Chunk} {es : List MessageEntry}
    (hes : es <+: .anchor :: cs.map .chunk) (h : Says threadId key agentId es frames) :
    frames = [] ∨ ∃ sent, sent <+: cs ∧ MessageLog threadId key agentId sent frames := by
  rcases List.prefix_cons_iff.mp hes with rfl | ⟨rest, rfl, hrest⟩
  · cases h
    exact .inl rfl
  · obtain ⟨sent, hsent, rfl⟩ := List.prefix_map_iff.mp hrest
    exact .inr ⟨sent, hsent, messageLog_of_says h⟩

end Says

/-! ## What a client reads from it -/

theorem prefix_numbered {channel : ChunkChannel} {n : ℕ} {ps : List (List Char)} {cs : List Chunk}
    (h : cs <+: numbered channel n ps) : ∃ qs, qs <+: ps ∧ cs = numbered channel n qs := by
  induction ps generalizing n cs with
  | nil => exact ⟨[], List.prefix_rfl, List.prefix_nil.mp h⟩
  | cons p ps ih =>
      rcases List.prefix_cons_iff.mp h with rfl | ⟨rest, rfl, hrest⟩
      · exact ⟨[], List.nil_prefix, rfl⟩
      · obtain ⟨qs, hqs, rfl⟩ := ih hrest
        exact ⟨p :: qs, (List.prefix_cons_inj p).mpr hqs, rfl⟩

theorem filter_streamChunks (channel : ChunkChannel) (events : List Entries) :
    (streamChunks events).filter (fun c => c.channel = channel) =
      remaining channel .empty events := by
  have hempty : TextBuffer.empty.Flushes := Nat.zero_le _
  cases channel with
  | text => exact (filter_chunks hempty hempty).1
  | reasoning => exact (filter_chunks hempty hempty).2

/-- The pieces of one channel among the first chunks of a stream. -/
theorem filter_sent {events : List Entries} {cs : List Chunk} (h : cs <+: streamChunks events)
    (channel : ChunkChannel) : ∃ qs, qs <+: pieces (flushChars channel) []
        ((tokens channel events).map String.toList) ∧
      cs.filter (fun c => c.channel = channel) = numbered channel 0 qs := by
  have hprefix : cs.filter (fun c => c.channel = channel) <+: remaining channel .empty events := by
    rw [← filter_streamChunks]
    exact h.filter _
  exact prefix_numbered hprefix

section Reading

variable {threadId key : String} {agentId : Option String} {channel : ChunkChannel} {n : ℕ}
  {text : String}

theorem isChunkOf_own :
    isChunkOf key channel (chunkRow threadId key channel n text agentId) := by
  rw [isChunkOf, chunkRow_messageId, rowChannel_chunkRow]
  simp [PyValue.isStr]

theorem rowText_own : rowText (chunkRow threadId key channel n text agentId) "text" = text := by
  simp [rowText, chunkRow, OrderedDict.ofEntries, OrderedDict.get_setSome]

theorem rowSeq_own : rowSeq (chunkRow threadId key channel n text agentId) = n := by
  rw [rowSeq, chunkRow_seq]

variable (threadId key agentId channel) in
def pieceRows (qs : List (List Char)) : List Row :=
  qs.mapIdx fun i q => chunkRow threadId key channel i (String.ofList q) agentId

variable {cs : List Chunk} {qs : List (List Char)} {frames : List Frame}

variable (threadId key agentId cs frames) in
/-- Of all frames, those with chunks of the message are the given ones, under keys of their own. -/
structure Sends : Prop where
  sent : ∀ f ∈ framesOfMessage key frames, f.type = .messageChunk →
    ∃ c ∈ cs, f = chunkFrameOf threadId key agentId c
  written : ∀ c ∈ cs, chunkFrameOf threadId key agentId c ∈ frames
  apart : ∀ f ∈ frames, f.type = .messageChunk → f.isMessageRow key = false →
    ∀ channel n, f.key ≠ chunkId key channel n

theorem chunk_iff (hcs : cs.filter (fun c => c.channel = channel) = numbered channel 0 qs) :
    ⟨channel, n, text⟩ ∈ cs ↔ ∃ q, qs[n]? = some q ∧ text = String.ofList q := by
  have hmem : ⟨channel, n, text⟩ ∈ cs ↔
      ⟨channel, n, text⟩ ∈ cs.filter fun c => c.channel = channel := by
    simp [List.mem_filter]
  rw [hmem, hcs, mem_numbered]
  constructor
  · rintro ⟨i, q, hq, heq⟩
    rw [Chunk.mk.injEq] at heq
    obtain ⟨-, rfl, rfl⟩ := heq
    rw [Nat.zero_add]
    exact ⟨q, hq, rfl⟩
  · rintro ⟨q, hq, rfl⟩
    exact ⟨n, q, hq, by rw [Nat.zero_add]⟩

/-- A write under a chunk key of the message is one of its chunks. -/
theorem Sends.chunk_of_key (h : Sends threadId key agentId cs frames) {f : Frame} (hf : f ∈ frames)
    (htype : f.type = .messageChunk) (hkey : f.key = chunkId key channel n) :
    ∃ text, ⟨channel, n, text⟩ ∈ cs ∧
      f = chunkFrameOf threadId key agentId ⟨channel, n, text⟩ := by
  have hrow : f.isMessageRow key := by
    by_contra hrow
    exact h.apart f hf htype (Bool.eq_false_iff.mpr hrow) channel n hkey
  obtain ⟨⟨channel', n', text⟩, hc, rfl⟩ := h.sent f (List.mem_filter.mpr ⟨hf, hrow⟩) htype
  obtain ⟨hbase, rfl⟩ := chunkId_inj hkey
  obtain rfl := keyBase_inj hbase
  exact ⟨text, hc, rfl⟩

theorem Sends.get_chunk (h : Sends threadId key agentId cs frames)
    (hcs : cs.filter (fun c => c.channel = channel) = numbered channel 0 qs) (n : ℕ) :
    (collection .messageChunk frames).get (chunkId key channel n) =
      (pieceRows threadId key agentId channel qs)[n]? := by
  have hwrite : ∀ write ∈ (frames.filter fun f => f.type = .messageChunk).map Frame.change,
      write.1 = chunkId key channel n → ∃ q, qs[n]? = some q ∧
        write.2 = some (chunkRow threadId key channel n (String.ofList q) agentId) := by
    intro write hwrite hkey
    obtain ⟨f, hf, rfl⟩ := List.mem_map.mp hwrite
    obtain ⟨hf, htype⟩ := List.mem_filter.mp hf
    obtain ⟨text, hc, rfl⟩ := h.chunk_of_key hf (of_decide_eq_true htype) hkey
    obtain ⟨q, hq, rfl⟩ := (chunk_iff hcs).mp hc
    exact ⟨q, hq, rfl⟩
  rw [collection, pieceRows, List.getElem?_mapIdx]
  cases hq : qs[n]? with
  | none =>
      apply LastWriter.get_collect_of_not_mem
      intro hmem
      obtain ⟨write, hmem, hkey⟩ := List.mem_map.mp hmem
      obtain ⟨q, hsome, _⟩ := hwrite write hmem hkey
      rw [hq] at hsome
      cases hsome
  | some q =>
      apply LastWriter.get_collect_of_unique
      · have hc : ⟨channel, n, String.ofList q⟩ ∈ cs := (chunk_iff hcs).mpr ⟨q, hq, rfl⟩
        exact List.mem_map.mpr ⟨_, List.mem_filter.mpr ⟨h.written _ hc, rfl⟩, rfl⟩
      · intro write hmem hkey
        obtain ⟨q', hq', hvalue⟩ := hwrite write hmem hkey
        rw [hq, Option.some.injEq] at hq'
        rw [hvalue, hq']

theorem texts_pieceRows (qs : List (List Char)) :
    (pieceRows threadId key agentId channel qs).map (fun row => rowText row "text") =
      qs.map String.ofList := by
  apply List.ext_getElem?
  intro i
  rw [pieceRows, List.getElem?_map, List.getElem?_mapIdx, Option.map_map, List.getElem?_map]
  congr 1
  funext q
  exact rowText_own

/-- A client joins the pieces that have been sent. -/
theorem Sends.reassembled (h : Sends threadId key agentId cs frames)
    (hcs : cs.filter (fun c => c.channel = channel) = numbered channel 0 qs) :
    reassembled frames key channel = String.join (qs.map String.ofList) := by
  have hkey : ∀ k v, (collection .messageChunk frames).get k = some v →
      isChunkOf key channel v → ∃ i < qs.length, k = chunkId key channel i := by
    intro k v hk hv
    obtain ⟨f, hf, hchange⟩ := List.mem_map.mp (LastWriter.mem_of_get_collect hk)
    obtain ⟨hf, htype⟩ := List.mem_filter.mp hf
    obtain ⟨rfl, hvalue⟩ := Prod.mk.inj hchange
    rw [isChunkOf, Bool.and_eq_true] at hv
    have hrow : f.isMessageRow key := by
      rw [Frame.isMessageRow, htype, Frame.field, hvalue, Option.bind_some, hv.1]
      exact Bool.or_true _
    obtain ⟨⟨channel', i, text⟩, hc, rfl⟩ :=
      h.sent f (List.mem_filter.mpr ⟨hf, hrow⟩) (of_decide_eq_true htype)
    have hchannel : channel' = channel := by
      rw [← Option.some.inj hvalue, rowChannel_chunkRow] at hv
      exact of_decide_eq_true hv.2
    subst hchannel
    obtain ⟨q, hq, _⟩ := (chunk_iff hcs).mp hc
    exact ⟨i, (List.getElem?_eq_some_iff.mp hq).1, rfl⟩
  have hnumber : ∀ i v, (collection .messageChunk frames).get (chunkId key channel i) = some v →
      isChunkOf key channel v → rowSeq v = i := by
    intro i v hk _
    rw [h.get_chunk hcs, pieceRows, List.getElem?_mapIdx, Option.map_eq_some_iff] at hk
    obtain ⟨q, _, rfl⟩ := hk
    exact rowSeq_own
  have hlen : (pieceRows threadId key agentId channel qs).length = qs.length :=
    List.length_mapIdx
  have hall : (pieceRows threadId key agentId channel qs).filter (isChunkOf key channel) =
      pieceRows threadId key agentId channel qs := by
    rw [List.filter_eq_self]
    intro row hrow
    obtain ⟨i, hi, rfl⟩ := List.mem_mapIdx.mp hrow
    exact isChunkOf_own
  rw [StreamDB.reassembled, LastWriter.inOrder_values hkey hnumber]
  simp only [h.get_chunk hcs]
  rw [← hlen, filterMap_range_getElem?, hall, joinTexts, texts_pieceRows]

/-- Rows of other messages do not change what has been sent. -/
theorem Sends.surround (h : Sends threadId key agentId cs frames) {before after : List Frame}
    (hbefore : ∀ f ∈ before, f.StrangerTo key) (hafter : ∀ f ∈ after, f.StrangerTo key) :
    Sends threadId key agentId cs (before ++ frames ++ after) where
  sent f hf := by
    rw [framesOfMessage_surround frames hbefore hafter] at hf
    exact h.sent f hf
  written c hc := List.mem_append_left _ (List.mem_append_right _ (h.written c hc))
  apart f hf htype hrow := by
    simp only [List.mem_append] at hf
    rcases hf with (hf | hf) | hf
    · exact (hbefore f hf).apart htype
    · exact h.apart f hf htype hrow
    · exact (hafter f hf).apart htype

/-- A client joins a whole stream to its text. -/
theorem Sends.reassembled_stream {events : List Entries}
    (h : Sends threadId key agentId (streamChunks events) frames) (channel : ChunkChannel) :
    StreamDB.reassembled frames key channel = streamText channel events := by
  rw [h.reassembled (filter_streamChunks _ _), ← join_streamPieces]
  rfl

end Reading

end StreamDB
