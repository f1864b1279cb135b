import StreamDB.Coalescing
import StreamDB.MessageDrain

/-!
# Chunk rows

What one stream of a message puts on its two channels, and what a client reads back from the chunks
a store holds: those of one channel of a message, joined in the order of their numbers. Streams
whose chunks share their keys are laid over one another.
-/

namespace StreamDB

open Coalescing

/-! ## The chunks of a stream -/

def flushChars : ChunkChannel → ℕ
  | .text => chunkFlushChars
  | .reasoning => reasoningFlushChars

def Delta.tokenOf (channel : ChunkChannel) : Delta → Option String
  | .token c text => if c = channel then some text else none
  | _ => none

/-- What a stream delivers on a channel. -/
def tokens (channel : ChunkChannel) (events : List Entries) : List String :=
  events.filterMap fun event => (readDelta event).tokenOf channel

theorem tokens_skip {channel : ChunkChannel} {event : Entries}
    (h : (readDelta event).tokenOf channel = none) (events : List Entries) :
    tokens channel (event :: events) = tokens channel events :=
  List.filterMap_cons_none (f := fun event => (readDelta event).tokenOf channel) h

theorem tokens_token {channel : ChunkChannel} {event : Entries} {token : String}
    (h : (readDelta event).tokenOf channel = some token) (events : List Entries) :
    tokens channel (event :: events) = token :: tokens channel events :=
  List.filterMap_cons_some (f := fun event => (readDelta event).tokenOf channel) h

def streamPieces (channel : ChunkChannel) (events : List Entries) : List String :=
  (pieces (flushChars channel) [] ((tokens channel events).map String.toList)).map String.ofList

/-- All of it. -/
def streamText (channel : ChunkChannel) (events : List Entries) : String :=
  String.join (tokens channel events)

theorem tokenOf_deltaToken_iff {channel c : ChunkChannel} {value : PyValue} {token : String} :
    (deltaToken c value).tokenOf channel = some token ↔
      c = channel ∧ value = .str token ∧ token ≠ "" := by
  cases value with
  | str s =>
      rw [deltaToken]
      split_ifs with hs
      · simp [Delta.tokenOf, hs, eq_comm]
      · rw [Delta.tokenOf]
        split_ifs with hc
        · simp only [Option.some.injEq, PyValue.str.injEq, hc, true_and]
          exact ⟨fun h => ⟨h, h ▸ hs⟩, fun h => h.1⟩
        · simp [hc]
  | _ =>
      simp only [deltaToken, reduceCtorEq, false_and, and_false, iff_false]
      split_ifs
      · nofun
      · nofun

def deltaType : ChunkChannel → String
  | .text => "text-delta"
  | .reasoning => "reasoning-delta"

def deltaField : ChunkChannel → String
  | .text => "text"
  | .reasoning => "reasoning"

/-- The tokens of a channel are the non-empty strings in its field of the deltas of its type; no
other event carries one. -/
theorem tokenOf_readDelta_iff {channel : ChunkChannel} {event : Entries} {token : String} :
    (readDelta event).tokenOf channel = some token ↔
      event.get "event" = .str "content-block-delta" ∧ ∃ delta, event.get "delta" = .dict delta ∧
        Entries.get delta "type" = .str (deltaType channel) ∧
        Entries.get delta (deltaField channel) = .str token ∧ token ≠ "" := by
  have hget : ∀ (delta : Entries) (key : String),
      (Entries.getD delta key (.str "") = .str token ∧ token ≠ "") ↔
        (Entries.get delta key = .str token ∧ token ≠ "") := by
    intro delta key
    rw [Entries.getD, Entries.get]
    cases OrderedDict.lookupEntries key delta with
    | none => simp [eq_comm]
    | some value => rfl
  rw [readDelta]
  split_ifs with hevent
  · rw [PyValue.isStr_iff] at hevent
    cases hdelta : event.get "delta" with
    | dict delta =>
        simp only [hevent, true_and, PyValue.dict.injEq, exists_eq_left', ← hget]
        split_ifs with hreasoning htext
        · rw [PyValue.isStr_iff] at hreasoning
          rw [tokenOf_deltaToken_iff, hreasoning]
          cases channel with
          | reasoning => simp [deltaType, deltaField]
          | text => simp [deltaType]
        · rw [PyValue.isStr_iff] at htext
          rw [tokenOf_deltaToken_iff, htext]
          cases channel with
          | reasoning => simp [deltaType]
          | text => simp [deltaType, deltaField]
        · rw [PyValue.isStr_iff] at hreasoning htext
          cases channel with
          | reasoning => simp [Delta.tokenOf, deltaType, hreasoning]
          | text => simp [Delta.tokenOf, deltaType, htext]
    | _ => simp [Delta.tokenOf]
  · rw [PyValue.isStr_iff] at hevent
    simp [Delta.tokenOf, hevent]

theorem tokens_ne_empty {channel : ChunkChannel} {events : List Entries} :
    ∀ token ∈ tokens channel events, token ≠ "" := by
  intro token htoken
  obtain ⟨event, _, hevent⟩ := List.mem_filterMap.mp htoken
  obtain ⟨_, _, _, _, _, hne⟩ := tokenOf_readDelta_iff.mp hevent
  exact hne

theorem flushChars_pos (channel : ChunkChannel) : 0 < flushChars channel := by
  cases channel with
  | text => decide
  | reasoning => decide

theorem join_streamPieces (channel : ChunkChannel) (events : List Entries) :
    String.join (streamPieces channel events) = streamText channel events := by
  rw [← String.toList_inj, streamText, String.toList_join, String.toList_join, streamPieces,
    List.flatMap_map]
  simp only [String.toList_ofList]
  rw [List.flatMap_id', flatten_pieces, List.nil_append, List.flatMap_def]

theorem ne_empty_of_mem_streamPieces {channel : ChunkChannel} {events : List Entries} :
    ∀ piece ∈ streamPieces channel events, piece ≠ "" := by
  intro piece hpiece
  obtain ⟨chars, hchars, rfl⟩ := List.mem_map.mp hpiece
  have hne := ne_nil_of_mem_pieces (flushChars_pos channel) _ _ chars hchars
  rw [ne_eq, ← String.toList_inj, String.toList_ofList]
  exact hne

theorem join_eq_empty {texts : List String} (h : ∀ text ∈ texts, text ≠ "") :
    String.join texts = "" ↔ texts = [] := by
  cases texts with
  | nil => simp
  | cons text texts =>
      have hne := h text List.mem_cons_self
      simp [String.join_cons, hne]

theorem streamPieces_eq_nil {channel : ChunkChannel} {events : List Entries} :
    streamPieces channel events = [] ↔ streamText channel events = "" := by
  rw [← join_streamPieces, join_eq_empty ne_empty_of_mem_streamPieces]

structure Chunk where
  channel : ChunkChannel
  seq : ℕ
  text : String

def TextBuffer.chunk (b : TextBuffer) (channel : ChunkChannel) : Chunk :=
  ⟨channel, b.seq, b.pending⟩

def TextBuffer.tail (b : TextBuffer) (channel : ChunkChannel) : List Chunk :=
  if b.length > b.flushed then [b.chunk channel] else []

/-- What the loop of `_stream_message_text` emits for the remaining events. -/
def chunks : List Entries → TextBuffer → TextBuffer → List Chunk
  | [], text, reasoning => reasoning.tail .reasoning ++ text.tail .text
  | event :: events, text, reasoning =>
      match readDelta event with
      | .token .reasoning token =>
          let reasoning := reasoning.append token
          if reasoning.length - reasoning.flushed ≥ reasoningFlushChars then
            reasoning.chunk .reasoning :: chunks events text reasoning.flush
          else chunks events text reasoning
      | .token .text token =>
          let text := text.append token
          if text.length - text.flushed ≥ chunkFlushChars then
            text.chunk .text :: chunks events text.flush reasoning
          else chunks events text reasoning
      | _ => chunks events text reasoning

namespace TextBuffer

def pendingChars (b : TextBuffer) : List Char := b.text.toList.drop b.flushed

/-- No more is flushed than was received. -/
def Flushes (b : TextBuffer) : Prop := b.flushed ≤ b.length

variable {b : TextBuffer}

theorem length_append (token : String) :
    (b.append token).length = b.length + token.toList.length := by
  rw [length, append, String.toList_append, List.length_append]
  rfl

theorem Flushes.append (h : b.Flushes) (token : String) : (b.append token).Flushes := by
  have hlen := b.length_append token
  change b.flushed ≤ b.length at h
  change b.flushed ≤ (b.append token).length
  omega

theorem flushes_flush : b.flush.Flushes := Nat.le_refl _

theorem pendingChars_append (h : b.Flushes) (token : String) :
    (b.append token).pendingChars = b.pendingChars ++ token.toList := by
  change (b.text ++ token).toList.drop b.flushed = _
  rw [String.toList_append, List.drop_append_of_le_length h]
  rfl

theorem pendingChars_flush : b.flush.pendingChars = [] := List.drop_length

theorem length_pendingChars : b.pendingChars.length = b.length - b.flushed := List.length_drop

end TextBuffer

/-- Pieces under successive numbers. -/
def numbered (channel : ChunkChannel) : ℕ → List (List Char) → List Chunk
  | _, [] => []
  | n, piece :: rest => ⟨channel, n, String.ofList piece⟩ :: numbered channel (n + 1) rest

theorem mem_numbered {channel : ChunkChannel} {n : ℕ} {ps : List (List Char)} {chunk : Chunk} :
    chunk ∈ numbered channel n ps ↔
      ∃ i piece, ps[i]? = some piece ∧ chunk = ⟨channel, n + i, String.ofList piece⟩ := by
  induction ps generalizing n with
  | nil => simp [numbered]
  | cons p ps ih =>
      rw [numbered, List.mem_cons, ih]
      constructor
      · rintro (rfl | ⟨i, piece, hi, rfl⟩)
        · exact ⟨0, p, rfl, rfl⟩
        · exact ⟨i + 1, piece, hi, by rw [Nat.add_assoc, Nat.add_comm 1 i]⟩
      · rintro ⟨i, piece, hi, rfl⟩
        cases i with
        | zero =>
            cases hi
            exact .inl rfl
        | succ i => exact .inr ⟨i, piece, hi, by rw [Nat.add_assoc, Nat.add_comm 1 i]⟩

/-- The pieces a channel still has to emit. -/
def remaining (channel : ChunkChannel) (b : TextBuffer) (events : List Entries) : List Chunk :=
  numbered channel b.seq
    (pieces (flushChars channel) b.pendingChars ((tokens channel events).map String.toList))

theorem remaining_nil (channel : ChunkChannel) (b : TextBuffer) :
    remaining channel b [] = b.tail channel := by
  have hlen := b.length_pendingChars
  change numbered channel b.seq (if b.pendingChars.isEmpty then [] else [b.pendingChars]) = _
  rw [TextBuffer.tail]
  split_ifs with hnil hlt hlt
  · rw [List.isEmpty_iff.mp hnil, List.length_nil] at hlen
    omega
  · rfl
  · rfl
  · rw [List.isEmpty_iff, ← List.length_eq_zero_iff] at hnil
    omega

theorem remaining_skip {channel : ChunkChannel} {event : Entries}
    (h : (readDelta event).tokenOf channel = none) (b : TextBuffer) (events : List Entries) :
    remaining channel b (event :: events) = remaining channel b events := by
  rw [remaining, tokens_skip h, remaining]

theorem remaining_token {channel : ChunkChannel} {event : Entries} {token : String}
    (h : (readDelta event).tokenOf channel = some token) {b : TextBuffer} (hb : b.Flushes)
    (events : List Entries) :
    remaining channel b (event :: events) =
      if (b.append token).length - (b.append token).flushed ≥ flushChars channel then
        (b.append token).chunk channel :: remaining channel (b.append token).flush events
      else remaining channel (b.append token) events := by
  rw [remaining, tokens_token h, List.map_cons, pieces, ← TextBuffer.pendingChars_append hb,
    TextBuffer.length_pendingChars]
  split_ifs with hlen
  · rw [numbered, remaining, TextBuffer.pendingChars_flush]
    rfl
  · rfl

theorem filter_tail (b : TextBuffer) (channel channel' : ChunkChannel) :
    (b.tail channel).filter (fun c => c.channel = channel') =
      if channel = channel' then b.tail channel else [] := by
  rw [TextBuffer.tail]
  split_ifs with hlt hc hc
  · exact List.filter_cons_of_pos (decide_eq_true hc)
  · exact List.filter_cons_of_neg fun h => hc (of_decide_eq_true h)
  · rfl
  · rfl

/-- Each channel emits its own pieces, whatever comes on the other. -/
theorem filter_chunks {events : List Entries} {text reasoning : TextBuffer} (ht : text.Flushes)
    (hr : reasoning.Flushes) :
    (chunks events text reasoning).filter (fun c => c.channel = .text) =
        remaining .text text events ∧
      (chunks events text reasoning).filter (fun c => c.channel = .reasoning) =
        remaining .reasoning reasoning events := by
  induction events generalizing text reasoning with
  | nil =>
      simp only [chunks, List.filter_append, filter_tail, remaining_nil, reduceCtorEq, if_true,
        if_false, List.append_nil, List.nil_append, and_self]
  | cons event events ih =>
      cases hd : readDelta event with
      | ignored =>
          simp only [chunks, hd]
          rw [remaining_skip (by rw [hd]; rfl), remaining_skip (by rw [hd]; rfl)]
          exact ih ht hr
      | invalid =>
          simp only [chunks, hd]
          rw [remaining_skip (by rw [hd]; rfl), remaining_skip (by rw [hd]; rfl)]
          exact ih ht hr
      | token channel token =>
          cases channel with
          | text =>
              have hskip : (readDelta event).tokenOf .reasoning = none := by rw [hd]; rfl
              have htoken : (readDelta event).tokenOf .text = some token := by rw [hd]; rfl
              rw [remaining_skip hskip, remaining_token htoken ht]
              simp only [chunks, hd]
              change _ = (if _ ≥ chunkFlushChars then _ else _) ∧ _
              by_cases hlen : (text.append token).length - (text.append token).flushed ≥
                  chunkFlushChars
              · obtain ⟨htext, hreason⟩ := ih TextBuffer.flushes_flush hr
                rw [if_pos hlen, if_pos hlen, List.filter_cons_of_pos rfl, htext]
                exact ⟨rfl, hreason⟩
              · rw [if_neg hlen, if_neg hlen]
                exact ih (ht.append token) hr
          | reasoning =>
              have hskip : (readDelta event).tokenOf .text = none := by rw [hd]; rfl
              have htoken : (readDelta event).tokenOf .reasoning = some token := by rw [hd]; rfl
              rw [remaining_skip hskip, remaining_token htoken hr]
              simp only [chunks, hd]
              change _ ∧ _ = if _ ≥ reasoningFlushChars then _ else _
              by_cases hlen : (reasoning.append token).length - (reasoning.append token).flushed ≥
                  reasoningFlushChars
              · obtain ⟨htext, hreason⟩ := ih ht TextBuffer.flushes_flush
                rw [if_pos hlen, if_pos hlen]
                refine ⟨htext, ?_⟩
                rw [List.filter_cons_of_pos rfl, hreason]
              · rw [if_neg hlen, if_neg hlen]
                exact ih ht (hr.append token)

def streamChunks (events : List Entries) : List Chunk := chunks events .empty .empty

theorem mem_streamChunks {events : List Entries} {chunk : Chunk} :
    chunk ∈ streamChunks events ↔
      (streamPieces chunk.channel events)[chunk.seq]? = some chunk.text := by
  obtain ⟨channel, seq, text⟩ := chunk
  have hempty : TextBuffer.empty.Flushes := Nat.zero_le _
  obtain ⟨htext, hreason⟩ : (chunks events .empty .empty).filter (fun c => c.channel = .text) =
      remaining .text .empty events ∧
    (chunks events .empty .empty).filter (fun c => c.channel = .reasoning) =
      remaining .reasoning .empty events := filter_chunks hempty hempty
  have hown : (streamChunks events).filter (fun c => c.channel = channel) =
      remaining channel .empty events := by
    cases channel with
    | text => exact htext
    | reasoning => exact hreason
  have hmem : ⟨channel, seq, text⟩ ∈ streamChunks events ↔
      ⟨channel, seq, text⟩ ∈ remaining channel .empty events := by
    rw [← hown, List.mem_filter]
    simp
  rw [hmem, remaining, mem_numbered, streamPieces, List.getElem?_map, Option.map_eq_some_iff]
  constructor
  · rintro ⟨i, piece, hi, he⟩
    rw [Chunk.mk.injEq] at he
    obtain ⟨-, rfl, rfl⟩ := he
    exact ⟨piece, by rw [TextBuffer.empty, Nat.zero_add]; exact hi, rfl⟩
  · rintro ⟨piece, hi, rfl⟩
    exact ⟨seq, piece, hi, by rw [TextBuffer.empty, Nat.zero_add]⟩

/-! ## Keys -/

/-- What the keys of a channel's chunks have in common. -/
def keyBase (msgId : String) : ChunkChannel → String
  | .text => msgId
  | .reasoning => msgId ++ ":r"

theorem chunkId_eq (msgId : String) (channel : ChunkChannel) (seq : ℕ) :
    chunkId msgId channel seq = keyBase msgId channel ++ ":" ++ toString seq := by
  cases channel with
  | text => rfl
  | reasoning =>
      have hcolons : (":r:" : String) = ":r" ++ ":" := rfl
      rw [chunkId, keyBase, hcolons, ← String.append_assoc]

theorem chunkId_inj {msgId msgId' : String} {c c' : ChunkChannel} {m n : ℕ}
    (h : chunkId msgId c m = chunkId msgId' c' n) :
    keyBase msgId c = keyBase msgId' c' ∧ m = n := by
  rw [chunkId_eq, chunkId_eq] at h
  exact numbered_inj h

/-- The two channels of one message never share a key. -/
theorem keyBase_inj {msgId : String} {c c' : ChunkChannel}
    (h : keyBase msgId c = keyBase msgId c') : c = c' := by
  have hne : msgId ≠ msgId ++ ":r" := by
    intro h
    have hlen := congrArg String.length h
    rw [String.length_append] at hlen
    change _ = _ + 2 at hlen
    omega
  cases c with
  | text =>
      cases c' with
      | text => rfl
      | reasoning => exact absurd h hne
  | reasoning =>
      cases c' with
      | text => exact absurd h.symm hne
      | reasoning => rfl

/-! ## Streams over one another -/

structure MessageStream where
  msgId : String
  events : List Entries

def chunkFrame (threadId msgId : String) (chunk : Chunk) : Frame :=
  upsertFrame .messageChunk (chunkId msgId chunk.channel chunk.seq)
    (chunkRow threadId msgId chunk.channel chunk.seq chunk.text none) none

namespace MessageStream

variable (threadId base : String) (s : MessageStream)

def frames : List Frame := (streamChunks s.events).map (chunkFrame threadId s.msgId)

/-- The channel whose chunks go under the keys `base:0`, `base:1` and so on. -/
def channelUnder : Option ChunkChannel :=
  if s.msgId = base then some .text
  else if s.msgId ++ ":r" = base then some .reasoning
  else none

def rowsUnder : List Row :=
  match s.channelUnder base with
  | some channel =>
      (streamPieces channel s.events).mapIdx fun i piece =>
        chunkRow threadId s.msgId channel i piece none
  | none => []

variable {threadId base s}

theorem channelUnder_eq_some {channel : ChunkChannel} :
    s.channelUnder base = some channel ↔ keyBase s.msgId channel = base := by
  have hiff : ∀ c, s.channelUnder base = some c → keyBase s.msgId c = base := by
    intro c hc
    rw [channelUnder] at hc
    split_ifs at hc with ht hr
    · cases hc
      exact ht
    · cases hc
      exact hr
  constructor
  · exact hiff channel
  · intro h
    cases hc : s.channelUnder base with
    | some c => rw [keyBase_inj (h.trans (hiff c hc).symm)]
    | none =>
        rw [channelUnder] at hc
        split_ifs at hc with ht hr
        cases channel with
        | text => exact absurd h ht
        | reasoning => exact absurd h hr

theorem getElem?_rowsUnder {n : ℕ} {row : Row} :
    (s.rowsUnder threadId base)[n]? = some row ↔
      ∃ channel piece, keyBase s.msgId channel = base ∧
        (streamPieces channel s.events)[n]? = some piece ∧
        row = chunkRow threadId s.msgId channel n piece none := by
  cases hc : s.channelUnder base with
  | none =>
      simp only [rowsUnder, hc, List.getElem?_nil, reduceCtorEq, false_iff]
      rintro ⟨channel, _, hbase, _⟩
      rw [channelUnder_eq_some.mpr hbase] at hc
      cases hc
  | some channel =>
      simp only [rowsUnder, hc, List.getElem?_mapIdx, Option.map_eq_some_iff]
      constructor
      · rintro ⟨piece, hpiece, rfl⟩
        exact ⟨channel, piece, channelUnder_eq_some.mp hc, hpiece, rfl⟩
      · rintro ⟨channel', piece, hbase, hpiece, rfl⟩
        rw [channelUnder_eq_some.mpr hbase] at hc
        cases hc
        exact ⟨piece, hpiece, rfl⟩

/-- A stream sets its own keys only, each to one row. -/
theorem get_collect_frames (n : ℕ) :
    (LastWriter.collect ((s.frames threadId).map Frame.change)).get (base ++ ":" ++ toString n) =
      (s.rowsUnder threadId base)[n]? := by
  have hkey : ∀ write ∈ (s.frames threadId).map Frame.change, write.1 = base ++ ":" ++ toString n →
      ∃ row, (s.rowsUnder threadId base)[n]? = some row ∧ write.2 = some row := by
    intro write hwrite hk
    simp only [frames, List.map_map, List.mem_map] at hwrite
    obtain ⟨⟨channel, seq, text⟩, hchunk, rfl⟩ := hwrite
    change chunkId s.msgId channel seq = _ at hk
    rw [chunkId_eq] at hk
    obtain ⟨hbase, rfl⟩ := numbered_inj hk
    exact ⟨_, getElem?_rowsUnder.mpr ⟨channel, text, hbase, mem_streamChunks.mp hchunk, rfl⟩, rfl⟩
  cases hrow : (s.rowsUnder threadId base)[n]? with
  | none =>
      apply LastWriter.get_collect_of_not_mem
      intro hmem
      obtain ⟨write, hwrite, hk⟩ := List.mem_map.mp hmem
      obtain ⟨row, hsome, _⟩ := hkey write hwrite hk
      rw [hrow] at hsome
      cases hsome
  | some row =>
      apply LastWriter.get_collect_of_unique
      · obtain ⟨channel, piece, rfl, hpiece, rfl⟩ := getElem?_rowsUnder.mp hrow
        rw [← chunkId_eq]
        exact List.mem_map.mpr ⟨_, List.mem_map.mpr ⟨⟨channel, n, piece⟩,
          mem_streamChunks.mpr hpiece, rfl⟩, rfl⟩
      · intro write hwrite hk
        obtain ⟨row', hrow', hv⟩ := hkey write hwrite hk
        rw [hrow] at hrow'
        rw [hv, ← hrow']

end MessageStream

def streamLog (threadId : String) (streams : List MessageStream) : List Frame :=
  streams.flatMap (MessageStream.frames threadId)

/-- The rows under the keys `base:0`, `base:1` and so on. -/
def heldUnder (threadId base : String) (streams : List MessageStream) : List Row :=
  overlays (streams.map (MessageStream.rowsUnder threadId base))

theorem collection_streamLog (threadId : String) (streams : List MessageStream) :
    collection .messageChunk (streamLog threadId streams) =
      LastWriter.collect ((streamLog threadId streams).map Frame.change) := by
  rw [collection, List.filter_eq_self.mpr]
  intro f hf
  simp only [streamLog, MessageStream.frames, List.mem_flatMap, List.mem_map] at hf
  obtain ⟨_, _, _, _, rfl⟩ := hf
  rfl

theorem get_collection_streamLog (threadId base : String) (streams : List MessageStream) (n : ℕ) :
    (collection .messageChunk (streamLog threadId streams)).get (base ++ ":" ++ toString n) =
      (heldUnder threadId base streams)[n]? := by
  rw [collection_streamLog]
  induction streams using List.reverseRecOn with
  | nil => rfl
  | append_singleton streams s ih =>
      have hsets : ∀ write ∈ (s.frames threadId).map Frame.change, write.2.isSome := by
        intro write hwrite
        simp only [MessageStream.frames, List.map_map, List.mem_map] at hwrite
        obtain ⟨_, _, rfl⟩ := hwrite
        rfl
      rw [streamLog, List.flatMap_append, List.flatMap_singleton, List.map_append,
        LastWriter.get_collect_append _ _ _ hsets, MessageStream.get_collect_frames]
      change _ = (overlays ((streams ++ [s]).map _))[n]?
      rw [List.map_append, List.map_singleton, overlays_concat, getElem?_overlay]
      exact congrArg _ ih

/-! ## What a client reads back -/

def rowChannel (row : Row) : ChunkChannel :=
  if (row.get "channel").any fun v => v.isStr "reasoning" then .reasoning else .text

def isChunkOf (msgId : String) (channel : ChunkChannel) (row : Row) : Bool :=
  (row.get "messageId").any (fun v => v.isStr msgId) && rowChannel row = channel

def rowSeq (row : Row) : ℤ :=
  match row.get "seq" with
  | some (.int n) => n
  | _ => 0

def joinTexts (rows : List Row) : String := String.join (rows.map fun row => rowText row "text")

/-- The chunks of a message on one channel, in the order of their numbers. -/
def reassembled (frames : List Frame) (msgId : String) (channel : ChunkChannel) : String :=
  joinTexts (LastWriter.inOrder rowSeq
    ((collection .messageChunk frames).values.filter (isChunkOf msgId channel)))

section ChunkRow

variable (threadId msgId : String) (channel : ChunkChannel) (n : ℕ) (text : String)

theorem rowSeq_chunkRow : rowSeq (chunkRow threadId msgId channel n text none) = n := by
  cases channel with
  | text => rfl
  | reasoning => rfl

theorem rowText_chunkRow : rowText (chunkRow threadId msgId channel n text none) "text" = text := by
  cases channel with
  | text => rfl
  | reasoning => rfl

variable {threadId msgId channel n text}

theorem isChunkOf_chunkRow {msgId' : String} {channel' : ChunkChannel} :
    isChunkOf msgId' channel' (chunkRow threadId msgId channel n text none) ↔
      msgId = msgId' ∧ channel = channel' := by
  have hchannel : rowChannel (chunkRow threadId msgId channel n text none) = channel := by
    cases channel with
    | text => rfl
    | reasoning => rfl
  simp [isChunkOf, chunkRow_messageId, hchannel, PyValue.isStr]

end ChunkRow

/-- Where a chunk row of a log comes from. -/
theorem mem_streamLog {threadId k : String} {row : Row} {streams : List MessageStream}
    (h : (k, some row) ∈ (streamLog threadId streams).map Frame.change) :
    ∃ s ∈ streams, ∃ channel n text, k = chunkId s.msgId channel n ∧
      row = chunkRow threadId s.msgId channel n text none := by
  simp only [streamLog, MessageStream.frames, List.mem_map, List.mem_flatMap] at h
  obtain ⟨_, ⟨s, hs, chunk, _, rfl⟩, hchange⟩ := h
  cases hchange
  exact ⟨s, hs, chunk.channel, chunk.seq, chunk.text, rfl, rfl⟩

theorem filterMap_range_getElem? {α : Type} (l : List α) (p : α → Bool) :
    (List.range l.length).filterMap (fun i => (l[i]?).filter p) = l.filter p := by
  induction l using List.reverseRecOn with
  | nil => rfl
  | append_singleton l a ih =>
      have hinit : (List.range l.length).filterMap (fun i => ((l ++ [a])[i]?).filter p) =
          l.filter p := by
        rw [← ih]
        apply List.filterMap_congr
        intro i hi
        rw [List.getElem?_append_left (List.mem_range.mp hi)]
      rw [List.length_append, List.length_singleton, List.range_succ, List.filterMap_append, hinit,
        List.filter_append]
      cases hp : p a with
      | true => simp [Option.filter, hp]
      | false => simp [hp]

variable {threadId : String} {streams : List MessageStream} {frames : List Frame}

/-- A client reads what is left of the streams under the keys of the channel. -/
theorem reassembled_eq
    (hframes : collection .messageChunk frames =
      collection .messageChunk (streamLog threadId streams))
    (msgId : String) (channel : ChunkChannel) :
    reassembled frames msgId channel =
      joinTexts ((heldUnder threadId (keyBase msgId channel) streams).filter
        (isChunkOf msgId channel)) := by
  let held := heldUnder threadId (keyBase msgId channel) streams
  have hget : ∀ i, (collection .messageChunk (streamLog threadId streams)).get
      (chunkId msgId channel i) = held[i]? := by
    intro i
    rw [chunkId_eq]
    exact get_collection_streamLog threadId (keyBase msgId channel) streams i
  have hsource : ∀ k row, (collection .messageChunk (streamLog threadId streams)).get k = some row →
      isChunkOf msgId channel row → ∃ n text, k = chunkId msgId channel n ∧
        row = chunkRow threadId msgId channel n text none := by
    intro k row hk hrow
    rw [collection_streamLog] at hk
    obtain ⟨s, _, c, n, text, rfl, rfl⟩ := mem_streamLog (LastWriter.mem_of_get_collect hk)
    obtain ⟨rfl, rfl⟩ := isChunkOf_chunkRow.mp hrow
    exact ⟨n, text, rfl, rfl⟩
  have hkey : ∀ k row, (collection .messageChunk (streamLog threadId streams)).get k = some row →
      isChunkOf msgId channel row → ∃ i < held.length, k = chunkId msgId channel i := by
    intro k row hk hrow
    obtain ⟨n, text, rfl, rfl⟩ := hsource k row hk hrow
    rw [hget] at hk
    exact ⟨n, (List.getElem?_eq_some_iff.mp hk).1, rfl⟩
  have hnumber : ∀ i row, (collection .messageChunk (streamLog threadId streams)).get
      (chunkId msgId channel i) = some row → isChunkOf msgId channel row → rowSeq row = i := by
    intro i row hk hrow
    obtain ⟨n, text, hkey, rfl⟩ := hsource _ row hk hrow
    rw [(chunkId_inj hkey).2]
    exact rowSeq_chunkRow _ _ _ _ _
  rw [reassembled, hframes, LastWriter.inOrder_values hkey hnumber]
  simp only [hget]
  rw [filterMap_range_getElem?]

end StreamDB
