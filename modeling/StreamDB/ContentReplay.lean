import StreamDB.ReplayStore
import StreamDB.Salvage

/-!
# Streamed and replayed content

An assistant message is streamed as chunk rows and replayed as one row. Where the stream delivers
the blocks of the content, a client reads the same text and the same reasoning from both.
-/

namespace StreamDB

open Coroutine Coalescing

/-! ## Blocks of a content -/

/-- A block that stands for the given characters of a channel. -/
inductive IsBlock : ChunkChannel × String → PyValue → Prop
  | plain (s : String) : IsBlock (.text, s) (.str s)
  | text {entries : Entries} {s : String} (type : entries.get "type" = .str "text")
      (value : OrderedDict.lookupEntries "text" entries = some (.str s)) :
      IsBlock (.text, s) (.dict entries)
  | reasoning {entries : Entries} {kind s : String} (kinds : kind = "thinking" ∨ kind = "reasoning")
      (type : entries.get "type" = .str kind)
      (value : OrderedDict.lookupEntries kind entries = some (.str s))
      (bare : OrderedDict.lookupEntries "text" entries = none) :
      IsBlock (.reasoning, s) (.dict entries)

def blocksOf (channel : ChunkChannel) (blocks : List (ChunkChannel × String)) : List String :=
  (blocks.filter fun b => b.1 = channel).map Prod.snd

theorem blocksOf_cons_self (channel : ChunkChannel) (s : String)
    (blocks : List (ChunkChannel × String)) :
    blocksOf channel ((channel, s) :: blocks) = s :: blocksOf channel blocks := by
  simp [blocksOf]

theorem blocksOf_cons_of_ne {channel channel' : ChunkChannel} (h : channel' ≠ channel) (s : String)
    (blocks : List (ChunkChannel × String)) :
    blocksOf channel ((channel', s) :: blocks) = blocksOf channel blocks := by
  simp [blocksOf, h]

section Content

variable {blocks : List (ChunkChannel × String)} {values : List PyValue}

theorem contentText_of_blocks (rt : Runtime) (h : List.Forall₂ IsBlock blocks values) :
    contentText rt (.list values) = String.join (blocksOf .text blocks) := by
  induction h with
  | nil => rfl
  | cons hblock _ ih =>
      rw [contentText] at ih ⊢
      rw [List.map_cons, String.join_cons, ih]
      cases hblock with
      | plain s => rw [blocksOf_cons_self, String.join_cons]
      | text type value =>
          rw [blocksOf_cons_self, String.join_cons]
          simp [type, value, PyValue.isStr, Entries.getD, rt.str_str]
      | @reasoning entries kind s kinds type value bare =>
          rw [blocksOf_cons_of_ne (by decide)]
          rcases kinds with rfl | rfl
          · simp [type, PyValue.isStr]
          · simp [type, PyValue.isStr]

/-- An empty block falls back to a text it does not have. -/
theorem reasoningBlock_of_bare (rt : Runtime) {entries : Entries} {kind s : String}
    (value : OrderedDict.lookupEntries kind entries = some (.str s))
    (bare : OrderedDict.lookupEntries "text" entries = none) :
    reasoningBlock rt entries kind = s := by
  by_cases hs : s = ""
  · simp [reasoningBlock, Entries.getD, value, bare, hs, PyValue.truthy, rt.str_str]
  · simp [reasoningBlock, Entries.getD, value, hs, PyValue.truthy, rt.str_str]

theorem contentReasoning_of_blocks (rt : Runtime) {message : AIMessage}
    (hcontent : message.content = .list values) (h : List.Forall₂ IsBlock blocks values) :
    contentReasoning rt message = String.join (blocksOf .reasoning blocks) := by
  simp only [contentReasoning, hcontent]
  clear hcontent
  induction h with
  | nil => rfl
  | cons hblock _ ih =>
      rw [List.map_cons, String.join_cons, ih]
      cases hblock with
      | plain s =>
          rw [blocksOf_cons_of_ne (by decide)]
          simp
      | text type value =>
          rw [blocksOf_cons_of_ne (by decide)]
          simp [type, PyValue.isStr]
      | @reasoning entries kind s kinds type value bare =>
          rw [blocksOf_cons_self, String.join_cons, ← reasoningBlock_of_bare rt value bare]
          rcases kinds with rfl | rfl
          · simp [type, PyValue.isStr]
          · simp [type, PyValue.isStr]

end Content

/-! ## Delivery -/

/-- The tokens of each channel come in one group for every block of the channel, in the order of
the blocks and with anything else in between. -/
def DeliversBlocks (blocks : List (ChunkChannel × String)) (events : List Entries) : Prop :=
  ∀ channel, ∃ groups : List (List String), tokens channel events = groups.flatten ∧
    List.Forall₂ (fun s group => s = String.join group) (blocksOf channel blocks) groups

theorem streamText_of_delivers {blocks : List (ChunkChannel × String)} {events : List Entries}
    (h : DeliversBlocks blocks events) (channel : ChunkChannel) :
    streamText channel events = String.join (blocksOf channel blocks) := by
  obtain ⟨groups, htokens, hgroups⟩ := h channel
  rw [streamText, htokens]
  clear htokens
  generalize blocksOf channel blocks = texts at hgroups ⊢
  induction hgroups with
  | nil => rfl
  | cons hs _ ih => rw [List.flatten_cons, String.join_append, String.join_cons, ih, ← hs]

/-! ## The live side -/

def contentField : ChunkChannel → String
  | .text => "text"
  | .reasoning => "reasoning"

/-- What the anchor row of a message itself carries. -/
def anchorContent (frames : List Frame) (msgId : String) (channel : ChunkChannel) : String :=
  match (collection .message frames).get msgId with
  | some row => rowText row (contentField channel)
  | none => ""

/-- What a client shows: the chunks of the channel, or the anchor's own field when there are
none. -/
def clientContent (frames : List Frame) (msgId : String) (channel : ChunkChannel) : String :=
  if ((collection .messageChunk frames).values.filter (isChunkOf msgId channel)).isEmpty then
    anchorContent frames msgId channel
  else reassembled frames msgId channel

/-- No chunk of one stream goes under a key of the other. -/
def MessageStream.Apart (s s' : MessageStream) : Prop :=
  ∀ channel channel', keyBase s.msgId channel ≠ keyBase s'.msgId channel'

theorem rowsUnder_of_apart {s s' : MessageStream} (h : s.Apart s') (threadId : String)
    (channel : ChunkChannel) : s'.rowsUnder threadId (keyBase s.msgId channel) = [] := by
  rw [MessageStream.rowsUnder]
  cases hc : s'.channelUnder (keyBase s.msgId channel) with
  | none => rfl
  | some channel' =>
      exact absurd (MessageStream.channelUnder_eq_some.mp hc).symm (h channel channel')

/-- The keys of a stream that is apart from all others hold its own rows. -/
theorem heldUnder_of_apart {before after : List MessageStream} {s : MessageStream}
    (hapart : ∀ s' ∈ before ++ after, s.Apart s') (threadId : String) (channel : ChunkChannel) :
    heldUnder threadId (keyBase s.msgId channel) (before ++ s :: after) =
      s.rowsUnder threadId (keyBase s.msgId channel) := by
  have hnil : ∀ others : List MessageStream, (∀ s' ∈ others, s.Apart s') → ∀ rows ∈ others.map
      (MessageStream.rowsUnder threadId (keyBase s.msgId channel)), rows = [] := by
    intro others hothers rows hrows
    obtain ⟨s', hs', rfl⟩ := List.mem_map.mp hrows
    exact rowsUnder_of_apart (hothers s' hs') threadId channel
  have hbefore := overlays_append_of_nil []
    (hnil before fun s' hs' => hapart s' (List.mem_append_left _ hs'))
  have hafter := hnil after fun s' hs' => hapart s' (List.mem_append_right _ hs')
  rw [heldUnder, List.map_append, List.map_cons, List.append_cons,
    overlays_append_of_nil _ hafter, overlays_concat, ← List.nil_append (before.map _), hbefore]
  change s.rowsUnder threadId _ ++ List.drop _ [] = _
  rw [List.drop_nil, List.append_nil]

/-- The rows of a channel carry its pieces. -/
theorem joinTexts_rowsUnder (threadId : String) (s : MessageStream) (channel : ChunkChannel) :
    joinTexts ((s.rowsUnder threadId (keyBase s.msgId channel)).filter
      (isChunkOf s.msgId channel)) = streamText channel s.events := by
  have hrows : s.rowsUnder threadId (keyBase s.msgId channel) =
      (streamPieces channel s.events).mapIdx fun i piece =>
        chunkRow threadId s.msgId channel i piece none := by
    rw [MessageStream.rowsUnder, MessageStream.channelUnder_eq_some.mpr rfl]
  have hown : ∀ row ∈ s.rowsUnder threadId (keyBase s.msgId channel),
      isChunkOf s.msgId channel row := by
    intro row hrow
    rw [hrows] at hrow
    obtain ⟨i, hi, rfl⟩ := List.mem_mapIdx.mp hrow
    exact isChunkOf_chunkRow.mpr ⟨rfl, rfl⟩
  rw [List.filter_eq_self.mpr hown, joinTexts, ← join_streamPieces, hrows]
  congr 1
  apply List.ext_getElem?
  intro i
  rw [List.getElem?_map, List.getElem?_mapIdx, Option.map_map]
  simp only [Function.comp_def, rowText_chunkRow, Option.map_id']

section Live

variable {r : MessageRun} {before after : List MessageStream} {s : MessageStream}

theorem rowText_messageRow (threadId msgId : String) (ordinal order createdAt : ℤ)
    (agentId : Option String) (channel : ChunkChannel) :
    rowText (messageRow threadId msgId ordinal order createdAt agentId) (contentField channel) =
      "" := by
  have hne : "agentId" ≠ contentField channel := by
    cases channel with
    | text => decide
    | reasoning => decide
  rw [rowText, messageRow, OrderedDict.get_setSome, if_neg hne]
  cases channel with
  | text => rfl
  | reasoning => rfl

/-- Anchor rows have no content. -/
theorem anchorContent_eq (msgId : String) (channel : ChunkChannel) :
    anchorContent r.final.state.frames msgId channel = "" := by
  rw [anchorContent]
  cases hrow : (collection .message r.final.state.frames).get msgId with
  | none => rfl
  | some row =>
      obtain ⟨f, hf, hchange⟩ := List.mem_map.mp (LastWriter.mem_of_get_collect hrow)
      obtain ⟨hmem, htype⟩ := List.mem_filter.mp hf
      obtain ⟨name, hwritten⟩ := written_of_reaches (reaches_of_follow r.follows) f hmem
      have hvalue : f.value = some row := congrArg Prod.snd hchange
      cases hwritten with
      | user item => exact absurd item r.not_userMessage
      | anchor author =>
          cases hvalue
          exact rowText_messageRow _ _ _ _ _ _ _
      | custom _ row =>
          cases row with
          | _ => cases htype
      | _ => cases htype

theorem clientContent_eq (h : r.Drained) (hstreams : r.streams = before ++ s :: after)
    (hapart : ∀ s' ∈ before ++ after, s.Apart s') (channel : ChunkChannel) :
    clientContent r.final.state.frames s.msgId channel = streamText channel s.events := by
  have hread : reassembled r.final.state.frames s.msgId channel = streamText channel s.events := by
    rw [reassembled_eq (MessageRun.collection_of_drained h), hstreams,
      heldUnder_of_apart hapart, joinTexts_rowsUnder]
  rw [clientContent]
  split_ifs with hnone
  · rw [anchorContent_eq, ← hread, reassembled, List.isEmpty_iff.mp hnone]
    rfl
  · exact hread

variable {earlier later : List ModelMessage} {m : ModelMessage} {msgId : String}

/-- The stream of a rendered message has its place among the others. -/
theorem streams_of_rendered (h : r.Drained) (hrendered : r.rendered = earlier ++ m :: later)
    (hgiven : m.messageId = some msgId) (hne : msgId ≠ "") :
    r.streams = r.streams.take earlier.length ++
      ⟨msgId, m.events.items⟩ :: r.streams.drop (earlier.length + 1) := by
  have hdelivers := (MessageRun.view_of_drained h).1
  rw [hrendered] at hdelivers
  obtain ⟨s, rest, hs, _, hdrop⟩ :=
    List.forall₂_cons_right_iff.mp (List.forall₂_drop_append _ _ _ hdelivers.flip)
  have hown : s = ⟨msgId, m.events.items⟩ := by
    have hmsgId : s.msgId = msgId := id_of_resolves hs.id (by rw [hgiven, Option.getD_some]) hne
    rw [← hmsgId, ← hs.events]
  rw [← List.drop_drop, hdrop, List.drop_one, List.tail_cons, ← hown, ← hdrop]
  exact (List.take_append_drop _ _).symm

theorem rendersId_of_rendered (hrendered : r.rendered = earlier ++ m :: later)
    (hgiven : m.messageId = some msgId) (hne : msgId ≠ "") :
    rendersId r.summaryPrefix (some msgId) := by
  have hmem : m ∈ r.rendered := by
    rw [hrendered]
    exact List.mem_append_right _ List.mem_cons_self
  have hrenders := (Bool.and_eq_true_iff.mp (List.mem_filter.mp hmem).2).2
  rw [hgiven, Option.getD_some] at hrenders
  rw [rendersId, hrenders, Bool.and_true]
  exact decide_eq_true hne

end Live

/-! ## The replayed side -/

section Replay

variable (rt : Runtime) (threadId summaryPrefix : String)

/-- What the replay writes for an assistant message that comes after others. -/
def assistantFrame (earlier : List BaseMessage) (msgId : String) (message : AIMessage) : Frame :=
  upsertFrame .message msgId
    (aiRow rt threadId msgId message (replayMessages rt threadId summaryPrefix earlier)) none

theorem rowText_aiRow (msgId : String) (message : AIMessage) (st : ReplayState) :
    rowText (aiRow rt threadId msgId message st) "text" = contentText rt message.content ∧
      rowText (aiRow rt threadId msgId message st) "reasoning" = contentReasoning rt message := by
  constructor
  · rw [rowText, aiRow, OrderedDict.get_setSome, if_neg (by decide)]
    rfl
  · rw [rowText, aiRow, OrderedDict.get_setSome, if_pos rfl]
    split_ifs with hnone
    · exact hnone.symm
    · rfl

variable {rt threadId summaryPrefix}

theorem prefix_replayMessage (st : ReplayState) (m : BaseMessage) :
    st.frames <+: (replayMessage rt threadId summaryPrefix st m).frames := by
  cases m with
  | human message =>
      rw [replayMessage]
      split_ifs
      · exact List.prefix_append _ _
      · exact List.prefix_rfl
  | ai message =>
      rw [replayMessage]
      split_ifs
      · rw [replayCalls_frames]
        exact List.prefix_append _ _
      · exact List.prefix_rfl
  | tool message =>
      rw [replayMessage]
      split
      · exact List.prefix_rfl
      · exact List.prefix_rfl
  | other id => exact List.prefix_rfl

theorem prefix_foldl_replayMessage (messages : List BaseMessage) (st : ReplayState) :
    st.frames <+: (messages.foldl (replayMessage rt threadId summaryPrefix) st).frames := by
  induction messages generalizing st with
  | nil => exact List.prefix_rfl
  | cons m messages ih => exact (prefix_replayMessage st m).trans (ih _)

/-- The row of an assistant message comes right after those of the messages before it. -/
theorem assistantFrame_of_replayHistory {messages earlier later : List BaseMessage}
    {maxTurns : Option ℤ} {message : AIMessage} {msgId : String} (hid : message.id = some msgId)
    (hrenders : rendersId summaryPrefix message.id)
    (hwindow : replayWindow messages maxTurns = earlier ++ .ai message :: later) :
    (replayMessages rt threadId summaryPrefix earlier).frames ++
        [assistantFrame rt threadId summaryPrefix earlier msgId message] <+:
      (replayHistory rt threadId messages maxTurns summaryPrefix).frames := by
  have hstep : (replayMessage rt threadId summaryPrefix
      (replayMessages rt threadId summaryPrefix earlier) (.ai message)).frames =
      (replayMessages rt threadId summaryPrefix earlier).frames ++
        [assistantFrame rt threadId summaryPrefix earlier msgId message] := by
    rw [replayMessage, if_pos hrenders, replayCalls_frames, hid]
    rfl
  have hfold : replayMessages rt threadId summaryPrefix (replayWindow messages maxTurns) =
      later.foldl (replayMessage rt threadId summaryPrefix)
        (replayMessage rt threadId summaryPrefix
          (replayMessages rt threadId summaryPrefix earlier) (.ai message)) := by
    rw [hwindow, replayMessages, List.foldl_append]
    rfl
  have hlater : _ <+: (later.foldl (replayMessage rt threadId summaryPrefix) _).frames :=
    prefix_foldl_replayMessage later (replayMessage rt threadId summaryPrefix
      (replayMessages rt threadId summaryPrefix earlier) (.ai message))
  rw [hstep, ← hfold] at hlater
  exact hlater.trans (List.prefix_append _ _)

end Replay

/-- A client reads the same content from the chunks of a rendered message and from the row that is
replayed under its id. -/
theorem streamed_content_eq_replayed {r : MessageRun} (h : r.Drained)
    {before after : List ModelMessage} {m : ModelMessage} {msgId : String}
    (hrendered : r.rendered = before ++ m :: after) (hgiven : m.messageId = some msgId)
    (hne : msgId ≠ "")
    (hapart : ∀ s ∈ r.streams.eraseIdx before.length,
      MessageStream.Apart ⟨msgId, m.events.items⟩ s)
    {message : AIMessage} {blocks : List (ChunkChannel × String)} {values : List PyValue}
    (hid : message.id = some msgId) (hcontent : message.content = .list values)
    (hblocks : List.Forall₂ IsBlock blocks values)
    (hdelivers : DeliversBlocks blocks m.events.items) (rt : Runtime) (threadId : String)
    {messages earlier later : List BaseMessage}
    {maxTurns : Option ℤ}
    (hwindow : replayWindow messages maxTurns = earlier ++ .ai message :: later) :
    ∃ row, (replayMessages rt threadId r.summaryPrefix earlier).frames ++
          [upsertFrame .message msgId row none] <+:
        (replayHistory rt threadId messages maxTurns r.summaryPrefix).frames ∧
      ∀ channel, clientContent r.final.state.frames msgId channel =
        rowText row (contentField channel) := by
  have hrenders : rendersId r.summaryPrefix message.id := by
    rw [hid]
    exact rendersId_of_rendered hrendered hgiven hne
  refine ⟨_, assistantFrame_of_replayHistory hid hrenders hwindow, fun channel => ?_⟩
  obtain ⟨htext, hreasoning⟩ := rowText_aiRow rt threadId msgId message
    (replayMessages rt threadId r.summaryPrefix earlier)
  have hstreams := streams_of_rendered h hrendered hgiven hne
  have hlive : clientContent r.final.state.frames msgId channel =
      streamText channel m.events.items := by
    refine clientContent_eq h hstreams (fun s hs => hapart s ?_) channel
    rwa [List.eraseIdx_eq_take_drop_succ]
  rw [hlive, streamText_of_delivers hdelivers]
  cases channel with
  | text => rw [contentField, htext, hcontent, contentText_of_blocks rt hblocks]
  | reasoning => rw [contentField, hreasoning, contentReasoning_of_blocks rt hcontent hblocks]

def thinkingMessage : AIMessage where
  id := some "m"
  content := .list [.dict [("type", .str "thinking"), ("thinking", .str "why")], .str "ab"]
  toolCalls := []

def thinkingRun : MessageRun := messageRun [thinkingStream] 7 rfl

theorem streamed_content_eq_replayed_thinkingRun :
    ∃ row, [upsertFrame .message "m" row none] <+:
        (replayHistory plainRuntime "t" [.ai thinkingMessage] none "summarization-").frames ∧
      ∀ channel, clientContent thinkingRun.final.state.frames "m" channel =
        rowText row (contentField channel) :=
  streamed_content_eq_replayed ⟨by decide, rfl⟩
    (show thinkingRun.rendered = [] ++ thinkingStream :: [] from rfl) rfl (by decide) nofun rfl rfl
    (show List.Forall₂ IsBlock [(.reasoning, "why"), (.text, "ab")] _ from
      .cons (.reasoning (.inl rfl) rfl rfl rfl) (.cons (.plain "ab") .nil))
    (fun channel => by
      cases channel with
      | text => exact ⟨[["a", "b"]], rfl, .cons rfl .nil⟩
      | reasoning => exact ⟨[["why"]], rfl, .cons rfl .nil⟩)
    plainRuntime "t"
    (show replayWindow [.ai thinkingMessage] none = [] ++ .ai thinkingMessage :: [] from rfl)

end StreamDB
