import StreamDB.ContentReplay
import StreamDB.TranslatedMessages
import StreamDB.WatchedConversation

/-!
# The content of an answer

From the end of a turn on a client has of each answer what the replay of the history writes for it,
text and reasoning, whatever ran next to the messages channel and whatever came before and after.
-/

namespace StreamDB

open Coroutine FirstSeen

theorem anchorContent_of_messageRuns {F : Setting} {m : ModelMessage} {key : String}
    {log : List Frame} (h : MessageRuns F m key (framesOfMessage key log))
    (channel : ChunkChannel) : anchorContent log key channel = "" := by
  rw [anchorContent]
  cases hrow : (collection .message log).get key with
  | none => rfl
  | some row =>
      obtain ⟨f, hf, hchange⟩ := List.mem_map.mp (LastWriter.mem_of_get_collect hrow)
      obtain ⟨hmem, htype⟩ := List.mem_filter.mp hf
      have hkey : f.key = key := congrArg Prod.fst hchange
      have hvalue : f.value = some row := congrArg Prod.snd hchange
      have hown : f ∈ framesOfMessage key log := by
        refine List.mem_filter.mpr ⟨hmem, ?_⟩
        rw [Frame.isMessageRow, htype, hkey, decide_eq_true rfl]
        rfl
      rcases h with hnil | ⟨_, agentId, cs, _, _, ordinal, order, createdAt, hlog⟩
      · rw [hnil] at hown
        cases hown
      · rw [hlog] at hown
        rcases List.mem_cons.mp hown with rfl | hchunk
        · cases hvalue
          exact rowText_messageRow _ _ _ _ _ _ _
        · obtain ⟨c, _, rfl⟩ := List.mem_map.mp hchunk
          cases of_decide_eq_true htype

/-- A client shows the stream of a message, and nothing else. -/
theorem clientContent_of_sends {F : Setting} {m : ModelMessage} {threadId key : String}
    {agentId : Option String} {log : List Frame}
    (h : MessageRuns F m key (framesOfMessage key log))
    (hsends : Sends threadId key agentId (streamChunks m.events.items) log)
    (channel : ChunkChannel) :
    clientContent log key channel = streamText channel m.events.items := by
  have hread := hsends.reassembled_stream channel
  rw [clientContent]
  split_ifs with hnone
  · rw [anchorContent_of_messageRuns h, ← hread, reassembled, List.isEmpty_iff.mp hnone]
    rfl
  · exact hread

theorem TranslatorRun.strangers (r : TranslatorRun) {key : String} (hdrawn : Undrawn r.rt key)
    (hnone : ∀ item ∈ runItems r.activities, item.clashes key = false) :
    ∀ f ∈ r.final.state.frames, f.StrangerTo key := by
  intro f hf
  obtain ⟨name, hwritten⟩ := written_of_reaches (reaches_of_follow r.follows) f hf
  exact stranger_of_writtenBy hdrawn
    (fun _ _ hdrains => mine_of_drains (picksListed_clashes key) hnone hdrains) hwritten

theorem strangers_of_replayHistory {rt : Runtime} {threadId summaryPrefix key : String}
    {messages : List BaseMessage} {maxTurns : Option ℤ}
    (hnone : ∀ f ∈ (replayHistory rt threadId messages maxTurns summaryPrefix).frames,
      f.type = .message → f.key ≠ key) :
    ∀ f ∈ (replayHistory rt threadId messages maxTurns summaryPrefix).frames,
      f.StrangerTo key := by
  intro f hf
  have hreplayed := replayed_of_mem maxTurns f hf
  cases hreplayed with
  | tool _ => exact ⟨rfl, fun htype => by cases htype⟩
  | human =>
      refine ⟨Bool.eq_false_iff.mpr fun hrow => ?_, fun htype => by cases htype⟩
      exact hnone _ hf rfl (isMessageRow_message.mp hrow)
  | ai =>
      refine ⟨Bool.eq_false_iff.mpr fun hrow => ?_, fun htype => by cases htype⟩
      exact hnone _ hf rfl (isMessageRow_message.mp hrow)

namespace TurnRun

variable (t : TurnRun)

/-- An answer of the turn whose id is like no other of it. -/
structure SoundAnswer (m : ModelMessage) : Prop where
  shown : m ∈ t.answers
  sound : m.failure = none
  given : m.messageId.getD "" ≠ ""
  undrawn : Undrawn t.rt (m.messageId.getD "")
  alone : (runItems t.activities).filter (Item.clashes (m.messageId.getD "")) = [.message m]

variable {t} {m : ModelMessage}

def SoundAnswer.speech (h : t.SoundAnswer m) : SpeechRun :=
  { t.asRun with message := m, given := h.given, undrawn := h.undrawn, alone := h.alone }

theorem SoundAnswer.frames_ne_nil (h : t.SoundAnswer m) (hended : t.Ended) :
    h.speech.frames ≠ [] := by
  rcases t.exists_transcript with ⟨-, hnot⟩ | ⟨answered, keys, -, hall, htranscript⟩
  · exact absurd hended hnot
  obtain rfl := hall hended
  obtain ⟨key, hmem, hid⟩ := exists_name htranscript.names h.shown
  have hkey : key = m.messageId.getD "" := id_of_resolves hid rfl h.given
  have hrow : key ∈ selectedKeys Frame.transcript t.final.state.frames := by
    rw [← mem_firstSeen, htranscript.rows, mem_firstSeen]
    exact List.mem_cons_of_mem _ hmem
  obtain ⟨f, hf, hfkey⟩ := List.mem_map.mp hrow
  obtain ⟨hf, hsel⟩ := List.mem_filter.mp hf
  have htype : f.type = .message := by
    simp only [Frame.transcript, Bool.and_eq_true, decide_eq_true_eq] at hsel
    exact hsel.1
  rw [← t.state_asRun] at hf
  refine List.ne_nil_of_mem (List.mem_filter.mpr ⟨hf, ?_⟩) (a := f)
  change f.isMessageRow (m.messageId.getD "")
  rw [Frame.isMessageRow, htype, hfkey, hkey, decide_eq_true rfl, decide_eq_true rfl]
  rfl

theorem SoundAnswer.clientContent_eq (h : t.SoundAnswer m) (hended : t.Ended)
    {before after : List Frame} (hbefore : ∀ f ∈ before, f.StrangerTo (m.messageId.getD ""))
    (hafter : ∀ f ∈ after, f.StrangerTo (m.messageId.getD "")) (channel : ChunkChannel) :
    clientContent (before ++ t.final.state.frames ++ after) (m.messageId.getD "") channel =
      streamText channel m.events.items := by
  obtain ⟨threadId, agentId, hsends⟩ :=
    h.speech.sends_of_ended hended.asRun h.sound (h.frames_ne_nil hended)
  have hcurrent : MessageRuns h.speech.setting m (m.messageId.getD "")
      (framesOfMessage (m.messageId.getD "") h.speech.final.state.frames) :=
    (h.speech.inCustody.rests h.speech.mid_nil).2
  have hstate : h.speech.final.state = t.final.state := t.state_asRun
  rw [hstate] at hsends hcurrent
  rw [← framesOfMessage_surround _ hbefore hafter] at hcurrent
  exact clientContent_of_sends hcurrent (hsends.surround hbefore hafter) channel

end TurnRun

/-! ## The replayed row -/

/-- A content of these blocks: a plain text, or a list. -/
inductive MadeOf : List (ChunkChannel × String) → PyValue → Prop
  | plain (s : String) : MadeOf [(.text, s)] (.str s)
  | list {blocks : List (ChunkChannel × String)} {values : List PyValue}
      (each : List.Forall₂ IsBlock blocks values) : MadeOf blocks (.list values)

theorem content_of_madeOf (rt : Runtime) {answer : AIMessage}
    {blocks : List (ChunkChannel × String)} (h : MadeOf blocks answer.content) :
    contentText rt answer.content = String.join (blocksOf .text blocks) ∧
      contentReasoning rt answer = String.join (blocksOf .reasoning blocks) := by
  generalize hcontent : answer.content = content at h
  cases h with
  | plain s =>
      constructor
      · simp [contentText, blocksOf, String.join_cons]
      · rw [contentReasoning, hcontent]
        rfl
  | list each =>
      exact ⟨contentText_of_blocks rt each, contentReasoning_of_blocks rt hcontent each⟩

/-- What a client has of an answer from the end of its turn on is what the replay writes for it. -/
theorem content_of_turn {t : TurnRun} (hended : t.Ended) {m : ModelMessage} (h : t.SoundAnswer m)
    {before after : List Frame} (hbefore : ∀ f ∈ before, f.StrangerTo (m.messageId.getD ""))
    (hafter : ∀ f ∈ after, f.StrangerTo (m.messageId.getD ""))
    {answer : AIMessage} {blocks : List (ChunkChannel × String)} (hid : answer.id = m.messageId)
    (hrenders : rendersId summarizationMessageIdPrefix answer.id)
    (hcontent : MadeOf blocks answer.content) (hdelivers : DeliversBlocks blocks m.events.items)
    (rt : Runtime) (threadId : String) {messages earlier later : List BaseMessage}
    {maxTurns : Option ℤ}
    (hwindow : replayWindow messages maxTurns = earlier ++ .ai answer :: later) :
    ∃ row, (replayMessages rt threadId summarizationMessageIdPrefix earlier).frames ++
          [upsertFrame .message (m.messageId.getD "") row none] <+:
        (replayHistory rt threadId messages maxTurns summarizationMessageIdPrefix).frames ∧
      ∀ channel, clientContent (before ++ t.final.state.frames ++ after) (m.messageId.getD "")
        channel = rowText row (contentField channel) := by
  have hgiven : answer.id = some (m.messageId.getD "") := by
    rw [hid]
    cases hm : m.messageId with
    | none => exact absurd (congrArg (Option.getD · "") hm) h.given
    | some id => rfl
  refine ⟨_, assistantFrame_of_replayHistory hgiven hrenders hwindow, fun channel => ?_⟩
  obtain ⟨htext, hreasoning⟩ := rowText_aiRow rt threadId (m.messageId.getD "") answer
    (replayMessages rt threadId summarizationMessageIdPrefix earlier)
  obtain ⟨hblocks, hthoughts⟩ := content_of_madeOf rt hcontent
  rw [h.clientContent_eq hended hbefore hafter, streamText_of_delivers hdelivers]
  cases channel with
  | text => rw [contentField, htext, hblocks]
  | reasoning => rw [contentField, hreasoning, hthoughts]

theorem undrawn_consulted : Undrawn plainRuntime "m2" where
  msg n := by simp [idsClash, keyBase, plainRuntime, ← String.toList_inj]
  submsg n := by simp [idsClash, keyBase, plainRuntime, ← String.toList_inj]

theorem soundAnswer_consulted : consulted.SoundAnswer (textMessage "m2" ["a", "b"]) where
  shown := List.mem_of_getElem? (i := 1) rfl
  sound := rfl
  given := by decide
  undrawn := undrawn_consulted
  alone := rfl

theorem content_of_turn_consulted :
    let log := (replayHistory plainRuntime "t" earlierTurn none
      summarizationMessageIdPrefix).frames ++ consulted.final.state.frames ++
        goneOn.final.state.frames
    clientContent log "m2" .text = "ab" ∧
      ∃ row, (replayMessages plainRuntime "t" summarizationMessageIdPrefix
            (consultedHistory.take 6)).frames ++ [upsertFrame .message "m2" row none] <+:
          (replayHistory plainRuntime "t" consultedHistory none
            summarizationMessageIdPrefix).frames ∧
        ∀ channel, clientContent log "m2" channel = rowText row (contentField channel) :=
  ⟨by decide, content_of_turn ended_consulted soundAnswer_consulted
    (strangers_of_replayHistory (by decide))
    (goneOn.strangers undrawn_consulted (by decide)) rfl (by decide) (.plain "ab")
    (fun channel => by
      cases channel with
      | text => exact ⟨[["a", "b"]], rfl, .cons rfl .nil⟩
      | reasoning => exact ⟨[], rfl, .nil⟩)
    plainRuntime "t"
    (show replayWindow consultedHistory none =
      consultedHistory.take 6 ++ .ai consultedAnswer :: [] from rfl)⟩

end StreamDB
