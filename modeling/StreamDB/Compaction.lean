import StreamDB.DrainRows
import StreamDB.ReplayRows
import StreamDB.RunCalls
import StreamDB.SubagentTags

/-!
# Rows of compaction artifacts

A message whose id starts with the summarization prefix is a compaction artifact. The replay and
the top-level drain look at the id a message brings along; the drain of a subagent does not, and
nobody looks at an id drawn for a message that brings none.
-/

namespace StreamDB

open Coroutine

namespace Frame

def modelMessageId (f : Frame) : Option String :=
  match f.type with
  | .message => if f.textField "role" = some "assistant" then f.textField "id" else none
  | .messageChunk => f.textField "messageId"
  | _ => none

def artifact (summaryPrefix : String) (f : Frame) : Bool :=
  f.modelMessageId.any fun msgId => startsWith msgId summaryPrefix

theorem artifact_of_ne {f : Frame} (hmessage : f.type ≠ .message)
    (hchunk : f.type ≠ .messageChunk) (summaryPrefix : String) :
    f.artifact summaryPrefix = false := by
  rw [artifact, modelMessageId]
  cases htype : f.type with
  | message => exact absurd htype hmessage
  | messageChunk => exact absurd htype hchunk
  | _ => rfl

end Frame

/-! ## Live rows -/

/-- The ids no drain compares with the prefix: those of the messages of linked subagents, and one
drawn for a message that brings none. -/
inductive Setting.Unchecked (E : Setting) : TaskName → String → Prop
  | nested {m : ModelMessage} {subagentId tag msgId : String}
      (item : E.source (.subagentMessages subagentId) (.message m))
      (model : m.node = some modelNode)
      (linked : E.Linked (.subagentMessages subagentId) subagentId tag)
      (id : ResolvesTo E.rt "submsg_" m.messageId msgId) :
      E.Unchecked (.subagentMessages subagentId) msgId
  | drawn {m : ModelMessage} (item : E.source .messages (.message m))
      (rendered : rendersMessage E.summaryPrefix m) (absent : m.messageId.getD "" = "") (n : ℕ) :
      E.Unchecked .messages ("msg_" ++ E.rt.uuidHex n)

/-- No id drawn for a top-level message that brings none starts with the prefix. -/
def FreshIdsClean (rt : Runtime) (summaryPrefix : String) (activities : List Activity) : Prop :=
  ∀ m, drains rt activities .messages (.message m) → rendersMessage summaryPrefix m →
    m.messageId.getD "" = "" → ∀ n, startsWith ("msg_" ++ rt.uuidHex n) summaryPrefix = false

/-- The step is not one of a linked subagent's message drain with a compaction artifact among its
messages. -/
def CleanStep (rt : Runtime) (summaryPrefix : String) (activities : List Activity)
    (name : TaskName) (w : World) : Prop :=
  ∀ m subagentId tag, name = .subagentMessages subagentId →
    w.self.subagentToolCall.get subagentId = some tag →
    drains rt activities name (.message m) → m.node = some modelNode →
    ∀ msgId, ResolvesTo rt "submsg_" m.messageId msgId → startsWith msgId summaryPrefix = false

theorem modelMessageId_anchor (threadId msgId : String) (ordinal order createdAt : ℤ)
    (agentId : Option String) :
    (upsertFrame .message msgId (messageRow threadId msgId ordinal order createdAt agentId)
      none).modelMessageId = some msgId := by
  rw [Frame.modelMessageId, type_upsertFrame]
  simp only [textField_upsertFrame (messageRow_role ..), textField_upsertFrame (messageRow_id ..),
    if_true]

theorem modelMessageId_chunk (threadId msgId : String) (channel : ChunkChannel) (seq : ℕ)
    (text : String) (agentId : Option String) :
    (upsertFrame .messageChunk (chunkId msgId channel seq)
      (chunkRow threadId msgId channel seq text agentId) none).modelMessageId = some msgId := by
  rw [Frame.modelMessageId, type_upsertFrame]
  exact textField_upsertFrame (chunkRow_messageId _ _ _ _ _ _) _ _ _

theorem modelMessageId_user (threadId msgId : String) (ordinal order createdAt : ℤ) (text : String)
    (attachments : List PyValue) (txid : Option String) :
    (upsertFrame .message msgId (userRow threadId msgId ordinal order createdAt text attachments)
      txid).modelMessageId = none := by
  rw [Frame.modelMessageId, type_upsertFrame]
  simp only [textField_upsertFrame (userRow_role ..)]
  rfl

section Live

variable {rt : Runtime} {threadId runId summaryPrefix : String} {s t : ℤ}
  {activities : List Activity} {name : TaskName} {f : Frame}

/-- An author's id starts with the prefix only where nobody has compared it. -/
theorem unchecked_of_author {allowed : TaskName → World → Prop} {agentId : Option String}
    {msgId : String}
    (h : (settingOf rt threadId summaryPrefix activities allowed).MessageAuthor name agentId msgId)
    (hartifact : startsWith msgId summaryPrefix) :
    (settingOf rt threadId summaryPrefix activities allowed).Unchecked name msgId := by
  cases h with
  | top item rendered id =>
      cases id with
      | given present =>
          simp only [settingOf, rendersMessage, Bool.and_eq_true, Bool.not_eq_true'] at rendered
          rw [rendered.2] at hartifact
          cases hartifact
      | fresh absent n => exact .drawn item rendered absent n
  | nested item model linked id => exact .nested item model linked id

/-- A row shows an artifact exactly if the message it belongs to goes unchecked by an id with the
prefix. -/
theorem artifact_iff_unchecked {allowed : TaskName → World → Prop}
    (h : (settingOf rt threadId summaryPrefix activities allowed).WrittenBy name f) :
    f.artifact summaryPrefix ↔ ∃ msgId, f.modelMessageId = some msgId ∧
      startsWith msgId summaryPrefix ∧
      (settingOf rt threadId summaryPrefix activities allowed).Unchecked name msgId := by
  constructor
  · intro hartifact
    obtain ⟨msgId, hid, hprefix⟩ := (Option.any_eq_true _ _).mp hartifact
    refine ⟨msgId, hid, hprefix, ?_⟩
    cases h with
    | user _ _ _ _ _ =>
        rw [modelMessageId_user] at hid
        cases hid
    | anchor author _ _ _ =>
        rw [modelMessageId_anchor, Option.some.injEq] at hid
        subst hid
        exact unchecked_of_author author hprefix
    | chunk author _ _ _ =>
        rw [modelMessageId_chunk, Option.some.injEq] at hid
        subst hid
        exact unchecked_of_author author hprefix
    | custom _ row =>
        cases row with
        | _ => cases hid
    | _ => cases hid
  · rintro ⟨msgId, hid, hprefix, _⟩
    exact (Option.any_eq_true _ _).mpr ⟨msgId, hid, hprefix⟩

theorem writtenBy_clean (hfresh : FreshIdsClean rt summaryPrefix activities)
    (h : (settingOf rt threadId summaryPrefix activities
      (CleanStep rt summaryPrefix activities)).WrittenBy name f) :
    f.artifact summaryPrefix = false := by
  rw [Bool.eq_false_iff, ne_eq, artifact_iff_unchecked h]
  rintro ⟨msgId, _, hprefix, hunchecked⟩
  have hclean : startsWith msgId summaryPrefix = false := by
    cases hunchecked with
    | nested item model linked id =>
        obtain ⟨⟨w, hclean, hget⟩, _⟩ := linked
        exact hclean _ _ _ rfl hget item model _ id
    | drawn item rendered absent n => exact hfresh _ item rendered absent n
  rw [hclean] at hprefix
  cases hprefix

theorem callOf_clean {sc : Scenario} (hrows : ∀ g ∈ sc.channelRows.frames,
    g.artifact summaryPrefix = false) (h : sc.CallOf (.frame f)) :
    f.artifact summaryPrefix = false := by
  cases h with
  | shell call =>
      cases call with
      | _ => rfl
  | seed _ => rfl
  | channel mem => exact hrows f mem

end Live

/-! ## Replayed rows -/

theorem startsWith_of_rendersId {summaryPrefix : String} {id : Option String}
    (h : rendersId summaryPrefix id) : startsWith (id.getD "") summaryPrefix = false := by
  cases id with
  | none => cases h
  | some id =>
      simp only [rendersId, Bool.and_eq_true, Bool.not_eq_true'] at h
      exact h.2

/-- A message row of a replay is never one of an artifact, user rows included. -/
theorem Replayed.clean {rt : Runtime} {threadId summaryPrefix : String}
    {messages : List BaseMessage} {f : Frame}
    (h : Replayed rt threadId summaryPrefix messages f) :
    f.artifact summaryPrefix = false ∧
      (f.type = .message → startsWith f.key summaryPrefix = false) := by
  cases h with
  | @human message _ renders st =>
      refine ⟨?_, fun _ => startsWith_of_rendersId renders⟩
      rw [Frame.artifact, Frame.modelMessageId, type_upsertFrame]
      simp only [textField_upsertFrame (humanRow_role ..)]
      rfl
  | @ai message _ renders st =>
      refine ⟨?_, fun _ => startsWith_of_rendersId renders⟩
      rw [Frame.artifact, Frame.modelMessageId, type_upsertFrame]
      simp only [textField_upsertFrame (aiRow_role ..), textField_upsertFrame (aiRow_id ..),
        if_true]
      exact startsWith_of_rendersId renders
  | tool _ =>
      refine ⟨Frame.artifact_of_ne (by simp) (by simp) _, fun h => ?_⟩
      cases h

/-! ## Whole runs -/

/-- Neither a run nor a replay shows a compaction artifact, as long as no step of the run is one of
a linked subagent with an artifact among its messages. -/
theorem artifacts_hidden {rt : Runtime} {threadId runId summaryPrefix : String} {s t : ℤ}
    {activities : List Activity} {c : System} (hfresh : FreshIdsClean rt summaryPrefix activities)
    (h : Reaches (CleanStep rt summaryPrefix activities)
      (startSystem rt (Translator.seeded threadId runId summaryPrefix s t) activities) c) :
    (∀ f ∈ c.state.frames, f.artifact summaryPrefix = false) ∧
      (∀ (sc : Scenario) (started : Bool), sc.channelRows.frames = c.state.frames →
        ∀ f, .frame f ∈ (sc.run (sc.startState started)).2.calls →
          f.artifact summaryPrefix = false) ∧
      ∀ (messages : List BaseMessage) (maxTurns : Option ℤ),
        ∀ f ∈ (replayHistory rt threadId messages maxTurns summaryPrefix).frames,
          f.artifact summaryPrefix = false ∧
            (f.type = .message → startsWith f.key summaryPrefix = false) := by
  have hlive : ∀ f ∈ c.state.frames, f.artifact summaryPrefix = false := by
    intro f hf
    obtain ⟨name, hwritten⟩ := written_of_reaches h f hf
    exact writtenBy_clean hfresh hwritten
  refine ⟨hlive, ?_, fun messages maxTurns f hf => (replayed_of_mem maxTurns f hf).clean⟩
  intro sc started hrows f hf
  exact callOf_clean (by rwa [hrows]) (sc.callOf_of_run started _ hf)

theorem cleanStep_answering (name : TaskName) (w : World) :
    CleanStep plainRuntime "summarization-" answering name w := by
  rintro m subagentId tag rfl _ hdrains _ msgId hid
  cases hdrains with
  | nestedMessage mem within _ _ projection item =>
      simp only [answering, List.mem_cons, reduceCtorEq, Activity.subgraphs.injEq, false_or,
        List.not_mem_nil, or_false] at mem
      subst mem
      cases within with
      | here hsg =>
          rw [List.mem_singleton.mp hsg, Subgraph.messages, Option.some.injEq] at projection
          rw [← projection, List.mem_singleton] at item
          subst item
          cases hid with
          | given _ => decide
          | fresh absent _ => exact absurd absent (by decide)
      | deeper hsg _ nested _ =>
          rw [List.mem_singleton.mp hsg] at nested
          cases nested

theorem freshIdsClean_answering : FreshIdsClean plainRuntime "summarization-" answering := by
  intro m hdrains
  cases hdrains with
  | message mem _ => simp [answering] at mem

def answered : System :=
  (startSystem plainRuntime (Translator.seeded "t" "r" "summarization-" 0 0) answering).after
    (fun _ _ => true) (lateLink ++ [.run 3]) (by decide)

theorem artifacts_hidden_answered :
    answered.state.frames.map Frame.modelMessageId = [some "n1"] ∧
      ∀ f ∈ answered.state.frames, f.artifact "summarization-" = false :=
  ⟨by decide, (artifacts_hidden freshIdsClean_answering
    (reaches_after (fun name w _ => cleanStep_answering name w) _ _ _)).1⟩

/-- A subagent with a summary of its own conversation. -/
def summarizing : List Activity :=
  [.source [.subgraphs, .custom], .custom ⟨[startPayload "sa1" "c1"], none⟩,
    .subgraphs ⟨[.mk (some "subagent") (some "sa1")
      (some ⟨[modelMessage "summarization-1"], none⟩) none none none], none⟩]

def summarized : System :=
  (startSystem plainRuntime (Translator.seeded "t" "r" "summarization-" 0 0) summarizing).after
    (fun _ _ => true) (lateLink ++ [.run 3]) (by decide)

theorem not_artifacts_hidden :
    ¬ ∀ (rt : Runtime) (threadId runId summaryPrefix : String) (s t : ℤ)
      (activities : List Activity) (c : System),
      Reaches anyStep
        (startSystem rt (Translator.seeded threadId runId summaryPrefix s t) activities) c →
      ∀ f ∈ c.state.frames, f.artifact summaryPrefix = false := by
  intro h
  have hhidden := h plainRuntime "t" "r" "summarization-" 0 0 summarizing summarized
    (reaches_after (fun _ _ _ => trivial) _ _ _)
  revert hhidden
  decide

end StreamDB
