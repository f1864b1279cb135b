import StreamDB.CounterInvariant
import StreamDB.DrainRows

/-!
# Rows of subagents stay out of the main transcript

A row written for a subagent carries a tag that a `subagent_start` payload had recorded for it
before the row was written; a subagent without a link writes nothing, and a row of the main
transcript has no tag.
-/

namespace StreamDB

open Coroutine

/-- The subagent a task writes rows for. -/
def TaskName.subagent : TaskName → Option String
  | .subagentMessages subagentId => some subagentId
  | .subagentTool subagentId _ => some subagentId
  | _ => none

theorem TaskName.isSubagent_of_subagent {name : TaskName} {subagentId : String}
    (h : name.subagent = some subagentId) : name.isSubagent := by
  cases name with
  | subagentMessages _ => rfl
  | subagentTool _ _ => rfl
  | _ => cases h

/-- The rows a transcript is made of. -/
def Frame.conversational (f : Frame) : Bool :=
  f.type = .message || f.type = .messageChunk || f.type = .tool

theorem chunkRow_agentId (threadId msgId : String) (channel : ChunkChannel) (seq : ℕ)
    (text : String) (agentId : Option String) :
    (chunkRow threadId msgId channel seq text agentId).get "agentId" = agentField agentId := by
  simp [chunkRow, OrderedDict.ofEntries, OrderedDict.get_set, OrderedDict.get_setSome]

namespace Setting

variable {E : Setting} {name : TaskName} {f : Frame}

theorem Linked.tag_ne {subagentId tag : String} (h : E.Linked name subagentId tag) : tag ≠ "" := by
  obtain ⟨_, _, _, _, _, _, htag⟩ := h
  exact PyValue.nonemptyStr_ne htag

theorem MessageAuthor.agentField {agentId : Option String} {msgId : String}
    (h : E.MessageAuthor name agentId msgId) :
    StreamDB.agentField agentId = agentId.map .str := by
  cases h with
  | top _ _ _ => rfl
  | nested _ _ linked _ => exact agentField_of_ne linked.tag_ne

/-- Whoever writes a message or a call for a subagent has its link. -/
theorem MessageAuthor.linked {agentId : Option String} {msgId : String}
    (h : E.MessageAuthor name agentId msgId) (hname : name.isSubagent) :
    ∃ subagentId tag, name.subagent = some subagentId ∧ E.Linked name subagentId tag ∧
      agentId = some tag := by
  cases h with
  | top _ _ _ => cases hname
  | nested _ _ linked _ => exact ⟨_, _, rfl, linked, rfl⟩

theorem CallAuthor.linked {agentId : Option String} {tc : ToolCallExecution}
    (h : E.CallAuthor name agentId tc) (hname : name.isSubagent) :
    ∃ subagentId tag, name.subagent = some subagentId ∧ E.Linked name subagentId tag ∧
      agentId = some tag := by
  cases h with
  | top _ => cases hname
  | nested _ linked => exact ⟨_, _, rfl, linked, rfl⟩

theorem MessageAuthor.eq_none {agentId : Option String} {msgId : String}
    (h : E.MessageAuthor name agentId msgId) (hname : name.isSubagent = false) :
    agentId = none := by
  cases h with
  | top _ _ _ => rfl
  | nested _ _ _ _ => cases hname

theorem CallAuthor.eq_none {agentId : Option String} {tc : ToolCallExecution}
    (h : E.CallAuthor name agentId tc) (hname : name.isSubagent = false) : agentId = none := by
  cases h with
  | top _ => rfl
  | nested _ _ => cases hname

theorem WrittenBy.tagged (h : E.WrittenBy name f) (hname : name.isSubagent) :
    f.conversational ∧ ∃ subagentId tag, name.subagent = some subagentId ∧
      E.Linked name subagentId tag ∧ f.field "agentId" = some (.str tag) := by
  cases h with
  | user _ own _ _ _ => simp [own] at hname
  | anchor author _ _ _ =>
      obtain ⟨subagentId, tag, hs, hl, ht⟩ := author.linked hname
      refine ⟨rfl, subagentId, tag, hs, hl, ?_⟩
      rw [field_upsertFrame, messageRow_agentId, author.agentField, ht]
      rfl
  | chunk author _ _ _ =>
      obtain ⟨subagentId, tag, hs, hl, ht⟩ := author.linked hname
      refine ⟨rfl, subagentId, tag, hs, hl, ?_⟩
      rw [field_upsertFrame, chunkRow_agentId, author.agentField, ht]
      rfl
  | started author _ =>
      obtain ⟨subagentId, tag, hs, hl, ht⟩ := author.linked hname
      refine ⟨rfl, subagentId, tag, hs, hl, ?_⟩
      rw [field_upsertFrame, startedRow_agentId, ht]
      rfl
  | settled author _ _ =>
      obtain ⟨subagentId, tag, hs, hl, ht⟩ := author.linked hname
      refine ⟨rfl, subagentId, tag, hs, hl, ?_⟩
      rw [field_upsertFrame, resultRow_agentId, ht]
      rfl
  | custom _ _ => cases hname
  | state _ => cases hname

theorem WrittenBy.untagged (h : E.WrittenBy name f) (hname : name.isSubagent = false)
    (hconv : f.conversational) : f.field "agentId" = none := by
  cases h with
  | user _ _ _ _ _ => exact userRow_agentId _ _ _ _ _ _ _
  | anchor author _ _ _ =>
      rw [field_upsertFrame, messageRow_agentId, author.eq_none hname]
      rfl
  | chunk author _ _ _ =>
      rw [field_upsertFrame, chunkRow_agentId, author.eq_none hname]
      rfl
  | started author _ =>
      rw [field_upsertFrame, startedRow_agentId, author.eq_none hname]
      rfl
  | settled author _ _ =>
      rw [field_upsertFrame, resultRow_agentId, author.eq_none hname]
      rfl
  | custom _ row =>
      cases row with
      | _ => cases hconv
  | state _ => cases hconv

end Setting

/-- The link of the subagent stood in a state the schedule passes through. -/
def LinkedBefore (c₀ : System) (ps : List Pick) (subagentId tag : String) : Prop :=
  ∃ w, c₀.Visits ps w ∧ w.self.subagentToolCall.get subagentId = some tag

/-- A `subagent_start` payload on the custom projection or on a nested one. -/
def StartPayload (rt : Runtime) (activities : List Activity) (subagentId tag : String) : Prop :=
  ∃ name payload, drains rt activities name (.payload (.dict payload)) ∧
    StartsSubagent payload subagentId tag

/-- What one step of a task adds to the stream and leaves of the salvage view. -/
structure KeepsApart (rt : Runtime) (activities : List Activity) (c₀ : System) (ps : List Pick)
    (name : TaskName) (w w' : World) (frames : List Frame) : Prop where
  appended : w'.frames = w.frames ++ frames
  nested : ∀ subagentId, name.subagent = some subagentId → ∀ f ∈ frames,
    f.conversational ∧ ∃ tag, f.field "agentId" = some (.str tag) ∧ tag ≠ "" ∧
      LinkedBefore c₀ ps subagentId tag ∧ StartPayload rt activities subagentId tag
  unlinked : ∀ subagentId, name.subagent = some subagentId →
    (∀ tag, ¬ LinkedBefore c₀ ps subagentId tag) → frames = []
  silent : name.isSubagent → name.subagent = none → frames = []
  main : name.isSubagent = false → ∀ f ∈ frames, f.conversational → f.field "agentId" = none
  salvage : name.isSubagent → w'.self.emittedTurn = w.self.emittedTurn

variable {rt : Runtime} {threadId runId summaryPrefix : String} {s t : ℤ}
  {activities : List Activity}

/-- However the links and the drains interleave, after any schedule the next step keeps the
subagents apart from the main transcript. -/
theorem keepsApart_of_follow {ps : List Pick} {c c' : System} {p : Pick} {name : TaskName}
    (h : (startSystem rt (Translator.seeded threadId runId summaryPrefix s t) activities).follow
      ps = some c)
    (hstep : c.step p = some (name, c')) :
    ∃ frames, KeepsApart rt activities
      (startSystem rt (Translator.seeded threadId runId summaryPrefix s t) activities) ps name
      c.state c'.state frames := by
  have hadvances := advances_of_step (reaches_visits h) hstep (visits_end h)
  obtain ⟨frames, happended, hrows⟩ := hadvances.rows
  let c₀ := startSystem rt (Translator.seeded threadId runId summaryPrefix s t) activities
  have hnested : ∀ f ∈ frames, name.isSubagent → f.conversational ∧ ∃ subagentId tag,
      name.subagent = some subagentId ∧ f.field "agentId" = some (.str tag) ∧ tag ≠ "" ∧
      LinkedBefore c₀ ps subagentId tag ∧ StartPayload rt activities subagentId tag := by
    intro f hf hname
    obtain ⟨hconv, subagentId, tag, hs, hlinked, htag⟩ := (hrows f hf).tagged hname
    obtain ⟨w, hw, hget⟩ := hlinked.1
    exact ⟨hconv, subagentId, tag, hs, htag, hlinked.tag_ne, ⟨w, hw, hget⟩, hlinked.2⟩
  refine ⟨frames, happended, ?_, ?_, ?_, ?_, hadvances.turn⟩
  · intro subagentId hs f hf
    obtain ⟨hconv, other, tag, ho, hrest⟩ := hnested f hf (TaskName.isSubagent_of_subagent hs)
    rw [hs] at ho
    cases ho
    exact ⟨hconv, tag, hrest⟩
  · intro subagentId hs hunlinked
    apply List.eq_nil_iff_forall_not_mem.mpr
    intro f hf
    obtain ⟨_, other, tag, ho, _, _, hlinked, _⟩ :=
      hnested f hf (TaskName.isSubagent_of_subagent hs)
    rw [hs] at ho
    cases ho
    exact hunlinked tag hlinked
  · intro hname hs
    apply List.eq_nil_iff_forall_not_mem.mpr
    intro f hf
    obtain ⟨_, _, _, ho, _⟩ := hnested f hf hname
    rw [hs] at ho
    cases ho
  · exact fun hname f hf hconv => (hrows f hf).untagged hname hconv

/-- A subagent with one message. -/
def answering : List Activity :=
  [.source [.subgraphs, .custom], .custom ⟨[startPayload "sa1" "c1"], none⟩,
    .subgraphs ⟨[.mk (some "subagent") (some "sa1") (some ⟨[modelMessage "n1"], none⟩) none none
      none], none⟩]

/-- Its drain has begun to wait when the link arrives. -/
def lateLink : List Pick := [.run 0, .run 2, .run 3, .run 0, .run 1, .run 3]

def linkedLate : System :=
  (startSystem plainRuntime (Translator.seeded "t" "r" "summarization-" 0 0) answering).after
    (fun _ _ => true) lateLink (by decide)

theorem linkedLate_step : (linkedLate.step (.run 3)).isSome := by decide

theorem keepsApart_of_follow_lateLink :
    let r := (linkedLate.step (.run 3)).get linkedLate_step
    r.1.subagent = some "sa1" ∧ r.2.state.frames.length = 1 ∧
      ∃ frames, KeepsApart plainRuntime answering
        (startSystem plainRuntime (Translator.seeded "t" "r" "summarization-" 0 0) answering)
        lateLink r.1 linkedLate.state r.2.state frames := by
  intro r
  have hstep : linkedLate.step (.run 3) = some (r.1, r.2) :=
    (Option.some_get linkedLate_step).symm
  exact ⟨by decide, by decide, keepsApart_of_follow (follow_after _ _ _) hstep⟩

end StreamDB
