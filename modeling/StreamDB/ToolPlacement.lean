import StreamDB.CounterInvariant

/-!
# Tool rows and the messages that request them

One source fills the message buffer and the tool-call buffer, and each buffer is drained by a
task of its own. A tool row sorts after the message that requests the call as long as the call is
only taken up once that message has its place. Nothing makes it wait for that.
-/

namespace StreamDB

open Coroutine

inductive SourceItem where
  | message (message : ModelMessage)
  /-- A call, with the id of the message that requests it. -/
  | toolCall (requestedBy : String) (call : ToolCallExecution)

namespace SourceItem

def projection : SourceItem → Projection
  | message _ => .messages
  | toolCall _ _ => .toolCalls

def message? : SourceItem → Option ModelMessage
  | message m => some m
  | toolCall _ _ => none

def toolCall? : SourceItem → Option ToolCallExecution
  | message _ => none
  | toolCall _ tc => some tc

end SourceItem

/-- The two drains over the buffers a source fills. -/
def drainSystem (rt : Runtime) (t : Translator) (source : List SourceItem) : System :=
  startSystem rt t
    [.source (source.map SourceItem.projection),
      .messages ⟨source.filterMap SourceItem.message?, none⟩,
      .toolCalls ⟨source.filterMap SourceItem.toolCall?, none⟩]

def Requests (source : List SourceItem) (msgId toolCallId : String) : Prop :=
  ∃ tc, .toolCall msgId tc ∈ source ∧ tc.toolCallId = toolCallId

/-- Every call comes after a top-level model message with the id that requests it. -/
def RequestsFirst (summaryPrefix : String) (source : List SourceItem) : Prop :=
  ∀ (i : ℕ) (msgId : String) (tc : ToolCallExecution), source[i]? = some (.toolCall msgId tc) →
    msgId ≠ "" ∧ ∃ j < i, ∃ message, source[j]? = some (.message message) ∧
      message.messageId = some msgId ∧ rendersMessage summaryPrefix message

/-- A call without a row is taken up when every message that requests it has its place. Where
another row has been given the place of its id, that comes after theirs. -/
def RequestPlaced (source : List SourceItem) : TaskName → World → Prop
  | .toolCall tc, w => Unwritten tc.toolCallId w.frames →
      ∀ msgId, Requests source msgId tc.toolCallId →
        ∃ o, w.self.orderByKey.get msgId = some o ∧
          ∀ o', w.self.orderByKey.get tc.toolCallId = some o' → o < o'
  | _, _ => True

variable {rt : Runtime} {threadId runId summaryPrefix : String} {s t : ℤ}

/-- In every run in which calls are only taken up once their messages are placed, tool rows sort
after the messages that request them. -/
theorem tool_after_message_of_reaches {source : List SourceItem} {c : System}
    (h : Reaches (RequestPlaced source)
      (drainSystem rt (Translator.seeded threadId runId summaryPrefix s t) source) c) :
    ∀ f ∈ c.state.frames, f.type = .tool → f.untagged →
      ∀ g ∈ c.state.frames, g.transcript → Requests source g.key f.key →
        ∃ o o', g.order = some o ∧ f.order = some o' ∧ o < o' := by
  have hcounted := counted_of_reaches h
  intro f hf htype hun g hg htranscript hreq
  have hgplaced : g.placed := Frame.placed_of_transcript htranscript
  obtain ⟨o', hfo, hfget⟩ := hcounted.orders.stamped f hf (by simp [Frame.placed, htype])
  obtain ⟨og, hgo, hgget⟩ := hcounted.orders.stamped g hg hgplaced
  -- The place of the call was drawn, or taken over, where its first row was written.
  obtain ⟨tc, w, htc, hallowed, hunwritten, hnum, hext⟩ := hcounted.drawn f hf htype hun
  rw [← htc] at hreq hfget hunwritten
  obtain ⟨o, hget, hlt⟩ := hallowed hunwritten g.key hreq
  have hsame : og = o := Option.some.inj (hgget.symm.trans (hext _ _ hget))
  refine ⟨o, o', hsame ▸ hgo, hfo, ?_⟩
  exact hnum.lt_of_extends hcounted.orders.numbered hext hget hlt hfget

def oneRequest : List SourceItem := [.message (modelMessage "m1"), .toolCall "m1" (searchCall "c1")]

theorem requests_oneRequest {msgId toolCallId : String}
    (h : Requests oneRequest msgId toolCallId) : msgId = "m1" ∧ toolCallId = "c1" := by
  obtain ⟨tc, hm, rfl⟩ := h
  simp only [oneRequest, List.mem_cons, reduceCtorEq, SourceItem.toolCall.injEq, false_or,
    List.not_mem_nil, or_false] at hm
  obtain ⟨rfl, rfl⟩ := hm
  exact ⟨rfl, rfl⟩

/-- The condition on `oneRequest`, as a check. -/
def oneRequestPlaced : TaskName → World → Bool
  | .toolCall _, w =>
      w.frames.any (fun f => f.type = .tool && f.untagged && f.key = "c1") ||
        (w.self.orderByKey.get "m1").isSome && (w.self.orderByKey.get "c1").isNone
  | _, _ => true

theorem requestPlaced_of_oneRequestPlaced (name : TaskName) (w : World)
    (h : oneRequestPlaced name w) : RequestPlaced oneRequest name w := by
  cases name with
  | toolCall tc =>
      intro hunwritten msgId hreq
      obtain ⟨rfl, htc⟩ := requests_oneRequest hreq
      rw [htc] at hunwritten ⊢
      rcases Bool.or_eq_true_iff.mp h with hwritten | hplaced
      · obtain ⟨f, hf, hrow⟩ := List.any_eq_true.mp hwritten
        simp only [Bool.and_eq_true, decide_eq_true_eq] at hrow
        exact absurd hrow.2 (hunwritten f hf hrow.1.1 hrow.1.2)
      · rw [Bool.and_eq_true, Option.isNone_iff_eq_none] at hplaced
        obtain ⟨o, ho⟩ := Option.isSome_iff_exists.mp hplaced.1
        refine ⟨o, ho, fun o' hc => ?_⟩
        rw [hplaced.2] at hc
        cases hc
  | _ => trivial

theorem tool_after_message_of_reaches_oneRequest :
    let c := (drainSystem plainRuntime (Translator.seeded "t" "r" "summarization-" 0 0)
      oneRequest).after oneRequestPlaced
        [.run 0, .run 0, .run 1, .run 2, .run 3, .run 3, .run 3] (by decide)
    c.state.frames.map Frame.order = [some 0, some 1, some 1] ∧
      ∀ f ∈ c.state.frames, f.type = .tool → f.untagged →
        ∀ g ∈ c.state.frames, g.transcript → Requests oneRequest g.key f.key →
          ∃ o o', g.order = some o ∧ f.order = some o' ∧ o < o' :=
  ⟨by decide, tool_after_message_of_reaches
    (reaches_after requestPlaced_of_oneRequestPlaced _ _ _)⟩

def lateRequest : List SourceItem :=
  [.message (modelMessage "m1"), .message (modelMessage "m2"), .toolCall "m2" (searchCall "c2")]

theorem requestsFirst_lateRequest : RequestsFirst "summarization-" lateRequest := by
  intro i msgId tc hi
  match i with
  | 0 => cases hi
  | 1 => cases hi
  | 2 =>
      cases hi
      exact ⟨by decide, 1, by decide, modelMessage "m2", rfl, rfl, by decide⟩
  | i + 3 => cases hi

/-- The message drain is still busy with the first message when the call that the second one
requests draws its place. -/
def overtaken : System :=
  (drainSystem plainRuntime (Translator.seeded "t" "r" "summarization-" 0 0) lateRequest).after
    (fun _ _ => true) [.run 0, .run 0, .run 0, .run 1, .run 2, .run 3, .run 1, .run 1] (by decide)

theorem not_tool_after_message :
    ¬ ∀ (rt : Runtime) (threadId runId summaryPrefix : String) (s t : ℤ)
      (source : List SourceItem), RequestsFirst summaryPrefix source →
      ∀ c, Reaches anyStep
        (drainSystem rt (Translator.seeded threadId runId summaryPrefix s t) source) c →
      ∀ f ∈ c.state.frames, f.type = .tool → f.untagged →
        ∀ g ∈ c.state.frames, g.transcript → Requests source g.key f.key →
          ∃ o o', g.order = some o ∧ f.order = some o' ∧ o < o' := by
  intro h
  have htool : (.tool, true, "c2", some 1) ∈ overtaken.state.frames.map Frame.placement := by
    decide
  have hmessage : (.message, true, "m2", some 2) ∈
      overtaken.state.frames.map Frame.placement := by
    decide
  obtain ⟨f, hf, htype, hun, hfkey, hfo⟩ := exists_frame_of_placement htool
  obtain ⟨g, hg, hgtype, hgun, hgkey, hgo⟩ := exists_frame_of_placement hmessage
  have hreq : Requests lateRequest g.key f.key := by
    rw [hgkey, hfkey]
    exact ⟨searchCall "c2", by simp [lateRequest], rfl⟩
  obtain ⟨o, o', ho, ho', hlt⟩ := h plainRuntime "t" "r" "summarization-" 0 0 lateRequest
    requestsFirst_lateRequest overtaken (reaches_after (fun _ _ _ => trivial) _ _ _) f hf htype hun
    g hg (by simp [Frame.transcript, hgtype, hgun]) hreq
  rw [hgo] at ho
  rw [hfo] at ho'
  cases ho
  cases ho'
  omega

end StreamDB
