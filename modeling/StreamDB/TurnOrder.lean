import Mathlib.Data.List.Nodup
import StreamDB.CounterInvariant
import StreamDB.ReplayNumbering

/-!
# The order of one turn and the start of the next

A turn numbers its rows from the live start of the prior history; the next turn starts from the
live start of the folded history. The rows of the turn stay below that start exactly when the
rows the folded messages do not represent are no more than the positions counted for them that no
row of the turn took. Rows of subagents are never represented.
-/

namespace StreamDB

open Coroutine FirstSeen

/-- The row keys the live start counts for one message. -/
def slotKeys (summaryPrefix : String) : BaseMessage → List String
  | .human message =>
      if rendersId summaryPrefix message.id then [message.id.getD ""] else []
  | .ai message =>
      (if rendersId summaryPrefix message.id then [message.id.getD ""] else []) ++
        (message.toolCalls.filter ToolCall.keyed).map fun call => call.id.getD ""
  | _ => []

theorem nextLiveOrder_eq_length (messages : List BaseMessage) (summaryPrefix : String) :
    nextLiveOrder messages summaryPrefix =
      (messages.flatMap (slotKeys summaryPrefix)).length := by
  induction messages with
  | nil => rfl
  | cons m messages ih =>
      rw [nextLiveOrder_cons, ih, List.flatMap_cons, List.length_append]
      congr 1
      cases m with
      | human message =>
          by_cases hr : rendersId summaryPrefix message.id
          · simp [slots, skippedCalls, carriesOrdinal, keyedCalls, slotKeys, hr]
          · simp [slots, skippedCalls, carriesOrdinal, keyedCalls, slotKeys, hr]
      | ai message =>
          by_cases hr : rendersId summaryPrefix message.id
          · simp [slots, skippedCalls, carriesOrdinal, keyedCalls, slotKeys, hr,
              List.countP_eq_length_filter, Nat.add_comm]
          · simp [slots, skippedCalls, carriesOrdinal, keyedCalls, slotKeys, hr,
              List.countP_eq_length_filter]
      | tool message => rfl
      | other id => rfl

/-- A turn over the prior history, its run stream included. -/
def translateTurn (rt : Runtime) (threadId runId : String) (priorMessages : List BaseMessage)
    (userId text : String) (attachments : List PyValue) (stream : RunStream) : System :=
  ⟨[(.source, (publishAll stream.events).code),
      (.turn, (runTurn rt userId text attachments stream).code)],
    World.start (Translator.seeded threadId runId summarizationMessageIdPrefix
      (nextLiveOrder priorMessages summarizationMessageIdPrefix)
      (nextLiveOrdinal priorMessages summarizationMessageIdPrefix))⟩

variable {rt : Runtime} {threadId runId : String} {priorMessages : List BaseMessage}
  {userId text : String} {attachments : List PyValue} {stream : RunStream}

theorem counted_of_turn {allowed : TaskName → World → Prop} {c : System}
    (h : Reaches allowed
      (translateTurn rt threadId runId priorMessages userId text attachments stream) c) :
    Counted allowed (nextLiveOrder priorMessages summarizationMessageIdPrefix)
      (nextLiveOrdinal priorMessages summarizationMessageIdPrefix) c.state.ledger := by
  apply run_inv (P := counterProtocol allowed _ _) h (counted_start _ _ _ _ _ _)
  intro thread hm
  simp only [translateTurn, List.mem_cons, List.not_mem_nil, or_false] at hm
  rcases hm with rfl | rfl
  · exact stable_of_preserves (keeps_publishAll _) _
  · exact stable_of_preserves (keeps_runTurn rt _ _ _ _) _

def writtenKeys (w : World) : List String := firstSeen (selectedKeys Frame.placed w.frames)

/-- The ids among them that no folded message represents. -/
def unfoldedKeys (folded : List BaseMessage) (w : World) : List String :=
  (writtenKeys w).filter fun k =>
    k ∉ folded.flatMap (slotKeys summarizationMessageIdPrefix)

/-- The positions counted for the folded messages that no row of the turn took. -/
def spareSlots (folded : List BaseMessage) (w : World) : ℕ :=
  (folded.flatMap (slotKeys summarizationMessageIdPrefix)).length -
    ((writtenKeys w).filter fun k =>
      k ∈ folded.flatMap (slotKeys summarizationMessageIdPrefix)).length

/-- What the next turn needs of the rows of this one. -/
def RowsBelowNextTurn (priorMessages folded : List BaseMessage) (w : World) : Prop :=
  ∀ f ∈ w.frames, f.placed → ∃ o, f.order = some o ∧
    o < nextLiveOrder (priorMessages ++ folded) summarizationMessageIdPrefix

/-- Every top-level row of the turn has a position counted for a folded message. -/
def FoldsTopLevel (folded : List BaseMessage) (w : World) : Prop :=
  ∀ f ∈ w.frames, f.placed → f.untagged →
    f.key ∈ folded.flatMap (slotKeys summarizationMessageIdPrefix)

/-- The steps of all tasks but those that write the rows of a subagent. -/
def noNestedStep : TaskName → World → Prop := fun name _ => name.writesNested = false

theorem length_folded_keys_le (folded : List BaseMessage) (w : World) :
    ((writtenKeys w).filter fun k =>
      k ∈ folded.flatMap (slotKeys summarizationMessageIdPrefix)).length ≤
      (folded.flatMap (slotKeys summarizationMessageIdPrefix)).length := by
  refine (List.subperm_of_subset ((nodup_firstSeen _).filter _) ?_).length_le
  intro k hk
  exact of_decide_eq_true (List.mem_filter.mp hk).2

theorem rowsBelowNextTurn_iff_length {c : System} (folded : List BaseMessage)
    (h : Reaches anyStep
      (translateTurn rt threadId runId priorMessages userId text attachments stream) c) :
    RowsBelowNextTurn priorMessages folded c.state ↔
      (writtenKeys c.state).length ≤
        (folded.flatMap (slotKeys summarizationMessageIdPrefix)).length := by
  have hcounted := (counted_of_turn h).orders
  have hnext := hcounted.next_eq
  change c.state.self.orderSeq = _ + ((writtenKeys c.state).length : ℤ) at hnext
  have happend := nextLiveOrder_append summarizationMessageIdPrefix priorMessages folded
  rw [nextLiveOrder_eq_length folded] at happend
  constructor
  · intro hbelow
    by_cases hempty : (writtenKeys c.state).length = 0
    · omega
    · obtain ⟨f, hf, hsel, hlast⟩ := hcounted.exists_last (by
        change _ < c.state.self.orderSeq
        omega)
      obtain ⟨o, ho, hlt⟩ := hbelow f hf hsel
      rw [hlast] at ho
      have hmax : c.state.self.orderSeq - 1 = o := Option.some.inj ho
      omega
  · intro hle f hf hsel
    obtain ⟨o, ho, _, hlt⟩ := hcounted.number_bounds hf hsel
    refine ⟨o, ho, ?_⟩
    change o < c.state.self.orderSeq at hlt
    omega

theorem rowsBelowNextTurn_iff_unfolded {c : System} (folded : List BaseMessage)
    (h : Reaches anyStep
      (translateTurn rt threadId runId priorMessages userId text attachments stream) c) :
    RowsBelowNextTurn priorMessages folded c.state ↔
      (unfoldedKeys folded c.state).length ≤ spareSlots folded c.state := by
  rw [rowsBelowNextTurn_iff_length folded h]
  have hle := length_folded_keys_le folded c.state
  have hsplit := List.length_eq_length_filter_add (l := writtenKeys c.state)
    fun k => decide (k ∈ folded.flatMap (slotKeys summarizationMessageIdPrefix))
  simp only [unfoldedKeys, spareSlots, decide_not]
  omega

theorem mem_writtenKeys {w : World} {k : String} :
    k ∈ writtenKeys w ↔ ∃ f ∈ w.frames, f.placed ∧ f.key = k := by
  rw [writtenKeys, mem_firstSeen, selectedKeys, List.mem_map]
  simp only [List.mem_filter, and_assoc]

theorem untagged_of_noNestedStep {c : System}
    (h : Reaches noNestedStep
      (translateTurn rt threadId runId priorMessages userId text attachments stream) c) :
    ∀ f ∈ c.state.frames, f.placed → f.untagged := by
  intro f hf hplaced
  cases hun : f.untagged with
  | true => rfl
  | false =>
      obtain ⟨name, w, hnested, hno⟩ := (counted_of_turn h).writer f hf hplaced hun
      rw [noNestedStep, hnested] at hno
      cases hno

theorem unfoldedKeys_eq_nil {folded : List BaseMessage} {w : World}
    (hfolds : FoldsTopLevel folded w) (huntagged : ∀ f ∈ w.frames, f.placed → f.untagged) :
    unfoldedKeys folded w = [] := by
  rw [unfoldedKeys, List.filter_eq_nil_iff]
  intro k hk
  obtain ⟨f, hf, hplaced, rfl⟩ := mem_writtenKeys.mp hk
  have hslot := hfolds f hf hplaced (huntagged f hf hplaced)
  simpa using hslot

/-- In every reachable state of a turn, its rows stay below the start of the next turn if and
only if the ids that no folded message represents are no more than the spare positions. So they
do in every state of a run none of whose steps is one of a subagent's message or tool task. -/
theorem rowsBelowNextTurn_iff {c : System} (folded : List BaseMessage)
    (h : Reaches anyStep
      (translateTurn rt threadId runId priorMessages userId text attachments stream) c) :
    (RowsBelowNextTurn priorMessages folded c.state ↔
        (unfoldedKeys folded c.state).length ≤ spareSlots folded c.state) ∧
      (Reaches noNestedStep
          (translateTurn rt threadId runId priorMessages userId text attachments stream) c →
        FoldsTopLevel folded c.state → RowsBelowNextTurn priorMessages folded c.state) := by
  refine ⟨rowsBelowNextTurn_iff_unfolded folded h, ?_⟩
  intro hrun hfolds
  have hnil := unfoldedKeys_eq_nil hfolds (untagged_of_noNestedStep hrun)
  rw [rowsBelowNextTurn_iff_unfolded folded h, hnil]
  exact Nat.zero_le _

def answerTo (messageId toolCallId : String) : AIMessage where
  id := some messageId
  content := .str ""
  toolCalls := [⟨some toolCallId, .str "search", .dict []⟩]

def delegation : RunStream where
  events := [.messages, .toolCalls, .custom, .subgraphs]
  messages := ⟨[modelMessage "m1"], none⟩
  custom := ⟨[.dict [("content_type", .str "subagent_start"), ("subagent_id", .str "sa1"),
    ("tool_call_id", .str "c1")]], none⟩
  toolCalls := ⟨[searchCall "c1"], none⟩
  subgraphs := ⟨[.mk (some "subagent") (some "sa1") (some ⟨[modelMessage "n1"], none⟩) none none
    none], none⟩
  values := ⟨[], none⟩

def delegated : System :=
  (translateTurn plainRuntime "t" "r" [] "u1" "hi" [] delegation).after (fun _ _ => true)
    [.run 0, .run 0, .run 0, .run 0, .run 1, .run 1, .run 2, .run 3, .run 4, .run 7, .run 5,
      .run 8, .run 8, .run 8] (by decide)

def delegationFolded : List BaseMessage :=
  [.human ⟨some "u1", .str "hi", []⟩, .ai (answerTo "m1" "c1")]

theorem rowsBelowNextTurn_iff_delegated :
    (unfoldedKeys delegationFolded delegated.state = ["n1"] ∧
        spareSlots delegationFolded delegated.state = 0) ∧
      ((RowsBelowNextTurn [] delegationFolded delegated.state ↔
          (unfoldedKeys delegationFolded delegated.state).length ≤
            spareSlots delegationFolded delegated.state) ∧
        (Reaches noNestedStep
            (translateTurn plainRuntime "t" "r" [] "u1" "hi" [] delegation) delegated →
          FoldsTopLevel delegationFolded delegated.state →
          RowsBelowNextTurn [] delegationFolded delegated.state)) :=
  ⟨by decide, rowsBelowNextTurn_iff delegationFolded (reaches_after (fun _ _ _ => trivial) _ _ _)⟩

/-- The assistant messages of a turn, ids kept, with the calls the turn executed. -/
structure AnswersOf (userId : String) (w : World) (answers : List AIMessage) : Prop where
  messages : ∀ f ∈ w.frames, f.transcript →
    f.key = userId ∨ ∃ answer ∈ answers, answer.id = some f.key
  calls : ∀ f ∈ w.frames, f.type = .tool → f.untagged →
    ∃ answer ∈ answers, ∃ call ∈ answer.toolCalls, call.id = some f.key

theorem not_rowsBelowNextTurn :
    ¬ ∀ (rt : Runtime) (threadId runId : String) (priorMessages : List BaseMessage)
      (userId text : String) (attachments : List PyValue) (stream : RunStream) (c : System)
      (user : HumanMessage) (answers : List AIMessage),
      Reaches anyStep
        (translateTurn rt threadId runId priorMessages userId text attachments stream) c →
      user.id = some userId → AnswersOf userId c.state answers →
      RowsBelowNextTurn priorMessages (.human user :: answers.map .ai) c.state := by
  intro h
  have hanswers : AnswersOf "u1" delegated.state [answerTo "m1" "c1"] := ⟨by decide, by decide⟩
  have hbelow := h plainRuntime "t" "r" [] "u1" "hi" [] delegation delegated
    ⟨some "u1", .str "hi", []⟩ [answerTo "m1" "c1"] (reaches_after (fun _ _ _ => trivial) _ _ _)
    rfl hanswers
  have hnested : (.message, false, "n1", some 3) ∈ delegated.state.frames.map Frame.placement := by
    decide
  obtain ⟨f, hf, htype, _, _, hfo⟩ := exists_frame_of_placement hnested
  obtain ⟨o, ho, hlt⟩ := hbelow f hf (by simp [Frame.placed, htype])
  have hstart : nextLiveOrder
      ([] ++ BaseMessage.human ⟨some "u1", .str "hi", []⟩ :: [answerTo "m1" "c1"].map .ai)
      summarizationMessageIdPrefix = 3 := by decide
  rw [hstart] at hlt
  rw [hfo] at ho
  cases ho
  omega

end StreamDB
