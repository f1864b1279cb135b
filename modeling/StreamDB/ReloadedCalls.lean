import StreamDB.CallResults
import StreamDB.ToolRows
import StreamDB.TranslatedCalls

/-!
# The row of a call

By the end of a run a client has of a call of the graph what the replay of the history writes for
it: no result where the run left the call without one, and that of the history where it settled.
Only the place of the row and the text of empty arguments may differ.
-/

namespace StreamDB

open Coroutine

/-- A row without a result differs from the replayed one in the text of the arguments alone. -/
theorem sameButOrder_started_iff (rt : Runtime) (threadId : String) (tc : ToolCallExecution)
    (order : ℤ) (order' : ℕ) :
    SameButOrder (startedRow rt threadId none tc order)
        (callRow rt threadId tc.toolCallId tc.recorded order') ↔
      argsText rt tc = toAgUiJson rt tc.input := by
  simp only [SameButOrder, startedRow, callRow, OrderedDict.ofEntries, OrderedDict.get_set,
    OrderedDict.get_setSome, List.foldl_cons, List.foldl_nil, Option.map_none, Option.none_or,
    OrderedDict.get_empty, ite_self, ToolCallExecution.recorded]
  constructor
  · intro h
    simpa using h "argsText" (by decide)
  · intro h field hfield
    rw [h]
    simp [hfield.symm]

/-- The results a history has of a call that shows this settlement, or none. -/
inductive Answered : Option ToolSettlement → List ToolMessage → Prop
  | unsettled : Answered none []
  | settled {settlement : ToolSettlement} {result : ToolMessage} (h : Settles settlement result) :
      Answered (some settlement) [result]

def shownRow (rt : Runtime) (threadId : String) (tc : ToolCallExecution) (order : ℤ) :
    Option ToolSettlement → Row
  | none => startedRow rt threadId none tc order
  | some settlement => resultRow rt threadId none tc order settlement

theorem sameButOrder_shownRow_iff (rt : Runtime) (threadId : String) (tc : ToolCallExecution)
    (order : ℤ) (order' : ℕ) {shown : Option ToolSettlement} {results : List ToolMessage}
    (h : Answered shown results) :
    SameButOrder (shownRow rt threadId tc order shown)
        (settle rt (callRow rt threadId tc.toolCallId tc.recorded order') results) ↔
      (tc.input.truthy ∨ rt.toJson tc.input = "") := by
  rw [← argsText_eq_iff]
  cases h with
  | unsettled => exact sameButOrder_started_iff rt threadId tc order order'
  | @settled settlement result h =>
      let tc' : ToolCallExecution := { tc with settled := settlement }
      have hsettles : Settles tc'.settled result := h
      exact sameButOrder_iff rt threadId hsettles order order'

theorem CallEnd.exists_shown {rt : Runtime} {threadId : String} {tc : ToolCallExecution}
    {agentId : Option String} {failure : Option PyException} {frames : List Frame} {row : Row}
    (h : CallEnd rt threadId tc agentId failure frames)
    (hrow : frames.getLast?.bind Frame.value = some row) (htop : row.get "agentId" = none) :
    ∃ order shown, row = shownRow rt threadId tc order shown ∧
      ∀ settlement, shown = some settlement → tc.Settles settlement := by
  have untagged_of_started : ∀ order,
      (startedRow rt threadId agentId tc order).get "agentId" = none → agentId = none := by
    intro order hnone
    rw [startedRow_agentId] at hnone
    exact Option.map_eq_none_iff.mp hnone
  cases h with
  | paused order _ _ =>
      cases hrow
      obtain rfl := untagged_of_started order htop
      exact ⟨order, none, rfl, fun _ h => by cases h⟩
  | broken order _ =>
      cases hrow
      obtain rfl := untagged_of_started order htop
      exact ⟨order, none, rfl, fun _ h => by cases h⟩
  | @settled order settlement shows _ =>
      cases hrow
      rw [resultRow_agentId] at htop
      obtain rfl := Option.map_eq_none_iff.mp htop
      refine ⟨order, some settlement, rfl, fun _ h => ?_⟩
      cases h
      exact shows

theorem CallRun.exists_shown {r : CallRun} (hended : r.Ended) {row : Row}
    (hrow : r.frames.getLast?.bind Frame.value = some row) (htop : row.get "agentId" = none) :
    ∃ order shown, row = shownRow r.rt r.threadId r.tc order shown ∧
      ∀ settlement, shown = some settlement → r.tc.Settles settlement := by
  obtain ⟨failure, hends, -⟩ := TranslatorRun.ends_of_ended r.inCustody hended
  rcases hends with ⟨subagentId, -, -, -, hnil⟩ | ⟨name, agentId, -, hend⟩
  · -- The link of the subagent never landed, and its rows are skipped.
    change r.frames = [] at hnil
    rw [hnil] at hrow
    cases hrow
  · exact CallEnd.exists_shown hend hrow htop

/-- What a client has of a call of the graph is what the replay writes for it. -/
theorem row_of_callRun {r : CallRun} (hended : r.Ended) (hkey : r.tc.toolCallId ≠ "")
    {before after : List Frame} (hbefore : framesOfCall r.tc.toolCallId before = [])
    (hafter : framesOfCall r.tc.toolCallId after = []) {row : Row}
    (hrow : (collection .tool (before ++ r.final.state.frames ++ after)).get r.tc.toolCallId =
      some row) (htop : row.get "agentId" = none) :
    ∃ order shown, row = shownRow r.rt r.threadId r.tc order shown ∧
      (∀ settlement, shown = some settlement → r.tc.Settles settlement) ∧
      ∀ (summaryPrefix : String) (messages : List BaseMessage) (maxTurns : Option ℤ)
        (results : List ToolMessage), Answered shown results →
        LastRequest summaryPrefix r.tc.toolCallId (replayWindow messages maxTurns) r.tc.recorded
          results →
        ∃ row', (collection .tool (replayHistory r.rt r.threadId messages maxTurns
            summaryPrefix).frames).get r.tc.toolCallId = some row' ∧
          (SameButOrder row row' ↔ (r.tc.input.truthy ∨ r.rt.toJson r.tc.input = "")) := by
  have hown : (framesOfCall r.tc.toolCallId
      (before ++ r.final.state.frames ++ after)).getLast?.bind Frame.value = some row :=
    (get_collection .tool _ _).symm.trans hrow
  rw [framesOfCall_append, framesOfCall_append, hbefore, hafter, List.nil_append,
    List.append_nil] at hown
  obtain ⟨order, shown, rfl, hshown⟩ := CallRun.exists_shown hended hown htop
  refine ⟨order, shown, rfl, hshown,
    fun summaryPrefix messages maxTurns results hanswered hlast => ?_⟩
  obtain ⟨order', hreplayed⟩ := hlast.toolRow r.rt r.threadId hkey
  exact ⟨_, (get_collection_replayHistory ..).trans hreplayed,
    sameButOrder_shownRow_iff r.rt r.threadId r.tc order order' hanswered⟩

/-- A call that settles the same way whether its deltas end or not. -/
def quickCall : ToolCallExecution :=
  { settledCall "c1" (.dict [("q", .str "x")]) with
    unsettled := (settledCall "c1" (.dict [("q", .str "x")])).settled }

def searching : List Activity :=
  [.source [.toolCalls], .toolCalls ⟨[quickCall], none⟩]

def searched : CallRun where
  rt := plainRuntime
  threadId := "t"
  runId := "r"
  summaryPrefix := "summarization-"
  orderStart := 0
  ordinalStart := 0
  activities := searching
  schedule := [.run 0, .run 1, .run 2, .run 2, .run 2, .run 2]
  final := (startSystem plainRuntime (Translator.seeded "t" "r" "summarization-" 0 0)
    searching).after (fun _ _ => true) [.run 0, .run 1, .run 2, .run 2, .run 2, .run 2] (by decide)
  follows := follow_after _ _ _
  tc := quickCall
  alone := rfl

def searchedHistory : List BaseMessage :=
  [.ai ⟨some "a1", .str "", [quickCall.recorded]⟩, .tool (settledResult "c1")]

theorem lastRequest_searchedHistory :
    LastRequest "summarization-" "c1" searchedHistory quickCall.recorded [settledResult "c1"] :=
  @LastRequest.mk "summarization-" "c1" [] _ ⟨some "a1", .str "", [quickCall.recorded]⟩ [] [] _
    (by decide) rfl rfl (by simp) (by simp [RendersRequest])

theorem row_of_callRun_searched :
    ∃ row row',
      (collection .tool ([] ++ searched.final.state.frames ++ [])).get "c1" = some row ∧
      (collection .tool (replayHistory plainRuntime "t" searchedHistory none
        "summarization-").frames).get "c1" = some row' ∧
      SameButOrder row row' := by
  have hended : searched.Ended := ⟨by simp [searched], by decide⟩
  have hfound : ∃ row,
      (collection .tool ([] ++ searched.final.state.frames ++ [])).get "c1" = some row ∧
        (row.get "result").isSome ∧ row.get "agentId" = none := ⟨_, rfl, rfl, rfl⟩
  obtain ⟨row, hget, hresult, htop⟩ := hfound
  obtain ⟨order, shown, hrow, hshown, hreplayed⟩ := row_of_callRun hended (by decide)
    rfl rfl hget htop
  have hfinal : shown = some quickCall.settled := by
    cases shown with
    | none =>
        rw [hrow] at hresult
        cases hresult
    | some settlement =>
        cases hshown settlement rfl with
        | drained => rfl
        | gaveUp => rfl
  obtain ⟨row', hrow', hsame⟩ := hreplayed "summarization-" searchedHistory none
    [settledResult "c1"] (hfinal ▸ .settled (.success rfl rfl rfl)) lastRequest_searchedHistory
  exact ⟨row, row', hget, hrow', hsame.mpr (.inl rfl)⟩

end StreamDB
