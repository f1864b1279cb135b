import StreamDB.SeededHistory

/-!
# Live and replayed tool rows

The row a live call ends with and the row the replay writes for the recorded call come from two
builders. They agree in every field but `order`, except for the text of empty arguments.
-/

namespace StreamDB

open Coroutine

def lastToolRow (frames : List Frame) (key : String) : Option Row :=
  (frames.filter fun f => f.type = .tool && f.key = key).getLast?.bind Frame.value

def SameButOrder (row row' : Row) : Prop :=
  ∀ field, field ≠ "order" → row.get field = row'.get field

variable (rt : Runtime)

/-! ## The live row -/

def newFrames (w w' : World) : List Frame := w'.frames.drop w.frames.length

/-- What the task of a call hands to the writer, when its blocks start in the given worlds. -/
def callFrames (tc : ToolCallExecution) (starts : List World) : List Frame :=
  match (consumeToolCallExecution rt tc).code.blocks starts with
  | some (ends, _) => (List.zipWith newFrames starts ends).flatten
  | none => []

/-- A call that has drained its deltas and is not paused writes two rows, whatever the other
tasks do in between. -/
theorem callFrames_of_settled {tc : ToolCallExecution} (hdeltas : tc.deltasError = none)
    (hpause : isInterruptError tc.settled.error = false) (w₀ w₁ w₂ w₃ : World) :
    ∃ order, callFrames rt tc [w₀, w₁, w₂, w₃] =
      [upsertFrame .tool tc.toolCallId (startedRow rt w₀.self.threadId none tc order) none,
        upsertFrame .tool tc.toolCallId (resultRow rt w₀.self.threadId none tc order tc.settled)
          (resultTxid (toAgUiToolName rt tc.toolName) tc.toolCallId)] := by
  simp only [callFrames, consumeToolCallExecution, projectToolCall, drainOutputDeltas, updateSelf,
    onSelf, readSelf, upsert, Proc.code, Proc.bind_apply, Proc.pure_apply, Proc.atomically,
    Proc.suspend, Proc.awaitingOr, Code.blocks, Code.resume, Code.block, hdeltas, hpause, if_true,
    Bool.false_eq_true, if_false, Option.map_some, List.zipWith, List.flatten, newFrames,
    World.write, List.drop_left, List.drop_length]
  exact ⟨_, rfl⟩

theorem lastToolRow_callFrames {tc : ToolCallExecution} (hdeltas : tc.deltasError = none)
    (hpause : isInterruptError tc.settled.error = false) (w₀ w₁ w₂ w₃ : World) :
    ∃ order, lastToolRow (callFrames rt tc [w₀, w₁, w₂, w₃]) tc.toolCallId =
      some (resultRow rt w₀.self.threadId none tc order tc.settled) := by
  obtain ⟨order, hframes⟩ := callFrames_of_settled rt hdeltas hpause w₀ w₁ w₂ w₃
  refine ⟨order, ?_⟩
  rw [hframes]
  simp [lastToolRow, upsertFrame, changeEvent]

/-! ## The replayed row -/

def KeyedRows (st : ReplayState) : Prop :=
  ∀ k row, st.toolRows.get k = some row → rowText row "id" = k ∧ k ≠ ""

theorem rowText_callRow (threadId id : String) (call : ToolCall) (order : ℕ) :
    rowText (callRow rt threadId id call order) "id" = id := by
  simp [rowText, callRow, OrderedDict.ofEntries, OrderedDict.get_set]

theorem settledRow_id (row : Row) (message : ToolMessage) :
    (settledRow rt row message).get "id" = row.get "id" := by
  unfold settledRow
  split_ifs
  · rw [OrderedDict.get_set_of_ne _ _ (by decide), OrderedDict.get_set_of_ne _ _ (by decide)]
  · rw [OrderedDict.get_set_of_ne _ _ (by decide)]

theorem rowText_settledRow (row : Row) (message : ToolMessage) :
    rowText (settledRow rt row message) "id" = rowText row "id" := by
  rw [rowText, rowText, settledRow_id]

theorem keyedRows_replayCall {st : ReplayState} (h : KeyedRows st) (threadId : String)
    (call : ToolCall) : KeyedRows (replayCall rt threadId st call) := by
  by_cases hk : call.keyed
  · intro k row hget
    simp only [replayCall, hk, if_true] at hget
    rw [OrderedDict.get_set] at hget
    split_ifs at hget with hid
    · rw [← Option.some.inj hget, rowText_callRow, ← hid]
      exact ⟨rfl, by simpa [ToolCall.keyed] using hk⟩
    · exact h k row hget
  · simpa only [replayCall, hk, Bool.false_eq_true, if_false] using h

theorem keyedRows_replayCalls {st : ReplayState} (h : KeyedRows st) (threadId : String)
    (calls : List ToolCall) : KeyedRows (calls.foldl (replayCall rt threadId) st) := by
  induction calls generalizing st with
  | nil => exact h
  | cons call calls ih => exact ih (keyedRows_replayCall rt h threadId call)

theorem keyedRows_replayMessage {st : ReplayState} (h : KeyedRows st)
    (threadId summaryPrefix : String) (m : BaseMessage) :
    KeyedRows (replayMessage rt threadId summaryPrefix st m) := by
  cases m with
  | human message =>
      by_cases hr : rendersId summaryPrefix message.id
      · simp only [replayMessage, hr, if_true]
        exact h
      · simpa only [replayMessage, hr, Bool.false_eq_true, if_false] using h
  | ai message =>
      by_cases hr : rendersId summaryPrefix message.id
      · simp only [replayMessage, hr, if_true]
        exact @keyedRows_replayCalls rt (st.putMessage _ _) h threadId _
      · simpa only [replayMessage, hr, Bool.false_eq_true, if_false] using h
  | tool message =>
      cases hrow : st.toolRows.get message.toolCallId with
      | none => simpa only [replayMessage, hrow] using h
      | some row =>
          intro k row' hget
          simp only [replayMessage, hrow] at hget
          rw [OrderedDict.get_set] at hget
          split_ifs at hget with hk
          · rw [← Option.some.inj hget, rowText_settledRow, ← hk]
            exact h _ _ hrow
          · exact h k row' hget
  | other id => exact h

theorem keyedRows_replayMessages (threadId summaryPrefix : String) (messages : List BaseMessage) :
    KeyedRows (replayMessages rt threadId summaryPrefix messages) := by
  have hfold : ∀ st, KeyedRows st →
      KeyedRows (messages.foldl (replayMessage rt threadId summaryPrefix) st) := by
    induction messages with
    | nil => exact fun _ h => h
    | cons m messages ih =>
        exact fun st h => ih _ (keyedRows_replayMessage rt h threadId summaryPrefix m)
  exact hfold _ fun _ _ hget => nomatch hget

theorem replayCalls_get_of_ne (threadId : String) {calls : List ToolCall} {k : String}
    (hk : k ≠ "") (hcalls : ∀ call ∈ calls, call.id ≠ some k) (st : ReplayState) :
    (calls.foldl (replayCall rt threadId) st).toolRows.get k = st.toolRows.get k := by
  induction calls generalizing st with
  | nil => rfl
  | cons call calls ih =>
      rw [List.foldl_cons, ih fun other hm => hcalls other (List.mem_cons_of_mem _ hm)]
      have hne := hcalls call List.mem_cons_self
      by_cases hkeyed : call.keyed
      · simp only [replayCall, hkeyed, if_true]
        apply OrderedDict.get_set_of_ne
        intro hid
        cases hcall : call.id with
        | none => exact hk (by rw [← hid, hcall]; rfl)
        | some id => exact hne (by rw [hcall, ← hid, hcall]; rfl)
      · simp only [replayCall, hkeyed, Bool.false_eq_true, if_false]

theorem lastToolRow_toolFrames {st : ReplayState} (hmessages : ∀ f ∈ st.frames, f.type = .message)
    (hkeyed : KeyedRows st) (k : String) :
    lastToolRow (st.frames ++ toolFrames st.toolRows) k = st.toolRows.get k := by
  have hold : (st.frames.filter fun f => f.type = .tool && f.key = k) = [] := by
    rw [List.filter_eq_nil_iff]
    intro f hf
    simp [hmessages f hf]
  have hnew : ((toolFrames st.toolRows).filter fun f => f.type = .tool && f.key = k) =
      (st.toolRows.entries.filter fun e => e.1 = k).map
        fun e => upsertFrame .tool (rowText e.2 "id") e.2 none := by
    rw [toolFrames, OrderedDict.values, List.map_map, List.filter_map]
    congr 1
    apply List.filter_congr
    intro e he
    have hid := (hkeyed e.1 e.2 (OrderedDict.mem_entries_iff.mp he)).1
    simp [upsertFrame, changeEvent, hid]
  rw [lastToolRow, List.filter_append, hold, hnew, List.nil_append]
  cases hget : st.toolRows.get k with
  | some row =>
      rw [OrderedDict.filter_entries_of_get hget]
      rfl
  | none =>
      rw [List.filter_eq_nil_iff.mpr]
      · rfl
      · intro e he hk
        rw [decide_eq_true_eq] at hk
        exact OrderedDict.get_eq_none.mp hget (List.mem_map.mpr ⟨e, he, hk⟩)

theorem replayMessage_tool_of_get {st : ReplayState} {result : ToolMessage} {row : Row}
    (hrow : st.toolRows.get result.toolCallId = some row) (threadId summaryPrefix : String) :
    (replayMessage rt threadId summaryPrefix st (.tool result)).toolRows.get result.toolCallId =
      some (settledRow rt row result) := by
  simp only [replayMessage, hrow]
  exact OrderedDict.get_set_self _ _ _

/-- The replay writes the tool rows it has kept, each under its key. -/
theorem lastToolRow_replayHistory (threadId summaryPrefix : String) (messages : List BaseMessage)
    (k : String) :
    lastToolRow (replayHistory rt threadId messages none summaryPrefix).frames k =
      (replayMessages rt threadId summaryPrefix messages).toolRows.get k := by
  have hbelow := rowsBelow_replayMessages rt threadId summaryPrefix messages
  exact lastToolRow_toolFrames (fun f hf => (hbelow.messages f hf).1)
    (keyedRows_replayMessages rt threadId summaryPrefix messages) k

def ToolCallExecution.recorded (tc : ToolCallExecution) : ToolCall where
  id := some tc.toolCallId
  name := tc.toolName
  args := tc.input

section Recorded

variable {tc : ToolCallExecution} {message : AIMessage} {before after : List ToolCall}
  {result : ToolMessage} (threadId summaryPrefix : String)

theorem replayed_row_of_rendered (hcalls : message.toolCalls = before ++ tc.recorded :: after)
    (hafter : ∀ call ∈ after, call.id ≠ some tc.toolCallId)
    (hid : result.toolCallId = tc.toolCallId) (hr : rendersId summaryPrefix message.id)
    (hne : tc.toolCallId ≠ "") :
    ∃ order, lastToolRow
        (replayHistory rt threadId [.ai message, .tool result] none summaryPrefix).frames
        tc.toolCallId =
      some (settledRow rt (callRow rt threadId tc.toolCallId tc.recorded order) result) := by
  let st := before.foldl (replayCall rt threadId)
    (ReplayState.initial.putMessage (message.id.getD "")
      (aiRow rt threadId (message.id.getD "") message .initial))
  refine ⟨st.order, ?_⟩
  have hkeyed : tc.recorded.keyed := by simp [ToolCall.keyed, ToolCallExecution.recorded, hne]
  have hrow : (replayMessage rt threadId summaryPrefix .initial (.ai message)).toolRows.get
      tc.toolCallId = some (callRow rt threadId tc.toolCallId tc.recorded st.order) := by
    simp only [replayMessage, hr, if_true, hcalls, List.foldl_append, List.foldl_cons]
    rw [replayCalls_get_of_ne rt threadId hne hafter]
    simp only [replayCall, hkeyed, if_true]
    exact OrderedDict.get_set_self _ _ _
  rw [lastToolRow_replayHistory, replayMessages, List.foldl_cons, List.foldl_cons, List.foldl_nil]
  rw [← hid] at hrow ⊢
  exact replayMessage_tool_of_get rt hrow threadId summaryPrefix

/-- Without a rendered message, or without an id, the replay has no row for the call. -/
theorem replayed_row_of_not_rendered
    (h : ¬ (rendersId summaryPrefix message.id ∧ tc.toolCallId ≠ "")) :
    lastToolRow
        (replayHistory rt threadId [.ai message, .tool result] none summaryPrefix).frames
        tc.toolCallId = none := by
  rw [lastToolRow_replayHistory]
  by_cases hr : rendersId summaryPrefix message.id
  · have hempty : tc.toolCallId = "" := by
      by_contra hne
      exact h ⟨hr, hne⟩
    cases hget : (replayMessages rt threadId summaryPrefix
      [.ai message, .tool result]).toolRows.get tc.toolCallId with
    | none => rfl
    | some row =>
        exact absurd hempty (keyedRows_replayMessages rt threadId summaryPrefix _ _ row hget).2
  · simp only [replayMessages, List.foldl_cons, List.foldl_nil, replayMessage, hr,
      Bool.false_eq_true, if_false]
    rfl

end Recorded

/-! ## Both rows -/

/-- A settled call and the `ToolMessage` the checkpoint records for it. -/
inductive Settles (settlement : ToolSettlement) (result : ToolMessage) : Prop
  | success (status : result.status = .success) (falsy : settlement.error.truthy = false)
      (output : settlement.output = result.output)
  | error (status : result.status = .error) (truthy : settlement.error.truthy)
      (genuine : isInterruptError settlement.error = false)
      (content : result.content = .str settlement.error.text)

theorem isInterruptError_of_falsy {error : ErrorValue} (h : error.truthy = false) :
    isInterruptError error = false := by
  cases error with
  | sequence text items =>
      have hnil : items = [] := by simpa [ErrorValue.truthy] using h
      rw [hnil]
      rfl
  | graphInterrupt text => cases h
  | interrupt text => cases h
  | group text exceptions => cases h
  | _ => rfl

theorem Settles.not_paused {settlement : ToolSettlement} {result : ToolMessage}
    (h : Settles settlement result) : isInterruptError settlement.error = false := by
  cases h with
  | success _ falsy _ => exact isInterruptError_of_falsy falsy
  | error _ _ genuine _ => exact genuine

theorem Settles.settledRow_eq {tc : ToolCallExecution} {result : ToolMessage} {row : Row}
    (h : Settles tc.settled result)
    (hname : rowText row "name" = toAgUiToolName rt tc.toolName) :
    settledRow rt row result =
      (row.setSome "isError" (if tc.settled.error.truthy then some (.bool true) else none)).set
        "result" (toolResult rt tc.settled (toAgUiToolName rt tc.toolName)) := by
  cases h with
  | success status falsy output =>
      simp only [settledRow, status, reduceCtorEq, if_false, hname, toolResult, falsy,
        Bool.false_eq_true, output, OrderedDict.setSome]
  | error status truthy _ content =>
      simp only [settledRow, status, if_true, toolResult, truthy, content, contentText,
        OrderedDict.setSome]

/-- The two builders differ in the text of the arguments alone. -/
theorem sameButOrder_iff {tc : ToolCallExecution} {result : ToolMessage} (threadId : String)
    (hsettles : Settles tc.settled result) (order : ℤ) (order' : ℕ) :
    SameButOrder (resultRow rt threadId none tc order tc.settled)
        (settledRow rt (callRow rt threadId tc.toolCallId tc.recorded order') result) ↔
      argsText rt tc = toAgUiJson rt tc.input := by
  have hname : rowText (callRow rt threadId tc.toolCallId tc.recorded order') "name" =
      toAgUiToolName rt tc.toolName := by
    simp [rowText, callRow, OrderedDict.ofEntries, OrderedDict.get_set, ToolCallExecution.recorded]
  rw [hsettles.settledRow_eq rt hname]
  simp only [SameButOrder, resultRow, callRow, OrderedDict.ofEntries, OrderedDict.get_set,
    OrderedDict.get_setSome, List.foldl_cons, List.foldl_nil, Option.map_none, Option.none_or,
    OrderedDict.get_empty, ite_self, ToolCallExecution.recorded]
  constructor
  · intro h
    simpa using h "argsText" (by decide)
  · intro h field hfield
    rw [h]
    by_cases hresult : "result" = field
    · subst hresult
      simp
    · simp [hresult, hfield.symm]

/-- Empty arguments have no text on the live row. -/
theorem argsText_eq_iff (tc : ToolCallExecution) :
    argsText rt tc = toAgUiJson rt tc.input ↔ (tc.input.truthy ∨ rt.toJson tc.input = "") := by
  by_cases htruthy : tc.input.truthy
  · simp [argsText, htruthy]
  · simp only [argsText, htruthy, toAgUiJson, Bool.false_eq_true, if_false, false_or]
    exact eq_comm

/-- The last row of the live call and the row of the recorded one agree but for their place if
and only if the replay writes a row at all and the arguments are not empty, or encode to the
empty text. -/
theorem toolRows_agree_iff {tc : ToolCallExecution} {result : ToolMessage}
    (hdeltas : tc.deltasError = none) (hsettles : Settles tc.settled result)
    (hid : result.toolCallId = tc.toolCallId) {message : AIMessage} {before after : List ToolCall}
    (hcalls : message.toolCalls = before ++ tc.recorded :: after)
    (hafter : ∀ call ∈ after, call.id ≠ some tc.toolCallId) (w₀ w₁ w₂ w₃ : World)
    (summaryPrefix : String) :
    (∃ row row', lastToolRow (callFrames rt tc [w₀, w₁, w₂, w₃]) tc.toolCallId = some row ∧
      lastToolRow (replayHistory rt w₀.self.threadId [.ai message, .tool result] none
        summaryPrefix).frames tc.toolCallId = some row' ∧ SameButOrder row row') ↔
      (rendersId summaryPrefix message.id ∧ tc.toolCallId ≠ "") ∧
        (tc.input.truthy ∨ rt.toJson tc.input = "") := by
  obtain ⟨order, hlive⟩ := lastToolRow_callFrames rt hdeltas hsettles.not_paused w₀ w₁ w₂ w₃
  have hargs := argsText_eq_iff rt tc
  by_cases hrendered : rendersId summaryPrefix message.id ∧ tc.toolCallId ≠ ""
  · obtain ⟨order', hreplayed⟩ := replayed_row_of_rendered rt w₀.self.threadId summaryPrefix hcalls
      hafter hid hrendered.1 hrendered.2
    rw [hlive, hreplayed]
    constructor
    · rintro ⟨row, row', hrow, hrow', hsame⟩
      cases hrow
      cases hrow'
      exact ⟨hrendered, hargs.mp ((sameButOrder_iff rt _ hsettles _ _).mp hsame)⟩
    · rintro ⟨_, h⟩
      exact ⟨_, _, rfl, rfl, (sameButOrder_iff rt _ hsettles _ _).mpr (hargs.mpr h)⟩
  · rw [replayed_row_of_not_rendered rt w₀.self.threadId summaryPrefix hrendered]
    constructor
    · rintro ⟨_, _, _, hrow', _⟩
      cases hrow'
    · rintro ⟨h, _⟩
      exact absurd h hrendered

def settledResult (toolCallId : String) : ToolMessage where
  toolCallId := toolCallId
  content := .str "found"
  artifact := .none
  status := .success

def settledCall (toolCallId : String) (input : PyValue) : ToolCallExecution where
  toolCallId := toolCallId
  toolName := .str "search"
  input := input
  deltasError := none
  settled := ⟨(settledResult toolCallId).output, .none⟩
  unsettled := ⟨⟨none, none, .none⟩, .none⟩

def idleWorld : World := .start (Translator.seeded "t" "r" "summarization-" 0 0)

theorem toolRows_agree_iff_settledCall :
    (PyValue.dict [("q", .str "x")]).truthy ∧
      ((∃ row row', lastToolRow (callFrames plainRuntime
            (settledCall "c1" (.dict [("q", .str "x")]))
            [idleWorld, idleWorld, idleWorld, idleWorld]) "c1" = some row ∧
          lastToolRow (replayHistory plainRuntime "t"
            [.ai ⟨some "a1", .str "", [(settledCall "c1" (.dict [("q", .str "x")])).recorded]⟩,
              .tool (settledResult "c1")] none "summarization-").frames "c1" = some row' ∧
          SameButOrder row row') ↔
        (rendersId "summarization-" (some "a1") ∧ "c1" ≠ "") ∧
          ((PyValue.dict [("q", .str "x")]).truthy ∨
            plainRuntime.toJson (.dict [("q", .str "x")]) = "")) :=
  have hcalls : (AIMessage.mk (some "a1") (.str "")
      [(settledCall "c1" (.dict [("q", .str "x")])).recorded]).toolCalls =
        [] ++ (settledCall "c1" (.dict [("q", .str "x")])).recorded :: [] := rfl
  ⟨rfl, toolRows_agree_iff plainRuntime rfl (.success rfl rfl rfl) rfl hcalls
    (fun _ h => nomatch h) idleWorld idleWorld idleWorld idleWorld "summarization-"⟩

/-- A call with empty arguments: the live row has no text for them, the replayed one has that of
the empty object. -/
theorem not_toolRows_agree :
    ¬ ∀ (rt : Runtime) (tc : ToolCallExecution) (result : ToolMessage) (message : AIMessage)
      (summaryPrefix : String) (w₀ w₁ w₂ w₃ : World),
      tc.deltasError = none → Settles tc.settled result → result.toolCallId = tc.toolCallId →
      message.toolCalls = [tc.recorded] → rendersId summaryPrefix message.id →
      tc.toolCallId ≠ "" →
      ∃ row row', lastToolRow (callFrames rt tc [w₀, w₁, w₂, w₃]) tc.toolCallId = some row ∧
        lastToolRow (replayHistory rt w₀.self.threadId [.ai message, .tool result] none
          summaryPrefix).frames tc.toolCallId = some row' ∧ SameButOrder row row' := by
  intro h
  obtain ⟨row, row', hrow, hrow', hsame⟩ := h plainRuntime (settledCall "c1" (.dict []))
    (settledResult "c1") ⟨some "a1", .str "", [(settledCall "c1" (.dict [])).recorded]⟩
    "summarization-" idleWorld idleWorld idleWorld idleWorld rfl (.success rfl rfl rfl) rfl rfl
    (by decide) (by decide)
  have hlive : (lastToolRow (callFrames plainRuntime (settledCall "c1" (.dict []))
      [idleWorld, idleWorld, idleWorld, idleWorld]) "c1").map (rowText · "argsText") = some "" := by
    decide
  have hreplayed : (lastToolRow (replayHistory plainRuntime "t"
      [.ai ⟨some "a1", .str "", [(settledCall "c1" (.dict [])).recorded]⟩,
        .tool (settledResult "c1")] none "summarization-").frames "c1").map
          (rowText · "argsText") = some "\x7b\x7d" := by
    decide
  have hargs : rowText row "argsText" = rowText row' "argsText" := by
    rw [rowText, rowText, hsame "argsText" (by decide)]
  change lastToolRow _ "c1" = some row at hrow
  change lastToolRow _ "c1" = some row' at hrow'
  rw [hrow, Option.map_some] at hlive
  rw [show idleWorld.self.threadId = "t" from rfl] at hrow'
  rw [hrow', Option.map_some, ← hargs, Option.some.inj hlive] at hreplayed
  revert hreplayed
  decide

end StreamDB
