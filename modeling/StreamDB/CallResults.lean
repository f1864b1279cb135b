import StreamDB.WindowedReplay

/-!
# The results a replayed call shows

The row of a call is begun by the last message that requests it and settled by every result that
follows. The last result decides the row's `result`; its `isError` is that of any of them, since
a row keeps the flag an earlier result has set.
-/

namespace StreamDB

theorem exists_last {α : Type} {p : α → Prop} {l : List α} (h : ∃ a ∈ l, p a) :
    ∃ before a after, l = before ++ a :: after ∧ p a ∧ ∀ b ∈ after, ¬ p b := by
  induction l with
  | nil =>
      obtain ⟨a, ha, -⟩ := h
      cases ha
  | cons a l ih =>
      by_cases hlater : ∃ b ∈ l, p b
      · obtain ⟨before, b, after, rfl, hb, hlast⟩ := ih hlater
        exact ⟨a :: before, b, after, rfl, hb, hlast⟩
      · obtain ⟨b, hb, hp⟩ := h
        rcases List.mem_cons.mp hb with rfl | hb
        · exact ⟨[], b, l, rfl, hp, fun c hc hpc => hlater ⟨c, hc, hpc⟩⟩
        · exact absurd ⟨b, hb, hp⟩ hlater

/-! ## The last request of a call -/

def RendersRequest (summaryPrefix key : String) : BaseMessage → Prop
  | .ai message =>
      rendersId summaryPrefix message.id ∧ ∃ call ∈ message.toolCalls, call.id = some key
  | _ => False

/-- The results for a call, in the order of the list. -/
def resultsFor (key : String) (messages : List BaseMessage) : List ToolMessage :=
  messages.filterMap fun
    | .tool message => if message.toolCallId = key then some message else none
    | _ => none

/-- `call` is how the call is requested last, and `results` are the results after that. -/
inductive LastRequest (summaryPrefix key : String) :
    List BaseMessage → ToolCall → List ToolMessage → Prop
  | mk {before after : List BaseMessage} {message : AIMessage} {pre post : List ToolCall}
      {call : ToolCall} (renders : rendersId summaryPrefix message.id)
      (calls : message.toolCalls = pre ++ call :: post) (id : call.id = some key)
      (lastCall : ∀ other ∈ post, other.id ≠ some key)
      (lastMessage : ∀ m ∈ after, ¬ RendersRequest summaryPrefix key m) :
      LastRequest summaryPrefix key (before ++ .ai message :: after) call (resultsFor key after)

theorem exists_lastRequest {summaryPrefix key : String} {messages : List BaseMessage}
    (h : ∃ m ∈ messages, RendersRequest summaryPrefix key m) :
    ∃ call results, LastRequest summaryPrefix key messages call results := by
  obtain ⟨before, m, after, rfl, hrequests, hlast⟩ := exists_last h
  cases m with
  | ai message =>
      obtain ⟨hrenders, hcall⟩ := hrequests
      obtain ⟨pre, call, post, hcalls, hid, hlastCall⟩ := exists_last hcall
      exact ⟨call, _, .mk hrenders hcalls hid hlastCall hlast⟩
  | _ => exact hrequests.elim

/-! ## What a result determines -/

def isErrorOf (message : ToolMessage) : Option PyValue :=
  if message.status = .error then some (.bool true) else none

/-- The `result` of a row named `name`. -/
def resultOf (rt : Runtime) (name : String) (message : ToolMessage) : PyValue :=
  if message.status = .error then
    .str (toAgUiJson rt (.dict [("error", .str (contentText rt message.content))]))
  else unwrapToolResult rt name message.output

/-- The row shows this result and no other, or none. -/
structure SettledBy (rt : Runtime) (row : Row) (result : Option ToolMessage) : Prop where
  isError : row.get "isError" = result.bind isErrorOf
  result : row.get "result" = result.map (resultOf rt (rowText row "name"))

variable (rt : Runtime)

theorem settledRow_name (row : Row) (message : ToolMessage) :
    rowText (settledRow rt row message) "name" = rowText row "name" := by
  rw [rowText, rowText, settledRow]
  split_ifs
  · rw [OrderedDict.get_set_of_ne _ _ (by decide), OrderedDict.get_set_of_ne _ _ (by decide)]
  · rw [OrderedDict.get_set_of_ne _ _ (by decide)]

theorem settledRow_result (row : Row) (message : ToolMessage) :
    (settledRow rt row message).get "result" =
      some (resultOf rt (rowText row "name") message) := by
  rw [settledRow, resultOf]
  split_ifs
  · exact OrderedDict.get_set_self _ _ _
  · exact OrderedDict.get_set_self _ _ _

theorem settledRow_isError (row : Row) (message : ToolMessage) :
    (settledRow rt row message).get "isError" =
      (isErrorOf message).or (row.get "isError") := by
  rw [settledRow, isErrorOf]
  split_ifs
  · rw [OrderedDict.get_set_of_ne _ _ (by decide), OrderedDict.get_set_self]
    rfl
  · rw [OrderedDict.get_set_of_ne _ _ (by decide)]
    rfl

def settle (row : Row) (results : List ToolMessage) : Row := results.foldl (settledRow rt) row

theorem settle_concat (row : Row) (results : List ToolMessage) (last : ToolMessage) :
    settle rt row (results ++ [last]) = settledRow rt (settle rt row results) last := by
  rw [settle, List.foldl_append]
  rfl

theorem settle_name (row : Row) (results : List ToolMessage) :
    rowText (settle rt row results) "name" = rowText row "name" := by
  induction results using List.reverseRecOn with
  | nil => rfl
  | append_singleton results last ih => rw [settle_concat, settledRow_name, ih]

theorem settle_result {row : Row} (hrow : row.get "result" = none) (results : List ToolMessage) :
    (settle rt row results).get "result" =
      results.getLast?.map (resultOf rt (rowText row "name")) := by
  induction results using List.reverseRecOn with
  | nil => exact hrow
  | append_singleton results last _ =>
      rw [settle_concat, settledRow_result, settle_name, List.getLast?_concat]
      rfl

/-- The flag stays once a result has set it. -/
theorem settle_isError {row : Row} (hrow : row.get "isError" = none)
    (results : List ToolMessage) :
    (settle rt row results).get "isError" =
      if ∃ r ∈ results, r.status = .error then some (.bool true) else none := by
  induction results using List.reverseRecOn with
  | nil => simpa [settle] using hrow
  | append_singleton results last ih =>
      rw [settle_concat, settledRow_isError, ih, isErrorOf]
      by_cases hlast : last.status = .error
      · simp [hlast]
      · simp [hlast]

theorem settledBy_settle_iff {row : Row} (hresult : row.get "result" = none)
    (hisError : row.get "isError" = none) (results : List ToolMessage) :
    SettledBy rt (settle rt row results) results.getLast? ↔
      ∀ last ∈ results.getLast?, last.status = .error ∨ ∀ r ∈ results, r.status ≠ .error := by
  have hflag : SettledBy rt (settle rt row results) results.getLast? ↔
      (settle rt row results).get "isError" = results.getLast?.bind isErrorOf := by
    refine ⟨SettledBy.isError, fun h => ⟨h, ?_⟩⟩
    rw [settle_result rt hresult, settle_name]
  rw [hflag, settle_isError rt hisError]
  cases hlast : results.getLast? with
  | none => simp [List.getLast?_eq_none_iff.mp hlast]
  | some last =>
      have hmem : last ∈ results := List.mem_of_getLast? hlast
      by_cases herror : last.status = .error
      · have hany : ∃ r ∈ results, r.status = .error := ⟨last, hmem, herror⟩
        simp [hany, isErrorOf, herror]
      · simp [isErrorOf, herror]

/-! ## The row of a call along a replay -/

variable (threadId summaryPrefix : String) {key : String} {st : ReplayState}

theorem toolRow_replayCalls_of_ne (hkey : key ≠ "") {calls : List ToolCall}
    (hcalls : ∀ call ∈ calls, call.id ≠ some key) (st : ReplayState) :
    (calls.foldl (replayCall rt threadId) st).row .tool key = st.row .tool key :=
  replayCalls_get_of_ne rt threadId hkey hcalls st

/-- A message that does not request the call at most settles its row. -/
theorem toolRow_replayMessage (hkey : key ≠ "") {m : BaseMessage}
    (hm : ¬ RendersRequest summaryPrefix key m) :
    (replayMessage rt threadId summaryPrefix st m).row .tool key =
      (st.row .tool key).map (settle rt · (resultsFor key [m])) := by
  cases m with
  | human message =>
      rw [replayMessage]
      split_ifs
      · simp [ReplayState.row_putMessage, resultsFor, settle]
      · simp [resultsFor, settle]
  | ai message =>
      rw [replayMessage]
      split_ifs with hrenders
      · have hcalls : ∀ call ∈ message.toolCalls, call.id ≠ some key :=
          fun call hcall hid => hm ⟨hrenders, call, hcall, hid⟩
        rw [toolRow_replayCalls_of_ne rt threadId hkey hcalls]
        simp [ReplayState.row_putMessage, resultsFor, settle]
      · simp [resultsFor, settle]
  | tool message =>
      rw [row_replayMessage_tool]
      by_cases hid : message.toolCallId = key
      · simp [hid, resultsFor, settle]
      · simp [hid, resultsFor, settle]
  | other id => simp [replayMessage, resultsFor, settle]

theorem toolRow_foldl_replayMessage (hkey : key ≠ "") {messages : List BaseMessage}
    (h : ∀ m ∈ messages, ¬ RendersRequest summaryPrefix key m) :
    (messages.foldl (replayMessage rt threadId summaryPrefix) st).row .tool key =
      (st.row .tool key).map (settle rt · (resultsFor key messages)) := by
  induction messages generalizing st with
  | nil => simp [resultsFor, settle]
  | cons m messages ih =>
      have hsplit : resultsFor key (m :: messages) =
          resultsFor key [m] ++ resultsFor key messages := by
        rw [resultsFor, resultsFor, resultsFor, ← List.filterMap_append]
        rfl
      rw [List.foldl_cons, ih fun n hn => h n (List.mem_cons_of_mem _ hn),
        toolRow_replayMessage rt threadId summaryPrefix hkey (h m List.mem_cons_self), hsplit,
        Option.map_map]
      simp only [settle, List.foldl_append, Function.comp_def]

variable {rt threadId summaryPrefix}

theorem exists_request_of_toolRow {messages : List BaseMessage} {row : Row} (hkey : key ≠ "")
    (hrow : (replayMessages rt threadId summaryPrefix messages).row .tool key = some row) :
    ∃ m ∈ messages, RendersRequest summaryPrefix key m := by
  by_contra hnone
  have hnever : ∀ m ∈ messages, ¬ RendersRequest summaryPrefix key m :=
    fun m hm hrequests => hnone ⟨m, hm, hrequests⟩
  rw [replayMessages, toolRow_foldl_replayMessage rt threadId summaryPrefix hkey hnever,
    ReplayState.row_initial] at hrow
  cases hrow

variable (rt threadId) in
/-- The row of a call is the one of its last request, settled by the results that follow. -/
theorem LastRequest.toolRow {messages : List BaseMessage} {call : ToolCall}
    {results : List ToolMessage} (h : LastRequest summaryPrefix key messages call results)
    (hkey : key ≠ "") :
    ∃ order, (replayMessages rt threadId summaryPrefix messages).row .tool key =
      some (settle rt (callRow rt threadId key call order) results) := by
  cases h with
  | @mk before after message pre post call renders calls id lastCall lastMessage =>
      have hkeyed : call.keyed := by simp [ToolCall.keyed, id, hkey]
      rw [replayMessages, List.foldl_append, List.foldl_cons,
        toolRow_foldl_replayMessage rt threadId summaryPrefix hkey lastMessage, replayMessage,
        if_pos renders, calls, List.foldl_append, List.foldl_cons,
        toolRow_replayCalls_of_ne rt threadId hkey lastCall, row_replayCall, id, Option.getD_some,
        if_pos ⟨hkeyed, rfl, rfl⟩]
      exact ⟨_, rfl⟩

/-- Every tool row of a replay has a last request, and shows the last result since then and
nothing else if and only if that result is an error or none of them is. -/
theorem last_result_wins_iff (rt : Runtime) (threadId summaryPrefix : String)
    (messages : List BaseMessage) (maxTurns : Option ℤ) {key : String} {row : Row}
    (hrow : (collection .tool
      (replayHistory rt threadId messages maxTurns summaryPrefix).frames).get key = some row) :
    (∃ call results, LastRequest summaryPrefix key messages call results) ∧
      ∀ call results, LastRequest summaryPrefix key messages call results →
        (SettledBy rt row results.getLast? ↔
          ∀ last ∈ results.getLast?,
            last.status = .error ∨ ∀ r ∈ results, r.status ≠ .error) := by
  rw [get_collection_replayHistory] at hrow
  obtain ⟨dropped, hmessages⟩ := replayWindow_suffix messages maxTurns
  have hkey : key ≠ "" := (keyedRows_replayMessages rt threadId summaryPrefix _ key row hrow).2
  have hahead := ahead_replayMessages rt threadId summaryPrefix dropped
    (replayWindow messages maxTurns)
  rw [← hmessages] at hahead
  obtain ⟨row', hrow', hshifted⟩ := hahead.rows .tool key row hrow
  refine ⟨exists_lastRequest (exists_request_of_toolRow hkey hrow'), ?_⟩
  intro call results hlast
  obtain ⟨order, hsettled⟩ := hlast.toolRow rt threadId hkey
  rw [hrow'] at hsettled
  have hfull : SettledBy rt row' results.getLast? ↔ SettledBy rt row results.getLast? := by
    have hname : rowText row' "name" = rowText row "name" := by
      rw [rowText, rowText, hshifted.fields "name" (by decide) (by decide)]
    constructor
    · exact fun h => ⟨by rw [← hshifted.fields "isError" (by decide) (by decide), h.isError],
        by rw [← hshifted.fields "result" (by decide) (by decide), h.result, hname]⟩
    · exact fun h => ⟨by rw [hshifted.fields "isError" (by decide) (by decide), h.isError],
        by rw [hshifted.fields "result" (by decide) (by decide), h.result, hname]⟩
  rw [← hfull, Option.some.inj hsettled]
  apply settledBy_settle_iff
  · simp [callRow, OrderedDict.ofEntries, OrderedDict.get_set]
  · simp [callRow, OrderedDict.ofEntries, OrderedDict.get_set]

def answeredTwice (first second : ToolStatus) : List BaseMessage :=
  [.ai ⟨some "a1", .str "", [⟨some "c1", .str "search", .dict []⟩]⟩,
    .tool ⟨"c1", .str "timeout", .none, first⟩, .tool ⟨"c1", .str "found", .none, second⟩]

theorem lastRequest_answeredTwice (first second : ToolStatus) :
    LastRequest "summarization-" "c1" (answeredTwice first second)
      ⟨some "c1", .str "search", .dict []⟩
      [⟨"c1", .str "timeout", .none, first⟩, ⟨"c1", .str "found", .none, second⟩] :=
  @LastRequest.mk "summarization-" "c1" [] _
    ⟨some "a1", .str "", [⟨some "c1", .str "search", .dict []⟩]⟩ [] [] _ (by decide) rfl rfl
    (by simp) (by simp [RendersRequest])

theorem last_result_wins_iff_answeredTwice :
    ∃ row, (collection .tool (replayHistory plainRuntime "t" (answeredTwice .error .success)
        (some 1) "summarization-").frames).get "c1" = some row ∧
      ((∃ call results, LastRequest "summarization-" "c1" (answeredTwice .error .success) call
          results) ∧
        ∀ call results,
          LastRequest "summarization-" "c1" (answeredTwice .error .success) call results →
          (SettledBy plainRuntime row results.getLast? ↔
            ∀ last ∈ results.getLast?,
              last.status = .error ∨ ∀ r ∈ results, r.status ≠ .error)) :=
  ⟨_, rfl, last_result_wins_iff plainRuntime "t" "summarization-" (answeredTwice .error .success)
    (some 1) rfl⟩

/-- A call that fails and is answered again keeps the flag of the failure. -/
theorem not_last_result_wins :
    ¬ ∀ (rt : Runtime) (threadId summaryPrefix : String) (messages : List BaseMessage)
      (maxTurns : Option ℤ) (key : String) (row : Row),
      (collection .tool
        (replayHistory rt threadId messages maxTurns summaryPrefix).frames).get key = some row →
      ∀ call results, LastRequest summaryPrefix key messages call results →
        SettledBy rt row results.getLast? := by
  intro h
  have hsettled := h plainRuntime "t" "summarization-" (answeredTwice .error .success) none "c1" _
    rfl _ _ (lastRequest_answeredTwice .error .success)
  have hflag := hsettled.isError
  rw [List.getLast?_cons_cons, List.getLast?_singleton] at hflag
  cases hflag

end StreamDB
