import StreamDB.DrainRows
import StreamDB.InterruptKeys
import StreamDB.ReplayRows
import StreamDB.RunCalls

/-!
# Rows carry their own key

An upserted row names the key it is kept under in its field `id`. Where a mapping of the graph or
of the caller is spread over the row, an `id` of its own wins.
-/

namespace StreamDB

open Coroutine

/-- An upserted row has the frame's key as its id. -/
def Frame.Identified (f : Frame) : Prop :=
  f.operation = .upsert → f.field "id" = some (.str f.key)

theorem identified_upsertFrame {row : Row} {key : String} (h : row.get "id" = some (.str key))
    (type : RowType) (txid : Option String) : (upsertFrame type key row txid).Identified :=
  fun _ => h

/-! ## The mappings that are spread over a row -/

/-- The mapping has no `id` of its own, or this one. -/
def SparesId (id : String) (entries : Entries) : Prop :=
  ∀ v, OrderedDict.lookupEntries "id" entries.reverse = some v → v = .str id

theorem get_id_spread_iff (id : String) (entries : Entries) :
    ((OrderedDict.ofEntries [("id", .str id)]).update entries : Row).get "id" = some (.str id) ↔
      SparesId id entries := by
  have hfirst : (OrderedDict.ofEntries [("id", .str id)] : Row).get "id" = some (.str id) := rfl
  rw [OrderedDict.get_update, hfirst, SparesId]
  cases OrderedDict.lookupEntries "id" entries.reverse with
  | none => simp
  | some v => simp

theorem sparesId_of_not_mem {entries : Entries} (h : "id" ∉ entries.map Prod.fst) (id : String) :
    SparesId id entries := by
  have hnone : OrderedDict.lookupEntries "id" entries.reverse = none :=
    OrderedDict.lookupEntries_eq_none.mpr fun hm => h (by simpa using hm)
  intro v hv
  rw [hnone] at hv
  cases hv

/-- The effect row of this entry of a `frontend_updates` list. -/
inductive UpdateRow (rt : Runtime) (activities : List Activity) (entries : Entries) : Frame → Prop
  | effect {payload : Entries} {ops : List PyValue} {op : PyValue} (n : ℕ)
      (item : drains rt activities .custom (.payload (.dict payload)))
      (type : (payload.get "content_type").isStr "tool_end")
      (updates : payload.get "frontend_updates" = .list ops) (mem : op ∈ ops)
      (notReport : ∀ e, op = .dict e → (Entries.get e "type").isStr "report_generated" = false)
      (dict : dictOf rt op = some entries) :
      UpdateRow rt activities entries
        (upsertFrame .effect ("effect_" ++ rt.uuidHex n)
          (Setting.effectRow ("effect_" ++ rt.uuidHex n) entries) none)

/-- An entry this row is the effect of brings no `id` but the one drawn for the row. -/
def UpdateSparesId (rt : Runtime) (activities : List Activity) (f : Frame) : Prop :=
  ∀ entries, UpdateRow rt activities entries f → SparesId f.key entries

theorem identified_effect_iff (key : String) (entries : Entries) :
    (upsertFrame .effect key (Setting.effectRow key entries) none).Identified ↔
      SparesId key entries := by
  constructor
  · exact fun h => (get_id_spread_iff _ _).mp (h rfl)
  · exact fun h => identified_upsertFrame ((get_id_spread_iff _ _).mpr h) _ _

theorem UpdateRow.sparesId {rt : Runtime} {activities : List Activity} {entries : Entries}
    {f : Frame} (h : UpdateRow rt activities entries f) (hid : f.Identified) :
    SparesId f.key entries := by
  cases h with
  | effect n _ _ _ _ _ _ => exact (identified_effect_iff _ _).mp hid

/-! ## Live rows -/

section Live

variable {rt : Runtime} {threadId summaryPrefix : String} {activities : List Activity}
  {allowed : TaskName → World → Prop} {name : TaskName} {f : Frame}

theorem writtenBy_identified
    (h : (settingOf rt threadId summaryPrefix activities allowed).WrittenBy name f)
    (hspares : UpdateSparesId rt activities f) : f.Identified := by
  cases h with
  | user _ _ _ _ _ =>
      exact identified_upsertFrame (userRow_id ..) _ _
  | anchor _ _ _ _ =>
      exact identified_upsertFrame (messageRow_id ..) _ _
  | chunk _ _ _ _ =>
      exact identified_upsertFrame (chunkRow_id ..) _ _
  | started _ _ =>
      apply identified_upsertFrame
      simp [startedRow, OrderedDict.ofEntries, OrderedDict.get_set, OrderedDict.get_setSome]
  | settled _ _ _ =>
      apply identified_upsertFrame
      simp [resultRow, OrderedDict.ofEntries, OrderedDict.get_set, OrderedDict.get_setSome]
  | custom item row =>
      cases row with
      | summary toolCallId text =>
          apply identified_upsertFrame
          simp [summaryRow, OrderedDict.ofEntries, OrderedDict.get_set]
      | action toolCallId =>
          apply identified_upsertFrame
          simp [actionRow, OrderedDict.ofEntries, OrderedDict.get_set, OrderedDict.get_setSome]
      | report fileId op createdAt toolCallId =>
          apply identified_upsertFrame
          simp [reportRow, OrderedDict.ofEntries, OrderedDict.get_set, OrderedDict.get_setSome]
      | effect n op =>
          apply (identified_effect_iff _ _).mpr
          cases op with
          | frontendUpdate type updates mem notReport dict =>
              exact hspares _ (.effect n item type updates mem notReport dict)
          | payload keys =>
              apply sparesId_of_not_mem
              intro hid
              exact absurd (keys _ hid) (by simp)
  | state _ =>
      apply identified_upsertFrame
      apply (get_id_spread_iff _ _).mpr
      apply sparesId_of_not_mem
      simp [projectClientState]

/-- Only an entry with an `id` of its own spoils a row. -/
theorem identified_iff_updateSparesId
    (h : (settingOf rt threadId summaryPrefix activities allowed).WrittenBy name f) :
    f.Identified ↔ UpdateSparesId rt activities f := by
  constructor
  · exact fun hid entries hrow => hrow.sparesId hid
  · exact writtenBy_identified h

theorem callOf_identified {sc : Scenario} (hrows : ∀ g ∈ sc.channelRows.frames, g.Identified)
    (hstate : ∀ state, sc.initialState = some state → SparesId sc.threadId state)
    (h : sc.CallOf (.frame f)) : f.Identified := by
  cases h with
  | shell call =>
      cases call with
      | runRow _ _ =>
          apply identified_upsertFrame
          simp [Scenario.runRow, OrderedDict.ofEntries, OrderedDict.get_set,
            OrderedDict.get_setSome]
      | suggestion =>
          intro h
          cases h
      | interrupt mem =>
          apply identified_upsertFrame
          rw [Scenario.items] at mem
          split at mem
          · exact id_interruptRowsFrom _ _ _ _ _ _ mem
          · cases mem
  | seed given => exact identified_upsertFrame ((get_id_spread_iff _ _).mpr (hstate _ given)) _ _
  | channel mem => exact hrows f mem

end Live

theorem Replayed.identified {rt : Runtime} {threadId summaryPrefix : String}
    {messages : List BaseMessage} {f : Frame}
    (h : Replayed rt threadId summaryPrefix messages f) : f.Identified := by
  cases h with
  | human _ _ _ =>
      exact identified_upsertFrame (humanRow_id ..) _ _
  | ai _ _ _ =>
      exact identified_upsertFrame (aiRow_id ..) _ _
  | tool id => exact identified_upsertFrame id _ _

/-! ## Whole runs -/

/-- A row of a run carries its own key exactly if no entry of `frontend_updates` it is the effect of
brings another `id`, and the row of the initial state exactly if that state brings none. Every row
of a replay carries its key. -/
theorem rows_identified {rt : Runtime} {threadId runId summaryPrefix : String} {s t : ℤ}
    {activities : List Activity} {c : System}
    (h : Reaches anyStep
      (startSystem rt (Translator.seeded threadId runId summaryPrefix s t) activities) c) :
    (∀ f ∈ c.state.frames, f.Identified ↔ UpdateSparesId rt activities f) ∧
      (∀ (sc : Scenario) (started : Bool), sc.channelRows.frames = c.state.frames →
        (∀ f ∈ c.state.frames, UpdateSparesId rt activities f) →
        (∀ state, sc.initialState = some state → SparesId sc.threadId state) →
        ∀ f, .frame f ∈ (sc.run (sc.startState started)).2.calls → f.Identified) ∧
      (∀ (sc : Scenario) (state : Entries),
        (sc.seedFrame state).Identified ↔ SparesId sc.threadId state) ∧
      ∀ (messages : List BaseMessage) (maxTurns : Option ℤ),
        ∀ f ∈ (replayHistory rt threadId messages maxTurns summaryPrefix).frames,
          f.Identified := by
  have hlive : ∀ f ∈ c.state.frames, f.Identified ↔ UpdateSparesId rt activities f := by
    intro f hf
    obtain ⟨name, hwritten⟩ := written_of_reaches h f hf
    exact identified_iff_updateSparesId hwritten
  refine ⟨hlive, ?_, ?_, fun messages maxTurns f hf => (replayed_of_mem maxTurns f hf).identified⟩
  · intro sc started hrows hspares hstate f hf
    have hchannels : ∀ g ∈ sc.channelRows.frames, g.Identified := by
      intro g hg
      rw [hrows] at hg
      exact (hlive g hg).mpr (hspares g hg)
    exact callOf_identified hchannels hstate (sc.callOf_of_run started _ hf)
  · intro sc state
    constructor
    · exact fun h => (get_id_spread_iff _ _).mp (h rfl)
    · exact fun h => identified_upsertFrame ((get_id_spread_iff _ _).mpr h) _ _

/-- A tool that ends with an update for the frontend. -/
def updating (op : Entries) : List Activity :=
  [.source [.custom], .custom ⟨[.dict [("content_type", .str "tool_end"),
    ("frontend_updates", .list [.dict op])]], none⟩]

def startUpdating (op : Entries) : System :=
  startSystem plainRuntime (Translator.seeded "t" "r" "summarization-" 0 0) (updating op)

theorem updateSparesId_updating (f : Frame) :
    UpdateSparesId plainRuntime (updating [("type", .str "x")]) f := by
  intro entries hrow
  cases hrow with
  | effect n item _ hops hop _ hentries =>
      cases item with
      | payload mem item =>
          simp only [updating, List.mem_cons, reduceCtorEq, Activity.custom.injEq, false_or,
            List.not_mem_nil, or_false] at mem
          subst mem
          rw [List.mem_singleton, PyValue.dict.injEq] at item
          subst item
          cases hops
          rw [List.mem_singleton.mp hop] at hentries
          cases hentries
          exact sparesId_of_not_mem (by decide) _

theorem rows_identified_updating :
    let c := (startUpdating [("type", .str "x")]).after (fun _ _ => true) [.run 0, .run 1]
      (by decide)
    c.state.frames.map Frame.key = ["effect_0"] ∧ ∀ f ∈ c.state.frames, f.Identified :=
  ⟨by decide, fun f hf => ((rows_identified
    (reaches_after (fun _ _ _ => trivial) _ _ _)).1 f hf).mpr (updateSparesId_updating f)⟩

/-- The update's own id ends up in the row. -/
theorem not_rows_identified :
    ¬ ∀ (rt : Runtime) (threadId runId summaryPrefix : String) (s t : ℤ)
      (activities : List Activity) (c : System),
      Reaches anyStep
        (startSystem rt (Translator.seeded threadId runId summaryPrefix s t) activities) c →
      ∀ f ∈ c.state.frames, f.Identified := by
  intro h
  let c := (startUpdating [("id", .str "foo")]).after (fun _ _ => true) [.run 0, .run 1]
    (by decide)
  have hrows := h plainRuntime "t" "r" "summarization-" 0 0 (updating [("id", .str "foo")]) c
    (reaches_after (fun _ _ _ => trivial) _ _ _)
  have hwrong : ∃ f ∈ c.state.frames, f.operation = .upsert ∧ f.textField "id" = some "foo" ∧
      f.key = "effect_0" := by
    decide
  obtain ⟨f, hf, hop, hid, hkey⟩ := hwrong
  rw [Frame.textField, hrows f hf hop, hkey] at hid
  revert hid
  decide

end StreamDB
