import StreamDB.CustomDrain
import StreamDB.ScriptedDrain

/-!
# The rows of the custom channel

A payload has a sequential meaning: the rows it asks for, and the exception it raises, if any.
Whatever runs next to the custom drain, the store gets the rows of the payloads in order, and
nothing of one but the clock and the uuids depends on the schedule.
-/

namespace StreamDB

open Coroutine

/-- A row of the custom channel, but for the clock and the uuids. -/
inductive CustomEntry where
  | summary (toolCallId text : String)
  | action (toolCallId : String) (payload : Entries)
  | report (fileId : String) (op : Entries) (toolCallId : Option String)
  | effect (op : Entries)

/-- The frame is a row of the entry. -/
inductive CustomEntry.ShownBy (rt : Runtime) (threadId : String) : CustomEntry → Frame → Prop
  | summary (toolCallId text : String) :
      ShownBy rt threadId (.summary toolCallId text)
        (upsertFrame .toolSummary toolCallId (summaryRow toolCallId text) none)
  | action (toolCallId : String) (payload : Entries) :
      ShownBy rt threadId (.action toolCallId payload)
        (upsertFrame .toolAction toolCallId (actionRow threadId toolCallId payload) none)
  | report (fileId : String) (op : Entries) (toolCallId : Option String) (createdAt : ℤ) :
      ShownBy rt threadId (.report fileId op toolCallId)
        (upsertFrame .report fileId (reportRow rt threadId fileId op createdAt toolCallId) none)
  | effect (op : Entries) (n : ℕ) :
      ShownBy rt threadId (.effect op)
        (upsertFrame .effect ("effect_" ++ rt.uuidHex n)
          (Setting.effectRow ("effect_" ++ rt.uuidHex n) op) none)

abbrev CustomScript := Script CustomEntry PyException

/-! ## What a payload asks for -/

section Meaning

variable (rt : Runtime) (threadId : String)

def effectScript (op : PyValue) : CustomScript :=
  match dictOf rt op with
  | none => .fail notAMapping
  | some entries => .entry (.effect entries)

def reportScript (op : Entries) (toolCallId : Option String) : CustomScript :=
  match (op.get "file_id").nonemptyStr with
  | none => .done
  | some fileId => .entry (.report fileId op toolCallId)

def updateScript (toolCallId : Option String) (op : PyValue) : CustomScript :=
  match op with
  | .dict entries =>
      if (Entries.get entries "type").isStr "report_generated" then
        reportScript entries toolCallId
      else effectScript rt op
  | _ => effectScript rt op

def toolSummaryScript (payload : Entries) : CustomScript :=
  match (payload.get "text").nonemptyStr, (payload.get "tool_call_id").nonemptyStr with
  | some text, some toolCallId => .entry (.summary toolCallId text)
  | _, _ => .done

def toolActionScript (payload : Entries) : CustomScript :=
  match (payload.get "tool_call_id").nonemptyStr with
  | some toolCallId => .entry (.action toolCallId payload)
  | none => .done

def toolEndScript (payload : Entries) : CustomScript :=
  match payload.get "frontend_updates" with
  | .list ops =>
      .forEach (updateScript rt (match payload.get "tool_call_id" with
        | .str s => some s
        | _ => none)) ops
  | _ => .done

def threadEffectScript (kind : String) (active : Option Bool) : CustomScript :=
  .entry (.effect ([("kind", .str kind), ("threadId", .str threadId)] ++
    (active.map fun b => ("active", PyValue.bool b)).toList))

def payloadScript (payload : Entries) : CustomScript :=
  let contentType := payload.get "content_type"
  if contentType.isStr "tool_summary" then toolSummaryScript payload
  else if contentType.isStr "tool_action" then toolActionScript payload
  else if contentType.isStr "tool_end" then toolEndScript rt payload
  else if !contentType.hashable then .fail unhashable
  else if stateChannelCustom.any contentType.isStr then .done
  else if contentType.isStr "subagent_start" then .done
  else if contentType.isStr "subagent_end" then .done
  else if contentType.isStr "batman_started" then threadEffectScript threadId "batman" none
  else if contentType.isStr "compaction_start" then
    threadEffectScript threadId "compaction" (some true)
  else if contentType.isStr "compaction_end" then
    threadEffectScript threadId "compaction" (some false)
  else
    .entry (.effect [("kind", .str (rt.str
      (if contentType.truthy then contentType else .str "unknown"))), ("payload", .dict payload)])

def customScript (payload : PyValue) : CustomScript :=
  match payload with
  | .dict entries => payloadScript rt threadId entries
  | _ => .done

/-- A feed breaks after its last item. -/
def feedScript (payloads : Feed PyValue) : CustomScript :=
  (Script.forEach (customScript rt threadId) payloads.items).andThen ⟨[], payloads.error⟩

end Meaning

/-! ## The part of the store that belongs to the channel -/

def Frame.isCustom (f : Frame) : Bool :=
  f.type = .toolSummary || f.type = .toolAction || f.type = .report || f.type = .effect

def customFrames (frames : List Frame) : List Frame := frames.filter Frame.isCustom

theorem customFrames_write {f : Frame} (h : f.isCustom) (w : World) :
    customFrames (w.write f).frames = customFrames w.frames ++ [f] := by
  rw [customFrames, World.write, List.filter_append, List.filter_cons_of_pos h, List.filter_nil,
    customFrames]

/-- Only the custom drain writes these rows. -/
theorem not_isCustom {E : Setting} {name : TaskName} {f : Frame} (h : E.WrittenBy name f)
    (hsource : ∀ payload, ¬ E.source .custom (.payload payload)) : f.isCustom = false := by
  cases h with
  | custom item _ => exact absurd item (hsource _)
  | _ => rfl

theorem customFrames_eq_of_advances {E : Setting} {name : TaskName} {w w' : World}
    (hsource : ∀ payload, ¬ E.source .custom (.payload payload)) (h : E.Advances name w w') :
    customFrames w'.frames = customFrames w.frames := by
  obtain ⟨frames, hframes, hrows⟩ := h.rows
  have hnone : customFrames frames = [] := by
    rw [customFrames, List.filter_eq_nil_iff]
    intro f hf
    simp [not_isCustom (hrows f hf) hsource]
  rw [customFrames, hframes, List.filter_append]
  change _ ++ customFrames frames = _
  rw [hnone, List.append_nil, customFrames]

/-- The frames show the entries, one each. -/
abbrev Shows (rt : Runtime) (threadId : String) : List CustomEntry → List Frame → Prop :=
  List.Forall₂ (CustomEntry.ShownBy rt threadId)

def customOwnership (E : Setting) (hallowed : ∀ name w, E.allowed name w)
    (hsource : ∀ payload, ¬ E.source .custom (.payload payload)) (whole : CustomScript) :
    Ownership TaskName World PyException (List Frame) where
  env := E.rowProtocol
  part w := customFrames w.frames
  mid v := ∃ es, es <+: whole.entries ∧ Shows E.rt E.threadId es v
  ends failure v := failure = whole.failure ∧ Shows E.rt E.threadId whole.entries v
  anytime := hallowed
  anyhow _ _ := trivial
  others _ _ _ h := customFrames_eq_of_advances hsource h

section Drain

variable {E : Setting} {hallowed : ∀ name w, E.allowed name w}
  {hsource : ∀ payload, ¬ E.source .custom (.payload payload)} {whole : CustomScript}

theorem logs_customOwnership :
    Script.Logs (customOwnership E hallowed hsource whole) (Shows E.rt E.threadId) whole where
  mid es _ hes hv := ⟨es, hes, hv⟩
  ends _ hv := ⟨rfl, hv⟩

/-- The programs of the custom drain. -/
abbrev PerformsCustom (E : Setting) (hallowed : ∀ name w, E.allowed name w)
    (hsource : ∀ payload, ¬ E.source .custom (.payload payload)) (whole : CustomScript)
    (p : Task Unit) (r : CustomScript) : Prop :=
  Script.Performs (customOwnership E hallowed hsource whole) (Shows E.rt E.threadId) whole p r

theorem drain_customOwnership :
    ScriptedDrain (customOwnership E hallowed hsource whole) E (Shows E.rt E.threadId) whole where
  env := rfl
  frames _ _ hframes := congrArg customFrames hframes
  logs := logs_customOwnership

theorem performs_upsert {m : CustomEntry} {type : RowType} {key : String} {row : Row}
    (hshown : m.ShownBy E.rt E.threadId (upsertFrame type key row none))
    (hcustom : (upsertFrame type key row none).isCustom) :
    PerformsCustom E hallowed hsource whole (upsert type key row none) (.entry m) := by
  refine drain_customOwnership.performs_write fun es w hes => ?_
  change Shows E.rt E.threadId _ (customFrames (w.write _).frames)
  rw [customFrames_write hcustom]
  exact List.rel_append hes (.cons hshown .nil)

theorem performs_emitEffect (op : PyValue) :
    PerformsCustom E hallowed hsource whole (emitEffect E.rt op) (effectScript E.rt op) := by
  apply drain_customOwnership.performs_freshId_bind
  intro n
  unfold effectScript
  cases dictOf E.rt op with
  | none => exact Script.performs_raise logs_customOwnership _
  | some entries => exact performs_upsert (.effect entries n) rfl

theorem performs_emitReport (op : Entries) (toolCallId : Option String) :
    PerformsCustom E hallowed hsource whole (emitReport E.rt op toolCallId)
      (reportScript op toolCallId) := by
  unfold emitReport reportScript
  cases (op.get "file_id").nonemptyStr with
  | none => exact Script.performs_pure
  | some fileId =>
      refine drain_customOwnership.performs_readSelf_bind fun t ht _ => ?_
      refine drain_customOwnership.performs_nowMs_bind fun createdAt => ?_
      rw [ht]
      exact performs_upsert (.report fileId op toolCallId createdAt) rfl

theorem performs_frontendUpdate (toolCallId : Option String) (op : PyValue) :
    PerformsCustom E hallowed hsource whole (frontendUpdate E.rt toolCallId op)
      (updateScript E.rt toolCallId op) := by
  have heffect : PerformsCustom E hallowed hsource whole (emitEffect E.rt op)
      (effectScript E.rt op) := performs_emitEffect op
  cases op with
  | dict entries =>
      exact Script.performs_ite (fun _ => performs_emitReport entries toolCallId) heffect
  | _ => exact heffect

theorem performs_frontendUpdates (toolCallId : Option String) (ops : List PyValue) :
    PerformsCustom E hallowed hsource whole (frontendUpdates E.rt toolCallId ops)
      (.forEach (updateScript E.rt toolCallId) ops) := by
  induction ops with
  | nil => exact Script.performs_pure
  | cons op ops ih =>
      exact Script.performs_bind (f := fun _ => frontendUpdates E.rt toolCallId ops)
        (performs_frontendUpdate toolCallId op) ih

theorem performs_handleToolSummary (payload : Entries) :
    PerformsCustom E hallowed hsource whole (handleToolSummary payload)
      (toolSummaryScript payload) := by
  unfold handleToolSummary toolSummaryScript
  cases (payload.get "text").nonemptyStr with
  | none => exact Script.performs_pure
  | some text =>
      cases (payload.get "tool_call_id").nonemptyStr with
      | none => exact Script.performs_pure
      | some toolCallId => exact performs_upsert (.summary toolCallId text) rfl

theorem performs_handleToolAction (payload : Entries) :
    PerformsCustom E hallowed hsource whole (handleToolAction payload)
      (toolActionScript payload) := by
  unfold handleToolAction toolActionScript
  cases (payload.get "tool_call_id").nonemptyStr with
  | none => exact Script.performs_pure
  | some toolCallId =>
      refine drain_customOwnership.performs_readSelf_bind fun t ht _ => ?_
      rw [ht]
      exact performs_upsert (.action toolCallId payload) rfl

theorem performs_handleToolEnd (payload : Entries) :
    PerformsCustom E hallowed hsource whole (handleToolEnd E.rt payload)
      (toolEndScript E.rt payload) := by
  unfold handleToolEnd toolEndScript
  cases payload.get "frontend_updates" with
  | list ops => exact performs_frontendUpdates _ ops
  | _ => exact Script.performs_pure

theorem performs_emitThreadEffect (kind : String) (active : Option Bool) :
    PerformsCustom E hallowed hsource whole (emitThreadEffect E.rt kind active)
      (threadEffectScript E.threadId kind active) := by
  refine drain_customOwnership.performs_readSelf_bind fun t ht _ => ?_
  rw [ht]
  exact performs_emitEffect _

/-- A link is no row. -/
theorem performs_recordSubagentLink {payload : Entries}
    (hstarts : ∀ subagentId tag, StartsSubagent payload subagentId tag →
      E.Started subagentId tag)
    (htype : (payload.get "content_type").isStr "subagent_start") :
    PerformsCustom E hallowed hsource whole (updateSelf (Translator.recordSubagentLink payload))
      .done := by
  intro es later _
  apply runs_atomically
  intro w hw
  have hconforms : E.Conforms w := hw.1
  rw [Script.done, List.append_nil]
  exact ⟨rfl, Setting.conforms_recordSubagentLink hstarts htype hconforms, hw.2⟩

theorem performs_handlePayload {payload : Entries}
    (hstarts : ∀ subagentId tag, StartsSubagent payload subagentId tag →
      E.Started subagentId tag) :
    PerformsCustom E hallowed hsource whole (handlePayload E.rt payload)
      (payloadScript E.rt E.threadId payload) := by
  apply Script.performs_ite fun _ => performs_handleToolSummary payload
  apply Script.performs_ite fun _ => performs_handleToolAction payload
  apply Script.performs_ite fun _ => performs_handleToolEnd payload
  apply Script.performs_ite fun _ => Script.performs_raise logs_customOwnership _
  apply Script.performs_ite fun _ => Script.performs_pure
  apply Script.performs_ite fun htype => performs_recordSubagentLink hstarts htype
  apply Script.performs_ite fun _ => Script.performs_pure
  apply Script.performs_ite fun _ => performs_emitThreadEffect _ _
  apply Script.performs_ite fun _ => performs_emitThreadEffect _ _
  apply Script.performs_ite fun _ => performs_emitThreadEffect _ _
  exact performs_emitEffect _

/-- The drain does what its feed asks for. -/
theorem performs_streamCustom {payloads : Feed PyValue}
    (hstarts : ∀ payload subagentId tag, .dict payload ∈ payloads.items →
      StartsSubagent payload subagentId tag → E.Started subagentId tag) :
    PerformsCustom E hallowed hsource whole (streamCustom E.rt payloads)
      (feedScript E.rt E.threadId payloads) := by
  refine drain_customOwnership.performs_drainProjection fun payload hm => ?_
  cases payload with
  | dict entries => exact performs_handlePayload fun subagentId tag => hstarts _ _ _ hm
  | _ => exact Script.performs_pure

end Drain

/-! ## What the store holds -/

def summaryWrite : CustomEntry → Option (String × Option Row)
  | .summary toolCallId text => some (toolCallId, some (summaryRow toolCallId text))
  | _ => none

def actionWrite (threadId : String) : CustomEntry → Option (String × Option Row)
  | .action toolCallId payload => some (toolCallId, some (actionRow threadId toolCallId payload))
  | _ => none

def reportWrite : CustomEntry → Option (String × Option (Entries × Option String))
  | .report fileId op toolCallId => some (fileId, some (op, toolCallId))
  | _ => none

section Store

variable {rt : Runtime} {threadId : String} {es : List CustomEntry} {rows : List Frame}

theorem changes_summaries (h : Shows rt threadId es rows) :
    (rows.filter fun f => f.type = .toolSummary).map Frame.change =
      es.filterMap summaryWrite := by
  induction h with
  | nil => rfl
  | cons hshown _ ih =>
      cases hshown with
      | summary toolCallId text => exact congrArg (_ :: ·) ih
      | _ => exact ih

theorem changes_actions (h : Shows rt threadId es rows) :
    (rows.filter fun f => f.type = .toolAction).map Frame.change =
      es.filterMap (actionWrite threadId) := by
  induction h with
  | nil => rfl
  | cons hshown _ ih =>
      cases hshown with
      | action toolCallId payload => exact congrArg (_ :: ·) ih
      | _ => exact ih

/-- A report, read off its row. -/
def ReportOf (rt : Runtime) (threadId fileId : String) (row : Row)
    (report : Entries × Option String) : Prop :=
  ∃ createdAt, row = reportRow rt threadId fileId report.1 createdAt report.2

theorem reports_of_shows (h : Shows rt threadId es rows) (fileId : String) :
    Option.Rel (ReportOf rt threadId fileId)
      ((LastWriter.collect
        ((rows.filter fun f => f.type = .report).map Frame.change)).get fileId)
      ((LastWriter.collect (es.filterMap reportWrite)).get fileId) := by
  apply LastWriter.get_collect_rel
  induction h with
  | nil => exact .nil
  | cons hshown _ ih =>
      cases hshown with
      | report fileId op toolCallId createdAt =>
          exact .cons ⟨rfl, .some ⟨createdAt, rfl⟩⟩ ih
      | _ => exact ih

/-- The rows of a channel are all there is of their types. -/
theorem filter_customFrames {type : RowType} (htype : (upsertFrame type "" .empty none).isCustom)
    (frames : List Frame) : (customFrames frames).filter (fun f => f.type = type) =
      frames.filter fun f => f.type = type := by
  rw [customFrames, List.filter_filter]
  refine List.filter_congr fun f _ => ?_
  by_cases hf : f.type = type
  · have hcustom : f.isCustom := by
      rw [← htype, Frame.isCustom, Frame.isCustom, hf]
      rfl
    simp [hf, hcustom]
  · simp [hf]

variable (rt threadId es) in
/-- The store holds the last summary and the last action of every call and the last report of
every file, the time of the report apart; every effect has a row of its own on the stream. -/
structure CustomStore (frames : List Frame) : Prop where
  rows : Shows rt threadId es (customFrames frames)
  summaries : collection .toolSummary frames = LastWriter.collect (es.filterMap summaryWrite)
  actions : collection .toolAction frames =
    LastWriter.collect (es.filterMap (actionWrite threadId))
  reports : ∀ fileId, Option.Rel (ReportOf rt threadId fileId)
    ((collection .report frames).get fileId)
    ((LastWriter.collect (es.filterMap reportWrite)).get fileId)

theorem customStore_of_shows {frames : List Frame}
    (h : Shows rt threadId es (customFrames frames)) : CustomStore rt threadId es frames where
  rows := h
  summaries := by
    rw [collection, ← filter_customFrames rfl, changes_summaries h]
  actions := by
    rw [collection, ← filter_customFrames rfl, changes_actions h]
  reports fileId := by
    rw [collection, ← filter_customFrames rfl]
    exact reports_of_shows h fileId

end Store

/-! ## Whole runs -/

/-- A run over a feed of custom payloads, next to anything that has none. -/
structure CustomRun where
  rt : Runtime
  threadId : String
  runId : String
  summaryPrefix : String
  orderStart : ℤ
  ordinalStart : ℤ
  before : List Activity
  payloads : Feed PyValue
  after : List Activity
  schedule : List Pick
  final : System
  alone : ∀ payload, ¬ drains rt (before ++ after) .custom (.payload payload)
  follows : (startSystem rt (Translator.seeded threadId runId summaryPrefix orderStart ordinalStart)
      (before ++ .custom payloads :: after)).follow schedule = some final

namespace CustomRun

variable (r : CustomRun)

def script : CustomScript := feedScript r.rt r.threadId r.payloads

/-- What the other tasks take, and the payloads, which may start subagents for them. -/
def heard (name : TaskName) (item : Item) : Prop :=
  drains r.rt (r.before ++ r.after) name item ∨
    ∃ payload ∈ r.payloads.items, name = .subagentLifecycle "" ∧ item = .payload payload

def setting : Setting := ⟨r.rt, r.threadId, r.summaryPrefix, r.heard, anyStep⟩

theorem not_heard (payload : PyValue) : ¬ r.setting.source .custom (.payload payload) := by
  rintro (h | ⟨_, _, hname, _⟩)
  · exact r.alone payload h
  · cases hname

def ownership : Ownership TaskName World PyException (List Frame) :=
  customOwnership r.setting (fun _ _ => trivial) r.not_heard r.script

theorem owned : OwnedBy r.ownership r.before.length .custom (.cancel r.before.length ∈ r.schedule)
    r.final := by
  refine owned_of_follow ⟨⟨?_, ?_⟩, ?_, ?_⟩ (fun _ => trivial) r.follows
  · exact Setting.conforms_start _ _ _ _ _ _ _ _
  · exact ⟨[], List.nil_prefix, .nil⟩
  · intro j thread hj hthread
    obtain ⟨other, hother, rfl⟩ := thread_of_other hj hthread
    exact stable_of_preserves
      (Setting.writes_activity (E := r.setting) (fun _ _ h => .inl h) hother) _
  · refine ⟨_, thread_of_own, .inr ?_⟩
    refine Script.owned_of_performs logs_customOwnership (performs_streamCustom ?_) .nil
    exact fun payload subagentId tag hm hstarts =>
      ⟨.subagentLifecycle "", payload, .inr ⟨_, hm, rfl, rfl⟩, hstarts⟩

/-- The custom drain has come to its end. -/
def Ended (failure : Option PyException) : Prop :=
  .cancel r.before.length ∉ r.schedule ∧
    r.final.threads[r.before.length]? = some (.custom, match failure with
      | none => .done
      | some exc => .fail exc)

/-- At any moment the store holds what the first payloads ask for, and what all of them ask for
once the drain has ended, with the exception that stands there. -/
structure Faithful : Prop where
  anytime : ∃ es, es <+: r.script.entries ∧
    CustomStore r.rt r.threadId es r.final.state.frames
  ended : ∀ failure, r.Ended failure → failure = r.script.failure ∧
    CustomStore r.rt r.threadId r.script.entries r.final.state.frames

end CustomRun

/-- The custom rows of a run are those of its payloads alone. -/
theorem custom_rows_of_run (r : CustomRun) : r.Faithful := by
  have howned := r.owned
  constructor
  · obtain ⟨_, es, hes, hshows⟩ := howned.rests
    exact ⟨es, hes, customStore_of_shows hshows⟩
  · rintro failure ⟨hcancel, hthread⟩
    cases failure with
    | none =>
        obtain ⟨hfailure, hshows⟩ := howned.ends hcancel hthread
        exact ⟨hfailure, customStore_of_shows hshows⟩
    | some exc =>
        obtain ⟨hfailure, hshows⟩ := howned.ends_of_fail hthread
        exact ⟨hfailure, customStore_of_shows hshows⟩

/-- A summary, and an update for the frontend that is no mapping. -/
def summaryThenNumber : Feed PyValue :=
  ⟨[.dict [("content_type", .str "tool_summary"), ("text", .str "read it"),
      ("tool_call_id", .str "c1")],
    .dict [("content_type", .str "tool_end"), ("frontend_updates", .list [.int 1])]], none⟩

/-- A user message is written while the drain waits for its second payload. -/
def summarising : CustomRun where
  rt := plainRuntime
  threadId := "t"
  runId := "r"
  summaryPrefix := "summarization-"
  orderStart := 0
  ordinalStart := 0
  before := [.source [.custom, .custom]]
  payloads := summaryThenNumber
  after := [.userMessage "u1" "hi" []]
  schedule := [.run 0, .run 1, .run 2, .run 0, .run 1, .run 1]
  final := ((startSystem plainRuntime (Translator.seeded "t" "r" "summarization-" 0 0)
    [.source [.custom, .custom], .custom summaryThenNumber, .userMessage "u1" "hi" []]).follow
      [.run 0, .run 1, .run 2, .run 0, .run 1, .run 1]).get rfl
  alone _ h := by
    cases h with
    | payload mem _ => simp at mem
  follows := rfl

theorem custom_rows_of_run_summarising :
    summarising.final.state.frames.map Frame.key = ["c1", "u1"] ∧
      summarising.Ended (some notAMapping) ∧ summarising.Faithful :=
  ⟨by decide, ⟨by decide, rfl⟩, custom_rows_of_run summarising⟩

end StreamDB
