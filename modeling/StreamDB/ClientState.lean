import StreamDB.OwnedChannel
import StreamDB.RunCalls

/-!
# What agent state reaches the client

The `agentState` rows of a run are the seeded one and those of the values drain. The drain writes
projections to the allowlist, so that they depend on the allowlisted slices of the snapshots only;
the seeded row is the caller's mapping as it is.
-/

namespace StreamDB

open Coroutine

def allowlist : List String :=
  ["active_project", "active_workflow", "context_window", "subagent_threads", "tasks"]

/-- Snapshots a client must not be able to tell apart. -/
def SlicesAgree : PyValue → PyValue → Prop
  | .dict state, .dict state' => ∀ key ∈ allowlist, Entries.get state key = Entries.get state' key
  | .dict _, _ => False
  | _, .dict _ => False
  | _, _ => True

theorem projectClientState_congr {state state' : Entries}
    (h : ∀ key ∈ allowlist, state.get key = state'.get key) :
    projectClientState state = projectClientState state' := by
  simp only [projectClientState, activeProjectSlice, activeWorkflowSlice, slugSlice,
    contextWindowSlice, subagentThreadsSlice, dictSlice, tasksSlice,
    h "active_project" (by simp [allowlist]), h "active_workflow" (by simp [allowlist]),
    h "context_window" (by simp [allowlist]), h "subagent_threads" (by simp [allowlist]),
    h "tasks" (by simp [allowlist])]

/-! ## The rows of the values drain -/

def stateFrame (threadId : String) (current : Entries) : Frame :=
  upsertFrame .agentState threadId (stateRow threadId current) none

def isUnchanged (prev : Option Entries) (current : Entries) : Bool :=
  match prev with
  | some p => (PyValue.dict current).eq (.dict p)
  | none => false

/-- What the loop of `_stream_values` writes for the remaining snapshots. -/
def snapshotFrames (threadId : String) : Option Entries → List PyValue → List Frame
  | _, [] => []
  | prev, rawState :: rest =>
      match rawState with
      | .dict state =>
          if isUnchanged prev (projectClientState state) then
            snapshotFrames threadId (some (projectClientState state)) rest
          else
            stateFrame threadId (projectClientState state) ::
              snapshotFrames threadId (some (projectClientState state)) rest
      | _ => snapshotFrames threadId prev rest

theorem streamSnapshots_dict (error : Option PyException) (i : ℕ) (prev : Option Entries)
    (state : Entries) (rest : List PyValue) :
    streamSnapshots error i prev (.dict state :: rest) = (do
      Proc.awaiting fun w => decide (i < w.published .values)
      if isUnchanged prev (projectClientState state) then
        streamSnapshots error (i + 1) (some (projectClientState state)) rest
      else do
        let t ← readSelf
        upsert .agentState t.threadId (stateRow t.threadId (projectClientState state)) none
        streamSnapshots error (i + 1) (some (projectClientState state)) rest) := by
  cases prev with
  | none => rfl
  | some p => rfl

theorem snapshotFrames_congr {states states' : List PyValue}
    (h : List.Forall₂ SlicesAgree states states') (threadId : String) (prev : Option Entries) :
    snapshotFrames threadId prev states = snapshotFrames threadId prev states' := by
  induction h generalizing prev with
  | nil => rfl
  | @cons v v' rest rest' hv _ ih =>
      cases v with
      | dict state =>
          cases v' with
          | dict state' =>
              simp only [snapshotFrames, projectClientState_congr hv, ih]
          | _ => exact hv.elim
      | _ =>
          cases v' with
          | dict state' => exact hv.elim
          | _ => exact ih prev

def Frame.isState (f : Frame) : Bool := f.type = .agentState

def stateFrames (frames : List Frame) : List Frame := frames.filter Frame.isState

theorem stateFrames_append (frames later : List Frame) :
    stateFrames (frames ++ later) = stateFrames frames ++ stateFrames later :=
  List.filter_append frames later

/-- Only the values drain writes `agentState` rows. -/
theorem not_isState {E : Setting} {name : TaskName} {f : Frame} (h : E.WrittenBy name f)
    (hsource : ∀ state, ¬ E.source name (.snapshot state)) : f.isState = false := by
  cases h with
  | custom _ row =>
      cases row with
      | _ => rfl
  | state item => exact absurd item (hsource _)
  | _ => rfl

theorem stateFrames_eq_of_advances {E : Setting} {name : TaskName} {w w' : World}
    (hsource : ∀ state, ¬ E.source name (.snapshot state)) (h : E.Advances name w w') :
    stateFrames w'.frames = stateFrames w.frames := by
  obtain ⟨frames, hframes, hrows⟩ := h.rows
  have hnone : stateFrames frames = [] := by
    rw [stateFrames, List.filter_eq_nil_iff]
    intro f hf
    simp [not_isState (hrows f hf) hsource]
  rw [hframes, stateFrames_append, hnone, List.append_nil]

/-- The `agentState` rows belong to the values drain when the others have no snapshots. -/
def stateOwnership (E : Setting) (hallowed : ∀ name w, E.allowed name w)
    (hsource : ∀ name state, ¬ E.source name (.snapshot state)) (rows : List Frame) :
    Ownership TaskName World PyException (List Frame) where
  env := E.rowProtocol
  part w := stateFrames w.frames
  mid v := v <+: rows
  ends _ v := v = rows
  anytime := hallowed
  anyhow _ _ := trivial
  others name _ _ h := stateFrames_eq_of_advances (hsource name) h

section Drain

variable {E : Setting} {hallowed : ∀ name w, E.allowed name w}
  {hsource : ∀ name state, ¬ E.source name (.snapshot state)} {rows : List Frame}

theorem runs_streamSnapshots (error : Option PyException) (i : ℕ) (prev : Option Entries)
    {states : List PyValue} {v : List Frame}
    (hv : v ++ snapshotFrames E.threadId prev states = rows) :
    Runs (stateOwnership E hallowed hsource rows) (Holds (stateOwnership E hallowed hsource rows) v)
      (streamSnapshots error i prev states)
      fun _ => Holds (stateOwnership E hallowed hsource rows) rows := by
  let O := stateOwnership E hallowed hsource rows
  induction states generalizing i prev v with
  | nil =>
      rw [snapshotFrames, List.append_nil] at hv
      subst hv
      cases error with
      | none => exact runs_pure fun _ h => h
      | some exc => exact runs_raise (O := O) List.prefix_rfl rfl
  | cons rawState rest ih =>
      have hmid : O.mid v := ⟨_, hv⟩
      cases rawState with
      | dict state =>
          rw [streamSnapshots_dict]
          refine runs_bind (runs_awaiting hmid) fun _ => ?_
          simp only [snapshotFrames] at hv
          by_cases hun : isUnchanged prev (projectClientState state)
          · rw [if_pos hun] at hv ⊢
            exact ih _ _ hv
          · rw [if_neg hun] at hv ⊢
            have hv' : (v ++ [stateFrame E.threadId (projectClientState state)]) ++
                snapshotFrames E.threadId (some (projectClientState state)) rest = rows := by
              rw [List.append_assoc]
              exact hv
            apply runs_readSelf_bind (O := O) (E := E) rfl
            intro t ht _
            rw [ht]
            refine runs_bind (runs_upsert (O := O) (E := E) rfl ?_ ⟨_, hv'⟩) fun _ => ih _ _ hv'
            intro w hw
            change stateFrames (w.frames ++ [_]) = _
            rw [stateFrames_append, show stateFrames w.frames = v from hw]
            rfl
      | _ => exact runs_bind (runs_awaiting hmid) fun _ => ih _ _ hv

end Drain

/-! ## Whole runs -/

def WriterCall.frame? : WriterCall → Option Frame
  | .frame f => some f
  | .close => none

/-- The shell itself writes no `agentState` rows but the seeded one. -/
theorem stateFrames_calls (sc : Scenario) {calls : List WriterCall}
    (h : ∀ c ∈ calls, sc.ShellCall c) : stateFrames (calls.filterMap WriterCall.frame?) = [] := by
  rw [stateFrames, List.filter_eq_nil_iff]
  intro f hf
  obtain ⟨c, hc, hcf⟩ := List.mem_filterMap.mp hf
  cases h c hc with
  | close => cases hcf
  | _ =>
      cases hcf
      intro hstate
      cases hstate

/-- A run over a stream of snapshots, next to anything that has none: the tasks of its channels
follow a schedule, and their rows are those its shell passes on. -/
structure SnapshotRun where
  rt : Runtime
  shell : Scenario
  started : Bool
  runId : String
  summaryPrefix : String
  orderStart : ℤ
  ordinalStart : ℤ
  before : List Activity
  snapshots : Feed PyValue
  after : List Activity
  schedule : List Pick
  final : System
  initialState : Entries
  alone : ∀ name state, ¬ drains rt (before ++ after) name (.snapshot state)
  follows : (startSystem rt
      (Translator.seeded shell.threadId runId summaryPrefix orderStart ordinalStart)
      (before ++ .values snapshots :: after)).follow schedule = some final
  rows : shell.channelRows.frames = final.state.frames
  given : shell.initialState = some initialState

namespace SnapshotRun

variable (r r' : SnapshotRun)

/-- The `agentState` frames the run writes, in order. -/
def stateRows : List Frame :=
  stateFrames ((r.shell.run (r.shell.startState r.started)).2.calls.filterMap WriterCall.frame?)

def expected : List Frame :=
  r.shell.seedFrame r.initialState :: snapshotFrames r.shell.threadId none r.snapshots.items

/-- The run gets to its stream, and the values drain to the end of its snapshots. -/
structure Complete : Prop where
  opened : ¬ r.shell.CutShort r.started
  entered : r.shell.Enters
  uncancelled : .cancel r.before.length ∉ r.schedule
  drained : r.final.threads[r.before.length]? = some (.values, .done) ∨
    ∃ exc, r.final.threads[r.before.length]? = some (.values, .fail exc)

theorem stateFrames_final :
    stateFrames r.final.state.frames <+:
        snapshotFrames r.shell.threadId none r.snapshots.items ∧
      (r.Complete → stateFrames r.final.state.frames =
        snapshotFrames r.shell.threadId none r.snapshots.items) := by
  let E := settingOf r.rt r.shell.threadId r.summaryPrefix (r.before ++ r.after) anyStep
  let O := stateOwnership E (fun _ _ => trivial) r.alone
    (snapshotFrames r.shell.threadId none r.snapshots.items)
  have howned : Owned O (streamValues r.snapshots).code
      (World.start (Translator.seeded r.shell.threadId r.runId r.summaryPrefix r.orderStart
        r.ordinalStart)) :=
    owned_code (runs_streamSnapshots r.snapshots.error 0 none (List.nil_append _))
      (fun w hw => ⟨⟨hw.1, by rw [hw.2]; exact List.prefix_rfl⟩, hw.2⟩) rfl
  have hfinal := owned_of_follow
    (ownedBy_start (a := .values r.snapshots) (O := O) rfl List.nil_prefix howned)
    (fun _ => trivial) r.follows
  refine ⟨hfinal.rests.2, fun h => ?_⟩
  rcases h.drained with hdone | ⟨exc, hfail⟩
  · exact hfinal.ends h.uncancelled hdone
  · exact hfinal.ends_of_fail hfail

theorem frames_channelCalls (sc : Scenario) :
    sc.channelCalls.filterMap WriterCall.frame? = sc.channelRows.frames := by
  rw [Scenario.channelCalls, List.filterMap_map]
  exact List.filterMap_some

theorem stateFrames_middle :
    stateFrames ((r.shell.seedCalls ++ r.shell.channelCalls).filterMap WriterCall.frame?) =
      r.shell.seedFrame r.initialState :: stateFrames r.final.state.frames := by
  rw [Scenario.seedCalls, r.given, List.filterMap_append, frames_channelCalls, r.rows]
  rfl

/-- A run writes the seeded state and then its projections, as far as it gets. -/
theorem stateRows_prefix :
    r.stateRows <+: r.expected ∧ (r.Complete → r.stateRows = r.expected) := by
  obtain ⟨pre, mid, post, hcalls, hshell, hmid, hall⟩ := r.shell.calls_of_run r.started
  have hpre := stateFrames_calls r.shell fun c hc => hshell c (List.mem_append_left _ hc)
  have hpost := stateFrames_calls r.shell fun c hc => hshell c (List.mem_append_right _ hc)
  have hrows : r.stateRows = stateFrames (mid.filterMap WriterCall.frame?) := by
    rw [stateRows, hcalls, List.filterMap_append, List.filterMap_append, stateFrames_append,
      stateFrames_append, hpre, hpost, List.nil_append, List.append_nil]
  obtain ⟨hfinal, hdrained⟩ := r.stateFrames_final
  constructor
  · have hinit : stateFrames (mid.filterMap WriterCall.frame?) <+:
        stateFrames ((r.shell.seedCalls ++ r.shell.channelCalls).filterMap WriterCall.frame?) :=
      (hmid.filterMap _).filter _
    rw [stateFrames_middle] at hinit
    rw [hrows]
    exact hinit.trans (List.cons_prefix_cons.mpr ⟨rfl, hfinal⟩)
  · intro h
    rw [hrows, hall h.opened h.entered, stateFrames_middle, hdrained h]
    rfl

end SnapshotRun

/-! ## Two runs -/

/-- The same frame, rows compared field by field. -/
structure Frame.Same (f g : Frame) : Prop where
  type : f.type = g.type
  key : f.key = g.key
  operation : f.operation = g.operation
  fields : ∀ name, f.field name = g.field name
  txid : f.txid = g.txid

theorem Frame.Same.refl (f : Frame) : f.Same f := ⟨rfl, rfl, rfl, fun _ => rfl, rfl⟩

/-- What an initial state says under a key, a missing id standing for the thread. -/
def seedField (threadId : String) (state : Entries) (key : String) : Option PyValue :=
  (OrderedDict.lookupEntries key state.reverse).or
    (if key = "id" then some (.str threadId) else none)

def SeedsAgree (threadId : String) (state state' : Entries) : Prop :=
  ∀ key, seedField threadId state key = seedField threadId state' key

theorem field_seedFrame (sc : Scenario) (state : Entries) (key : String) :
    (sc.seedFrame state).field key = seedField sc.threadId state key := by
  rw [Scenario.seedFrame, field_upsertFrame, OrderedDict.get_update, seedField]
  congr 1
  by_cases hk : key = "id"
  · subst hk
    rfl
  · have hk' : "id" ≠ key := fun h => hk h.symm
    simp [OrderedDict.ofEntries, OrderedDict.get_set, hk, hk']

theorem same_seedFrame_iff {sc sc' : Scenario} (hthread : sc.threadId = sc'.threadId)
    (state state' : Entries) :
    (sc.seedFrame state).Same (sc'.seedFrame state') ↔ SeedsAgree sc.threadId state state' := by
  constructor
  · intro h key
    have hfield := h.fields key
    rwa [field_seedFrame, field_seedFrame, ← hthread] at hfield
  · intro h
    refine ⟨rfl, hthread, rfl, fun key => ?_, rfl⟩
    rw [field_seedFrame, field_seedFrame, ← hthread]
    exact h key

theorem forall₂_same_refl (frames : List Frame) : List.Forall₂ Frame.Same frames frames := by
  induction frames with
  | nil => exact .nil
  | cons f frames ih => exact .cons (.refl f) ih

/-- Two complete runs over snapshots a client cannot tell apart write the same `agentState` frames
if and only if their initial states agree on every key; runs that are cut off write beginnings of
these. -/
theorem stateRows_agree_iff (r r' : SnapshotRun)
    (hthread : r.shell.threadId = r'.shell.threadId)
    (hsnapshots : List.Forall₂ SlicesAgree r.snapshots.items r'.snapshots.items) :
    (r.Complete → r'.Complete →
      (List.Forall₂ Frame.Same r.stateRows r'.stateRows ↔
        SeedsAgree r.shell.threadId r.initialState r'.initialState)) ∧
      (SeedsAgree r.shell.threadId r.initialState r'.initialState →
        ∃ rows rows', r.stateRows <+: rows ∧ r'.stateRows <+: rows' ∧
          List.Forall₂ Frame.Same rows rows') := by
  have hexpected : List.Forall₂ Frame.Same r.expected r'.expected ↔
      SeedsAgree r.shell.threadId r.initialState r'.initialState := by
    rw [SnapshotRun.expected, SnapshotRun.expected, ← hthread, ← snapshotFrames_congr hsnapshots,
      List.forall₂_cons, same_seedFrame_iff hthread]
    exact and_iff_left (forall₂_same_refl _)
  obtain ⟨hinit, hcomplete⟩ := r.stateRows_prefix
  obtain ⟨hinit', hcomplete'⟩ := r'.stateRows_prefix
  refine ⟨fun h h' => ?_, fun h => ⟨_, _, hinit, hinit', hexpected.mpr h⟩⟩
  rw [hcomplete h, hcomplete' h']
  exact hexpected

/-- A run without snapshots. -/
def seededRun (initialState : Entries) : SnapshotRun where
  rt := plainRuntime
  shell := { Scenario.calm with initialState := some initialState }
  started := false
  runId := "r"
  summaryPrefix := "summarization-"
  orderStart := 0
  ordinalStart := 0
  before := []
  snapshots := ⟨[], none⟩
  after := []
  schedule := []
  final := startSystem plainRuntime (Translator.seeded "t" "r" "summarization-" 0 0)
    [.values ⟨[], none⟩]
  initialState := initialState
  alone _ _ h := by
    cases h with
    | snapshot mem _ => cases mem
  follows := rfl
  rows := rfl
  given := rfl

theorem complete_seededRun (initialState : Entries) : (seededRun initialState).Complete where
  opened := by simp [Scenario.CutShort, Scenario.AnnounceCut, seededRun, Scenario.calm]
  entered := ⟨by simp [seededRun, Scenario.calm], rfl⟩
  uncancelled h := nomatch h
  drained := .inl rfl

/-- The same two projections, after messages that no client is shown. -/
def talking (text : String) : Feed PyValue :=
  ⟨[.dict [("messages", .str text), ("tasks", .dict [("t1", .str "todo")])],
    .dict [("messages", .list [.str text]), ("active_project", .str "p")]], none⟩

/-- Both snapshots are taken and written. -/
def takeTwo : List Pick := [.run 0, .run 0, .run 1, .run 1, .run 1, .run 1]

def talkingStart (text : String) : System :=
  startSystem plainRuntime (Translator.seeded "t" "r" "summarization-" 0 0)
    [.source [.values, .values], .values (talking text)]

def talked (text : String) : System :=
  (talkingStart text).after (fun _ _ => true) takeTwo rfl

theorem follow_talked (text : String) : (talkingStart text).follow takeTwo = some (talked text) :=
  follow_after _ _ _

def talkingRun (text : String) : SnapshotRun where
  rt := plainRuntime
  shell := { Scenario.calm with
    initialState := some [("plan", .str "x")]
    channelRows := ChannelRows.ofReaches (reaches_of_follow (follow_talked text)) }
  started := false
  runId := "r"
  summaryPrefix := "summarization-"
  orderStart := 0
  ordinalStart := 0
  before := [.source [.values, .values]]
  snapshots := talking text
  after := []
  schedule := takeTwo
  final := talked text
  initialState := [("plan", .str "x")]
  alone _ _ h := by
    cases h with
    | snapshot mem _ => simp at mem
  follows := follow_talked text
  rows := rfl
  given := rfl

theorem complete_talkingRun (text : String) : (talkingRun text).Complete where
  opened := by simp [Scenario.CutShort, Scenario.AnnounceCut, talkingRun, Scenario.calm]
  entered := ⟨by simp [talkingRun, Scenario.calm], rfl⟩
  uncancelled := by
    change Pick.cancel 1 ∉ takeTwo
    decide
  drained := .inl rfl

theorem slicesAgree_talking (text text' : String) :
    List.Forall₂ SlicesAgree (talking text).items (talking text').items := by
  refine .cons ?_ (.cons ?_ .nil)
  all_goals
    intro key hkey
    simp only [allowlist, List.mem_cons, List.not_mem_nil, or_false] at hkey
    rcases hkey with rfl | rfl | rfl | rfl | rfl
    all_goals rfl

theorem stateRows_agree_iff_talkingRun :
    ((talkingRun "secret").stateRows.length = 3 ∧
        (talkingRun "secret").snapshots.items ≠ (talkingRun "other").snapshots.items) ∧
      (List.Forall₂ Frame.Same (talkingRun "secret").stateRows (talkingRun "other").stateRows ↔
        SeedsAgree "t" [("plan", .str "x")] [("plan", .str "x")]) :=
  ⟨⟨rfl, by simp [talkingRun, talking]⟩,
    (stateRows_agree_iff (talkingRun "secret") (talkingRun "other") rfl
      (slicesAgree_talking _ _)).1 (complete_talkingRun _) (complete_talkingRun _)⟩

/-- The messages of the initial state reach the client. -/
theorem not_stateRows_agree :
    ¬ ∀ r r' : SnapshotRun, r.shell.threadId = r'.shell.threadId →
      SlicesAgree (.dict r.initialState) (.dict r'.initialState) →
      List.Forall₂ SlicesAgree r.snapshots.items r'.snapshots.items →
      r.Complete → r'.Complete → List.Forall₂ Frame.Same r.stateRows r'.stateRows := by
  intro h
  let r := seededRun [("messages", .str "secret")]
  let r' := seededRun [("messages", .str "other")]
  have hslices : SlicesAgree (.dict r.initialState) (.dict r'.initialState) := by
    intro key hkey
    simp only [allowlist, List.mem_cons, List.not_mem_nil, or_false] at hkey
    rcases hkey with rfl | rfl | rfl | rfl | rfl
    all_goals rfl
  have hsame := h r r' rfl hslices .nil (complete_seededRun _) (complete_seededRun _)
  rw [r.stateRows_prefix.2 (complete_seededRun _), r'.stateRows_prefix.2 (complete_seededRun _)]
    at hsame
  have hseeds := (same_seedFrame_iff rfl _ _).mp (List.forall₂_cons.mp hsame).1 "messages"
  have htexts : some (PyValue.str "secret") = some (PyValue.str "other") := hseeds
  simp at htexts

end StreamDB
