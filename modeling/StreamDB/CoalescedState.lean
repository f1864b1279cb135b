import StreamDB.Changes
import StreamDB.ClientState
import StreamDB.PyEquality
import StreamDB.Traces

/-!
# Coalesced agent state

The values drain writes a projection only when it differs from the one before. A client that
keeps the last row it was sent holds what it would hold if every projection had been written.
-/

namespace StreamDB

open Coroutine Changes

/-! ## Projections -/

def sameState (current prev : Entries) : Bool := (PyValue.dict current).eq (.dict prev)

/-- The projections of the snapshots that are dictionaries. -/
def projections (states : List PyValue) : List Entries :=
  states.filterMap fun
    | .dict state => some (projectClientState state)
    | _ => none

theorem projections_concat (states : List PyValue) (state : PyValue) :
    projections (states ++ [state]) = projections states ++ projections [state] :=
  List.filterMap_append

theorem eq_of_mem_projections {states : List PyValue} {current : Entries}
    (h : current ∈ projections states) :
    ∃ state, .dict state ∈ states ∧ current = projectClientState state := by
  obtain ⟨v, hv, hproj⟩ := List.mem_filterMap.mp h
  cases v with
  | dict state => exact ⟨state, hv, (Option.some.inj hproj).symm⟩
  | _ => cases hproj

theorem isUnchanged_eq (prev : Option Entries) (current : Entries) :
    isUnchanged prev current = prev.any (sameState current) := by
  cases prev with
  | none => rfl
  | some p => rfl

def rowEq (row row' : Row) : Bool := (PyValue.dict row.entries).eq (.dict row'.entries)

theorem entries_stateRow (threadId : String) (state : Entries) :
    (stateRow threadId (projectClientState state)).entries =
      ("id", .str threadId) :: projectClientState state := rfl

theorem lookup_id {k : String} {state : Entries} (hk : k ∈ (projectClientState state).map Prod.fst)
    (threadId : String) (entries : Entries) :
    OrderedDict.lookupEntries k (("id", .str threadId) :: entries) =
      OrderedDict.lookupEntries k entries := by
  have hne : "id" ≠ k := by
    rintro rfl
    exact absurd hk (by simp [projectClientState])
  rw [OrderedDict.lookupEntries, if_neg hne]

/-- The rows of two projections are equal when the projections are. -/
theorem rowEq_stateRow (threadId : String) (state state' : Entries) :
    rowEq (stateRow threadId (projectClientState state))
        (stateRow threadId (projectClientState state')) =
      sameState (projectClientState state) (projectClientState state') := by
  rw [rowEq, sameState, Bool.eq_iff_iff, entries_stateRow, entries_stateRow,
    PyValue.eq_dict_iff, PyValue.eq_dict_iff, List.forall_mem_cons]
  have hid : ∃ y, OrderedDict.lookupEntries "id"
      (("id", PyValue.str threadId) :: projectClientState state') = some y ∧
      (PyValue.str threadId).eq y := ⟨.str threadId, rfl, PyValue.eq_str.mpr rfl⟩
  simp only [List.length_cons, Nat.add_right_cancel_iff, hid, true_and]
  refine and_congr_right fun _ => forall₂_congr fun e he => ?_
  rw [lookup_id (List.mem_map_of_mem he)]

theorem sameState_trans (a b c : Entries) (h : sameState a b) (h' : sameState b c) :
    sameState a c :=
  PyValue.eq_trans _ _ _ h h'

theorem wellKeyed_get {state : Entries} (h : (PyValue.dict state).WellKeyed) (key : String) :
    (Entries.get state key).WellKeyed := by
  cases h with
  | dict _ _ values =>
      cases hk : OrderedDict.lookupEntries key state with
      | none =>
          rw [Entries.get, hk]
          exact .none
      | some v =>
          rw [Entries.get, hk]
          exact values _ (PyValue.mem_of_lookupEntries hk)

theorem wellKeyed_slugSlice (key : String) (state : Entries) : (slugSlice key state).WellKeyed := by
  rw [slugSlice]
  cases (Entries.get state key).nonemptyStr with
  | none => exact .none
  | some slug => exact .str slug

theorem wellKeyed_dictSlice {state : Entries} (h : (PyValue.dict state).WellKeyed)
    (key : String) : (dictSlice key state).WellKeyed := by
  have hget := wellKeyed_get h key
  rw [dictSlice]
  cases hv : Entries.get state key with
  | dict entries =>
      rw [hv] at hget
      exact hget
  | _ => exact .dict [] List.nodup_nil fun _ he => absurd he List.not_mem_nil

theorem wellKeyed_tasksSlice {state : Entries} (h : (PyValue.dict state).WellKeyed) :
    (tasksSlice state).WellKeyed := by
  have hget := wellKeyed_get h "tasks"
  rw [tasksSlice]
  cases hv : Entries.get state "tasks" with
  | dict tasks =>
      rw [hv] at hget
      cases hget with
      | dict _ _ values =>
          refine .list _ fun x hx => ?_
          obtain ⟨e, he, rfl⟩ := List.mem_map.mp hx
          exact values e he
  | _ => exact .list [] fun _ hx => absurd hx List.not_mem_nil

theorem wellKeyed_projectClientState {state : Entries} (h : (PyValue.dict state).WellKeyed) :
    (PyValue.dict (projectClientState state)).WellKeyed := by
  refine .dict _ (by simp [projectClientState]) ?_
  simp only [projectClientState, List.forall_mem_cons, List.not_mem_nil, false_implies,
    implies_true, and_true]
  exact ⟨wellKeyed_slugSlice _ _, wellKeyed_slugSlice _ _, wellKeyed_dictSlice h _,
    wellKeyed_dictSlice h _, wellKeyed_tasksSlice h⟩

theorem wellKeyed_of_mem_projections {states : List PyValue}
    (h : ∀ state ∈ states, state.WellKeyed) {current : Entries}
    (hcurrent : current ∈ projections states) : (PyValue.dict current).WellKeyed := by
  obtain ⟨state, hstate, rfl⟩ := eq_of_mem_projections hcurrent
  exact wellKeyed_projectClientState (h _ hstate)

/-! ## The drain -/

/-- What the drain has written after some snapshots, and what it would have written without
comparing them. -/
def coalesced (threadId : String) (states : List PyValue) : List Frame :=
  (changes sameState none (projections states)).map (stateFrame threadId)

def uncoalesced (threadId : String) (states : List PyValue) : List Frame :=
  (projections states).map (stateFrame threadId)

/-- Where the drain is suspended after `n` snapshots: before the next of those that remain, or in
the writer. -/
inductive Observing (error : Option PyException) (n : ℕ) (later : List PyValue) : TaskCode → Prop
  | taking (prev : Option Entries) :
      Observing error n later (streamSnapshots error n prev later).code
  | writing (prev : Option Entries) :
      Observing error n later (.wait (fun _ => true) (streamSnapshots error n prev later).code)

/-- A drain that has ended has no snapshots left. -/
theorem Observing.done {error : Option PyException} {n : ℕ} {later : List PyValue} {code : TaskCode}
    (h : Observing error n later code) (hcode : code = .done) : later = [] ∧ error = none := by
  cases h with
  | writing prev => cases hcode
  | taking prev =>
      cases later with
      | nil =>
          cases error with
          | none => exact ⟨rfl, rfl⟩
          | some exc => cases hcode
      | cons rawState later =>
          cases rawState with
          | dict state =>
              rw [streamSnapshots_dict] at hcode
              cases hcode
          | _ => cases hcode

structure Observed (threadId : String) (snapshots : Feed PyValue) (seen later : List PyValue)
    (code : TaskCode) (w : World) : Prop where
  items : snapshots.items = seen ++ later
  observing : Observing snapshots.error seen.length later code
  rows : stateFrames w.frames = coalesced threadId seen

def snapshotWatch (E : Setting) (snapshots : Feed PyValue) :
    Watch TaskName World PyException where
  env w w' := (E.Conforms w → E.Conforms w') ∧ stateFrames w'.frames = stateFrames w.frames
  holds _ code w := E.Conforms w ∧
    ∃ seen later, Observed E.threadId snapshots seen later code w
  env_refl _ := ⟨id, rfl⟩
  env_trans h h' := ⟨h'.1 ∘ h.1, h'.2.trans h.2⟩
  holds_env := by
    rintro _ code w w' ⟨hw, seen, later, hobs⟩ henv
    exact ⟨henv.1 hw, seen, later, hobs.items, hobs.observing, henv.2.trans hobs.rows⟩

theorem dict_or_skip (rawState : PyValue) :
    (∃ state, rawState = .dict state) ∨ projections [rawState] = [] := by
  cases rawState with
  | dict state => exact .inl ⟨state, rfl⟩
  | _ => exact .inr rfl

theorem stateFrames_write (w : World) (threadId : String) (state : Entries) :
    stateFrames (w.write (stateFrame threadId state)).frames =
      stateFrames w.frames ++ [stateFrame threadId state] :=
  stateFrames_append w.frames _

/-- A snapshot that is no dictionary changes nothing. -/
theorem streamSnapshots_skip {rawState : PyValue} (hproj : projections [rawState] = [])
    (error : Option PyException) (i : ℕ) (prev : Option Entries) (rest : List PyValue) :
    streamSnapshots error i prev (rawState :: rest) = (do
      Proc.awaiting fun w => decide (i < w.published .values)
      streamSnapshots error (i + 1) prev rest) := by
  cases rawState with
  | dict state => cases hproj
  | _ => rfl

theorem coalesced_skip {rawState : PyValue} (hproj : projections [rawState] = [])
    (threadId : String) (seen : List PyValue) :
    coalesced threadId (seen ++ [rawState]) = coalesced threadId seen := by
  rw [coalesced, projections_concat, hproj, List.append_nil, coalesced]

theorem coalesced_dict (threadId : String) (seen : List PyValue) (state : Entries) :
    coalesced threadId (seen ++ [.dict state]) = coalesced threadId seen ++
      if isUnchanged (projections seen).getLast? (projectClientState state) then []
      else [stateFrame threadId (projectClientState state)] := by
  have hproj : projections [.dict state] = [projectClientState state] := rfl
  rw [coalesced, projections_concat, hproj, changes_concat, Option.or_none, List.map_append,
    isUnchanged_eq, apply_ite (List.map _)]
  rfl

variable {E : Setting} {snapshots : Feed PyValue}

theorem along_close {W : Watch TaskName World PyException} {error : Option PyException}
    {h : List (World × World)} {s₀ s : World}
    (hholds : W.holds (h ++ [(s₀, s)]) (Feed.close ⟨([] : List PyValue), error⟩).code s) :
    W.Along (Feed.close ⟨([] : List PyValue), error⟩).code h s₀ s := by
  cases error with
  | none => exact hholds
  | some exc => exact hholds

theorem along_streamSnapshots (later : List PyValue) {seen : List PyValue}
    {prev : Option Entries} {h : List (World × World)} {s₀ s : World}
    (hitems : snapshots.items = seen ++ later) (hprev : prev = (projections seen).getLast?)
    (hs : E.Conforms s) (hrows : stateFrames s.frames = coalesced E.threadId seen) :
    (snapshotWatch E snapshots).Along
      (streamSnapshots snapshots.error seen.length prev later).code h s₀ s := by
  induction later generalizing seen prev h s₀ s with
  | nil => exact along_close ⟨hs, seen, [], hitems, .taking prev, hrows⟩
  | cons rawState later ih =>
      have hreading : Observing snapshots.error seen.length (rawState :: later)
          (streamSnapshots snapshots.error seen.length prev (rawState :: later)).code :=
        .taking prev
      have hlength : seen.length + 1 = (seen ++ [rawState]).length := by
        rw [List.length_append, List.length_singleton]
      have hitems' : snapshots.items = seen ++ [rawState] ++ later := by
        rw [hitems, List.append_assoc, List.singleton_append]
      rcases dict_or_skip rawState with ⟨state, rfl⟩ | hproj
      · have hprev' : some (projectClientState state) =
            (projections (seen ++ [.dict state])).getLast? := by
          rw [projections_concat]
          exact List.getLast?_concat.symm
        have hrows' := coalesced_dict E.threadId seen state
        rw [← hprev] at hrows'
        rw [streamSnapshots_dict] at hreading ⊢
        refine ⟨⟨hs, seen, .dict state :: later, hitems, hreading, hrows⟩, ?_⟩
        intro s' henv _
        have hs' := henv.1 hs
        have hframes := henv.2.trans hrows
        by_cases hun : isUnchanged prev (projectClientState state)
        · rw [if_pos hun, List.append_nil] at hrows'
          rw [if_pos hun, hlength]
          exact ih hitems' hprev' hs' (hframes.trans hrows'.symm)
        · rw [if_neg hun, ← hs'.threadId] at hrows'
          rw [if_neg hun, hlength]
          let w := s'.write (stateFrame s'.self.threadId (projectClientState state))
          have hw : E.Conforms w := ⟨hs'.threadId, hs'.summaryPrefix, hs'.links⟩
          have hwritten : stateFrames w.frames = coalesced E.threadId (seen ++ [.dict state]) := by
            rw [stateFrames_write, hframes, ← hs'.threadId, hrows']
          have hobserved : Observed E.threadId snapshots (seen ++ [.dict state]) later
              (.wait (fun _ => true)
                (streamSnapshots snapshots.error (seen ++ [PyValue.dict state]).length
                  (some (projectClientState state)) later).code) w :=
            ⟨hitems', .writing _, hwritten⟩
          refine ⟨⟨hw, _, _, hobserved⟩, ?_⟩
          intro s'' henv' _
          exact ih hitems' hprev' (henv'.1 hw) (henv'.2.trans hwritten)
      · rw [streamSnapshots_skip hproj] at hreading ⊢
        refine ⟨⟨hs, seen, rawState :: later, hitems, hreading, hrows⟩, ?_⟩
        intro s' henv _
        have hprev' : prev = (projections (seen ++ [rawState])).getLast? := by
          rw [projections_concat, hproj, List.append_nil, hprev]
        rw [hlength]
        refine ih hitems' hprev' (henv.1 hs) ?_
        rw [coalesced_skip hproj, henv.2, hrows]

theorem surrounds_snapshotWatch (hallowed : ∀ name w, E.allowed name w)
    (hsource : ∀ name state, ¬ E.source name (.snapshot state)) :
    (snapshotWatch E snapshots).Surrounds E.rowProtocol where
  anytime := hallowed
  anyhow _ _ := trivial
  inv h := h.1
  others hinv h := ⟨fun _ => hinv, stateFrames_eq_of_advances (hsource _) h⟩

/-! ## The store -/

def stateRows (threadId : String) (rows : List Row) : List Frame :=
  rows.map fun row => upsertFrame .agentState threadId row none

/-- The `agentState` row of a thread. -/
def agentState (threadId : String) (log : List Frame) : Option Row :=
  (collection .agentState log).get threadId

theorem agentState_eq {threadId : String} {log : List Frame} {rows : List Row}
    (h : stateFrames log = stateRows threadId rows) : agentState threadId log = rows.getLast? := by
  have hcollect : collection .agentState log =
      LastWriter.collect ((stateFrames log).map Frame.change) := rfl
  rw [agentState, hcollect, h]
  cases rows using List.reverseRecOn with
  | nil => rfl
  | append_singleton rows row =>
      rw [stateRows, List.map_append, List.map_append, List.getLast?_concat]
      exact (LastWriter.get_collect_concat _ _ _).trans (if_pos rfl)

def seedRow (threadId : String) (state : Entries) : Row :=
  (OrderedDict.ofEntries [("id", .str threadId)]).update state

namespace Scenario

variable (sc : Scenario)

/-- What the run has written when it enters its stream. -/
def openingFrames (started : Bool) : List Frame :=
  (sc.opening (sc.startState started)).2.calls.filterMap WriterCall.frame?

def seedRows : List Row := (sc.initialState.map (seedRow sc.threadId)).toList

theorem stateFrames_openingFrames {started : Bool}
    (hopened : (sc.opening (sc.startState started)).1 = .ok ()) :
    stateFrames (sc.openingFrames started) = stateRows sc.threadId sc.seedRows := by
  obtain ⟨pre, mid, hcalls, hpre, _, hmid⟩ := sc.opening_calls started
  rw [openingFrames, hcalls, hmid hopened, List.filterMap_append, stateFrames_append,
    stateFrames_calls sc hpre, List.nil_append, seedCalls, seedRows]
  cases sc.initialState with
  | none => rfl
  | some state => rfl

end Scenario

/-- Rows that `==` does not tell apart. -/
inductive SameRow : Option Row → Option Row → Prop
  | same (row : Option Row) : SameRow row row
  | equal {row row' : Row} (equal : rowEq row' row) : SameRow (some row) (some row')

theorem stateRows_append (threadId : String) (rows rows' : List Row) :
    stateRows threadId (rows ++ rows') = stateRows threadId rows ++ stateRows threadId rows' :=
  List.map_append

/-- The frames of projections are their rows. -/
theorem map_stateFrame (threadId : String) (states : List Entries) :
    states.map (stateFrame threadId) = stateRows threadId (states.map (stateRow threadId)) := by
  rw [stateRows, List.map_map]
  rfl

theorem stateFrames_stateRows (threadId : String) (rows : List Row) :
    stateFrames (stateRows threadId rows) = stateRows threadId rows := by
  rw [stateFrames, List.filter_eq_self]
  intro f hf
  obtain ⟨row, _, rfl⟩ := List.mem_map.mp hf
  rfl

/-- The last row written stands for the last projection. -/
theorem sameRow_getLast (threadId : String) (states : List PyValue) (seeds : List Row) :
    SameRow
      (seeds ++ (changes sameState none (projections states)).map (stateRow threadId)).getLast?
      (seeds ++ (projections states).map (stateRow threadId)).getLast? := by
  rw [List.getLast?_append, List.getLast?_append, List.getLast?_map, List.getLast?_map]
  cases hlast : (projections states).getLast? with
  | none =>
      rw [List.getLast?_eq_none_iff] at hlast
      rw [hlast]
      exact .same _
  | some current =>
      obtain ⟨written, hwritten, hsame⟩ := getLast?_changes sameState_trans hlast
      rw [hwritten]
      rcases hsame with rfl | hsame
      · exact .same _
      · obtain ⟨state, _, rfl⟩ := eq_of_mem_projections (List.mem_of_getLast? hlast)
        obtain ⟨state', _, rfl⟩ :=
          eq_of_mem_projections (mem_of_mem_changes (List.mem_of_getLast? hwritten))
        refine .equal ?_
        rw [rowEq_stateRow]
        exact hsame

/-- No two rows in a row that the drain writes are equal. -/
theorem isChain_coalesced {states : List PyValue} (h : ∀ state ∈ states, state.WellKeyed)
    (threadId : String) :
    (coalesced threadId states).IsChain fun f g => ∀ row row', f.value = some row →
      g.value = some row' → rowEq row' row = false := by
  have hsymm : ∀ a ∈ projections states, ∀ b, sameState a b → sameState b a :=
    fun a ha b hsame => PyValue.eq_symm (wellKeyed_of_mem_projections h ha) hsame
  refine (List.isChain_map _).mpr ((isChain_changes sameState_trans hsymm).imp_of_mem_imp ?_)
  intro a b ha hb hdiffers row row' hrow hrow'
  obtain ⟨state, _, rfl⟩ := eq_of_mem_projections (mem_of_mem_changes ha)
  obtain ⟨state', _, rfl⟩ := eq_of_mem_projections (mem_of_mem_changes hb)
  obtain rfl := Option.some.inj hrow
  obtain rfl := Option.some.inj hrow'
  rw [rowEq_stateRow]
  exact hdiffers

variable {rt : Runtime} {before after : List Activity} {threadId runId summaryPrefix : String}
  {s t : ℤ} {c : System}

/-- The drain has taken the snapshots in `seen` and is suspended at `code`, unless it has been
cancelled there. -/
structure DrainAt (snapshots : Feed PyValue) (i : ℕ) (ps : List Pick) (c : System)
    (seen later : List PyValue) (code : TaskCode) : Prop where
  items : snapshots.items = seen ++ later
  observing : Observing snapshots.error seen.length later code
  thread : c.threads[i]? = some (.values, code) ∨
    .cancel i ∈ ps ∧ c.threads[i]? = some (.values, .done)
  ended : .cancel i ∉ ps → c.threads[i]? = some (.values, .done) →
    later = [] ∧ snapshots.error = none

variable {ps : List Pick}

/-- In every state of a run the drain is somewhere in its snapshots. -/
theorem observed_of_follow
    (halone : ∀ name state, ¬ drains rt (before ++ after) name (.snapshot state))
    (hrun : (startSystem rt (Translator.seeded threadId runId summaryPrefix s t)
      (before ++ .values snapshots :: after)).follow ps = some c) :
    ∃ code seen later, DrainAt snapshots before.length ps c seen later code ∧
      stateFrames c.state.frames = coalesced threadId seen := by
  let E := settingOf rt threadId summaryPrefix (before ++ after) anyStep
  let w₀ := World.start (Translator.seeded threadId runId summaryPrefix s t)
  have hstart : (snapshotWatch E snapshots).holds [] (streamValues snapshots).code w₀ :=
    ⟨Setting.conforms_start _ _ _ _ _ _ _ _, [], snapshots.items, rfl, .taking none, rfl⟩
  have hwaits : (snapshotWatch E snapshots).Waits (streamValues snapshots).code [] w₀ := by
    refine Watch.waits_of_forgets (fun h => h) fun w henv => ?_
    exact along_streamSnapshots snapshots.items (List.nil_append _).symm rfl (henv.1 hstart.1)
      henv.2
  obtain ⟨h, code, htrace, hthread⟩ := (Watch.among_of_follow
    (surrounds_snapshotWatch (fun _ _ => trivial) halone) thread_of_own
    (fun _ _ hj hthread => stable_of_other hj hthread _) hstart hwaits hrun).trace
  obtain ⟨_, seen, later, hobserved⟩ := (Watch.holds_of_trace hstart hwaits htrace).1
  refine ⟨code, seen, later, ⟨hobserved.items, hobserved.observing, hthread, ?_⟩, hobserved.rows⟩
  intro hcancel hdone
  rcases hthread with hthread | ⟨hcancelled, _⟩
  · rw [hdone, Option.some.injEq, Prod.mk.injEq] at hthread
    exact hobserved.observing.done hthread.2.symm
  · exact absurd hcancelled hcancel

theorem projections_eq_nil {states : List PyValue} (h : ∀ state, .dict state ∉ states) :
    projections states = [] := by
  rw [List.eq_nil_iff_forall_not_mem]
  intro current hcurrent
  obtain ⟨state, hstate, _⟩ := eq_of_mem_projections hcurrent
  exact h state hstate

/-- Whenever the values drain is suspended, and when it has ended, the `agentState` row of the
client is the one it would have if nothing had been held back, and none is written twice in a
row. -/
theorem agentState_coalesced (sc : Scenario) (started : Bool)
    (hopened : (sc.opening (sc.startState started)).1 = .ok ())
    (halone : ∀ name state, ¬ drains rt (before ++ after) name (.snapshot state))
    (hrun : (startSystem rt (Translator.seeded sc.threadId runId summaryPrefix s t)
      (before ++ .values snapshots :: after)).follow ps = some c) :
    ∃ code seen later, DrainAt snapshots before.length ps c seen later code ∧
      SameRow (agentState sc.threadId (sc.openingFrames started ++ c.state.frames))
        (agentState sc.threadId (sc.openingFrames started ++ uncoalesced sc.threadId seen)) ∧
      ((∀ state, .dict state ∉ seen) →
        agentState sc.threadId (sc.openingFrames started ++ c.state.frames) =
          sc.initialState.map (seedRow sc.threadId)) ∧
      ((∀ state ∈ snapshots.items, state.WellKeyed) →
        (stateFrames c.state.frames).IsChain fun f g => ∀ row row', f.value = some row →
          g.value = some row' → rowEq row' row = false) := by
  obtain ⟨code, seen, later, hat, hrows⟩ := observed_of_follow halone hrun
  have hwritten : stateFrames (sc.openingFrames started ++ c.state.frames) =
      stateRows sc.threadId (sc.seedRows ++
        (changes sameState none (projections seen)).map (stateRow sc.threadId)) := by
    rw [stateFrames_append, sc.stateFrames_openingFrames hopened, hrows, coalesced,
      map_stateFrame, stateRows_append]
  have hplain : stateFrames (sc.openingFrames started ++ uncoalesced sc.threadId seen) =
      stateRows sc.threadId (sc.seedRows ++ (projections seen).map (stateRow sc.threadId)) := by
    rw [stateFrames_append, sc.stateFrames_openingFrames hopened, uncoalesced, map_stateFrame,
      stateFrames_stateRows, stateRows_append]
  refine ⟨code, seen, later, hat, ?_, ?_, ?_⟩
  · rw [agentState_eq hwritten, agentState_eq hplain]
    exact sameRow_getLast sc.threadId seen sc.seedRows
  · intro hnone
    rw [agentState_eq hwritten, projections_eq_nil hnone, changes, List.map_nil, List.append_nil,
      Scenario.seedRows]
    cases sc.initialState with
    | none => rfl
    | some state => rfl
  · intro hwell
    rw [hrows]
    refine isChain_coalesced (fun state hstate => hwell state ?_) sc.threadId
    rw [hat.items]
    exact List.mem_append_left _ hstate

/-- Two equal states with something else in between, after a seeded one. -/
def repeatedSnapshots : Feed PyValue := ⟨[.dict [], .int 1, .dict []], none⟩

def seededCalm : Scenario := { Scenario.calm with initialState := some [("tasks", .list [])] }

/-- The drain takes all three and ends. -/
def threeSnapshots : List Pick := List.replicate 3 (.run 0) ++ List.replicate 4 (.run 1)

def repeating : System :=
  (startSystem plainRuntime (Translator.seeded "t" "r" "summarization-" 0 0)
    ([.source [.values, .values, .values]] ++ .values repeatedSnapshots :: [])).after
      (fun _ _ => true) threeSnapshots (by decide)

theorem agentState_coalesced_repeated :
    (stateFrames repeating.state.frames).length = 1 ∧
      ∃ code, DrainAt repeatedSnapshots 1 threeSnapshots repeating repeatedSnapshots.items []
          code ∧
        SameRow (agentState "t" (seededCalm.openingFrames false ++ repeating.state.frames))
          (agentState "t" (seededCalm.openingFrames false ++
            uncoalesced "t" repeatedSnapshots.items)) ∧
        (stateFrames repeating.state.frames).IsChain fun f g => ∀ row row', f.value = some row →
          g.value = some row' → rowEq row' row = false := by
  have halone : ∀ name state, ¬ drains plainRuntime
      ([.source [.values, .values, .values]] ++ []) name (.snapshot state) := by
    intro name state h
    cases h with
    | snapshot mem _ => simp at mem
  have hrun : (startSystem plainRuntime (Translator.seeded "t" "r" "summarization-" 0 0)
      ([.source [.values, .values, .values]] ++ .values repeatedSnapshots :: [])).follow
        threeSnapshots = some repeating := follow_after _ _ _
  obtain ⟨code, seen, later, hat, hrow, -, hchain⟩ :=
    agentState_coalesced seededCalm false rfl halone hrun
  obtain ⟨rfl, -⟩ := hat.ended (by decide) rfl
  obtain rfl : repeatedSnapshots.items = seen := hat.items.trans (List.append_nil seen)
  refine ⟨by decide, code, hat, hrow, hchain fun state hstate => ?_⟩
  simp only [repeatedSnapshots, List.mem_cons, List.not_mem_nil, or_false] at hstate
  rcases hstate with rfl | rfl | rfl
  · exact .dict [] List.nodup_nil fun _ he => absurd he List.not_mem_nil
  · exact .int 1
  · exact .dict [] List.nodup_nil fun _ he => absurd he List.not_mem_nil

end StreamDB
