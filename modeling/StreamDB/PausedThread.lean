import StreamDB.ClientState
import StreamDB.DrainRows
import StreamDB.InterruptRows
import StreamDB.RunClosure

/-!
# The open interrupts of a thread

A client reads off its store how the run of a thread stands and which interrupts are open. A turn
that resumes the thread clears the interrupts it answers, and its run lists those that are open
when it pauses.
-/

namespace StreamDB

/-- `clear_interrupts`. -/
def clearInterrupts (interruptIds : List String) : List Frame :=
  interruptIds.map (deleteFrame .interrupt)

def openInterrupts (log : List Frame) : OrderedDict String Row := collection .interrupt log

def runStatus (runRowId : String) (log : List Frame) : Option PyValue :=
  ((collection .run log).get runRowId).bind fun row => row.get "status"

def interruptFrames (frames : List Frame) : List Frame :=
  frames.filter fun f => f.type = .interrupt

theorem openInterrupts_clearInterrupts (log : List Frame) (interruptIds : List String)
    (k : String) : (openInterrupts (log ++ clearInterrupts interruptIds)).get k =
      if k ∈ interruptIds then none else (openInterrupts log).get k := by
  have hall : (clearInterrupts interruptIds).filter (fun f => f.type = .interrupt) =
      clearInterrupts interruptIds := by
    rw [List.filter_eq_self]
    intro f hf
    obtain ⟨id, _, rfl⟩ := List.mem_map.mp hf
    rfl
  rw [openInterrupts, collection, List.filter_append, hall, List.map_append, clearInterrupts,
    List.map_map]
  exact LastWriter.get_collect_append_erased _ interruptIds k

namespace Scenario

variable (s : Scenario)

/-- `emit_run_finished`. -/
def emitRunFinished : Shell Unit := do
  s.setRun .finalRow "complete" none
  s.call .finalClose .close

/-- `emit_empty_run`. -/
def emitEmptyRun : Shell Unit := do
  s.emitRunStartedRow
  s.emitRunFinished

/-! ## Where a run writes interrupt rows -/

/-- A call that lists no interrupt. -/
def Unlisted (c : WriterCall) : Prop := ∀ f, c = .frame f → f.type ≠ .interrupt

variable {s}

theorem unlisted_frame {f : Frame} (h : f.type ≠ .interrupt) : Unlisted (.frame f) := by
  rintro g ⟨⟩
  exact h

theorem unlisted_close : Unlisted .close := fun _ h => nomatch h

theorem unlisted_runFrame (status : String) (interrupt : Option PyValue) :
    Unlisted (.frame (s.runFrame status interrupt)) := unlisted_frame (by simp [runFrame])

theorem interruptFrames_of_unlisted {calls : List WriterCall} (h : ∀ c ∈ calls, Unlisted c) :
    interruptFrames (calls.filterMap WriterCall.frame?) = [] := by
  rw [interruptFrames, List.filter_eq_nil_iff]
  intro f hf
  obtain ⟨c, hc, hcf⟩ := List.mem_filterMap.mp hf
  cases c with
  | close => cases hcf
  | frame g =>
      cases hcf
      simpa using h _ hc f rfl

theorem unlisted_startState (started : Bool) :
    ∀ c ∈ (s.startState started).calls, Unlisted c := by
  cases started with
  | false => exact List.forall_mem_nil _
  | true =>
      intro c hc
      simp only [startState, if_true, List.mem_cons, List.not_mem_nil, or_false] at hc
      rcases hc with rfl | rfl
      · exact unlisted_runFrame _ _
      · exact unlisted_frame (by simp)

theorem unlisted_emitRunStartedRow : Appends Unlisted s.emitRunStartedRow := by
  refine appends_bind appends_get fun st => appends_ite (appends_pure _) ?_
  refine appends_bind (fun st => Grows.refl _ st) fun _ => ?_
  exact appends_bind (s.appends_call _ (unlisted_runFrame _ _)) fun _ =>
    s.appends_call _ (unlisted_frame (by simp))

theorem unlisted_opening : Appends Unlisted s.opening := by
  refine appends_bind (appends_ite unlisted_emitRunStartedRow (appends_pure _)) fun _ => ?_
  unfold seedState
  cases s.initialState with
  | none => exact appends_pure _
  | some state => exact s.appends_call _ (unlisted_frame (by simp))

theorem unlisted_withStream (hrows : ∀ f ∈ s.channelRows.frames, f.type ≠ .interrupt) :
    Appends Unlisted s.withStream := by
  have hcalls : ∀ c ∈ s.channelRows.frames.map WriterCall.frame, Unlisted c := by
    intro c hc
    obtain ⟨f, hf, rfl⟩ := List.mem_map.mp hc
    exact unlisted_frame (hrows f hf)
  refine appends_bind (s.appends_awaits _) fun _ => ?_
  refine appends_bind (appends_raiseIfAny _) fun _ => ?_
  refine appends_bind (fun st => ⟨_, rfl, rfl, hcalls⟩) fun _ => ?_
  refine appends_bind (s.appends_awaits _) fun _ => ?_
  cases s.exit with
  | raises exc => exact appends_raise exc
  | suppresses => exact appends_pure _
  | passes => exact appends_raiseIfAny _

theorem unlisted_handle (exc : PyException) : Emits Unlisted (s.handle exc) := by
  have habort : ∀ message, Emits Unlisted (s.abortRun message) := by
    intro message
    refine emits_bind (emits_of_appends appends_get) fun st => ?_
    refine emits_ite (emits_of_appends (appends_pure _)) ?_
    refine emits_bind (fun st => ⟨[], (List.append_nil _).symm, List.forall_mem_nil _⟩) fun _ => ?_
    refine emits_bind (emits_of_appends (s.appends_call _ (unlisted_runFrame _ _))) fun _ => ?_
    exact emits_of_appends (s.appends_call _ unlisted_close)
  have hraise : ∀ message (e : PyException),
      Emits Unlisted (s.abortRun message >>= fun _ => (Effect.raise e : Shell Unit)) :=
    fun message e => emits_bind (habort message) fun _ => emits_of_appends (appends_raise e)
  apply emits_ite (hraise _ _)
  apply emits_ite
  · exact emits_ite (hraise _ _) (hraise _ _)
  · exact emits_of_appends (appends_raise _)

/-- A cancelled `_finalise` has listed the first interrupts. -/
theorem upsertInterrupts_lists (i : ℕ) (items : List (String × Row)) (st : RunState) :
    ∃ listed, listed <+: items ∧
      (s.upsertInterrupts i items st).2.calls = st.calls ++ listed.map interruptCall := by
  induction items generalizing i st with
  | nil => exact ⟨[], List.prefix_rfl, (List.append_nil _).symm⟩
  | cons item items ih =>
      by_cases hcut : s.cancelAt = some (.interruptRow i)
      · refine ⟨[item], ⟨items, rfl⟩, ?_⟩
        rw [upsertInterrupts, Effect.bind_of_error (s.call_of_eq hcut _ st)]
        rfl
      · rw [upsertInterrupts, Effect.bind_of_ok (s.call_of_ne hcut _ st)]
        obtain ⟨listed, hlisted, hcalls⟩ := ih (i + 1) { st with
          calls := st.calls ++ [interruptCall item] }
        refine ⟨item :: listed, List.cons_prefix_cons.mpr ⟨rfl, hlisted⟩, ?_⟩
        rw [hcalls, List.append_assoc]
        rfl

/-- The interrupt rows among some calls. -/
def Lists (s : Scenario) (listed : List (String × Row)) (calls calls' : List WriterCall) : Prop :=
  listed <+: s.items ∧ ∃ post, calls' = calls ++ (listed.map interruptCall ++ post) ∧
    ∀ c ∈ post, Unlisted c

theorem writeOutcome_lists (st : RunState) :
    ∃ listed, s.Lists listed st.calls (s.writeOutcome s.items st).2.calls := by
  cases hitems : s.items with
  | nil =>
      obtain ⟨post, hcalls, _, hpost⟩ := s.appends_call .finalRow
        (unlisted_runFrame (s := s) "complete" none) st
      exact ⟨[], List.nil_prefix, post, hcalls, hpost⟩
  | cons item items =>
      obtain ⟨listed, hlisted, hrows⟩ := s.upsertInterrupts_lists 0 (item :: items) st
      refine ⟨listed, by rwa [hitems], ?_⟩
      rw [writeOutcome]
      cases hr : s.upsertInterrupts 0 (item :: items) st with
      | mk r st' =>
          rw [hr] at hrows
          cases r with
          | error e =>
              rw [Effect.bind_of_error hr]
              exact ⟨[], by rw [List.append_nil]; exact hrows, List.forall_mem_nil _⟩
          | ok a =>
              rw [Effect.bind_of_ok hr]
              obtain ⟨post, hcalls, _, hpost⟩ := s.appends_call .finalRow
                (unlisted_runFrame (s := s) "interrupt" (some (.dict item.2.entries))) st'
              refine ⟨post, ?_, hpost⟩
              rw [← List.append_assoc, ← hrows]
              exact hcalls

theorem lists_nil (calls : List WriterCall) : s.Lists [] calls calls :=
  ⟨List.nil_prefix, [], (List.append_nil _).symm, List.forall_mem_nil _⟩

theorem Lists.trans {listed : List (String × Row)} {calls calls' calls'' later : List WriterCall}
    (h : s.Lists listed calls calls') (hcalls : calls'' = calls' ++ later)
    (hlater : ∀ c ∈ later, Unlisted c) : s.Lists listed calls calls'' := by
  obtain ⟨hlisted, post, rfl, hpost⟩ := h
  refine ⟨hlisted, post ++ later, by rw [hcalls, List.append_assoc, List.append_assoc], ?_⟩
  intro c hc
  exact (List.mem_append.mp hc).elim (hpost c) (hlater c)

theorem finalise_lists_some (st : RunState) :
    ∃ listed, s.Lists listed st.calls (s.finalise st).2.calls := by
  by_cases hst : st.errored = true
  · rw [s.finalise_of_errored hst]
    exact ⟨[], lists_nil _⟩
  · have hget : (Effect.get : Shell RunState) st = (.ok st, st) := rfl
    rw [finalise, Effect.bind_of_ok hget, if_neg hst]
    by_cases hhook : s.HookPasses
    · rw [Effect.bind_of_ok (s.awaitPreFinish_of_passes hhook st)]
      by_cases hqueries : s.QueriesPass
      · rw [Effect.bind_of_ok (s.collectInterrupts_of_pass hqueries st)]
        obtain ⟨listed, hlists⟩ := s.writeOutcome_lists st
        refine ⟨listed, ?_⟩
        cases hr : s.writeOutcome s.items st with
        | mk r st' =>
            rw [hr] at hlists
            cases r with
            | error e =>
                rw [Effect.bind_of_error hr]
                exact hlists
            | ok a =>
                rw [Effect.bind_of_ok hr]
                obtain ⟨later, hcalls, _, hlater⟩ := s.appends_call .finalClose unlisted_close st'
                exact hlists.trans hcalls hlater
      · obtain ⟨exc, hexc⟩ := s.collectInterrupts_of_not_pass hqueries st
        rw [Effect.bind_of_error hexc]
        exact ⟨[], lists_nil _⟩
    · obtain ⟨exc, hexc⟩ := s.awaitPreFinish_of_not_passes hhook st
      rw [Effect.bind_of_error hexc]
      exact ⟨[], lists_nil _⟩

/-- `_finalise` lists the open interrupts, all of them when it completes, and none after an
abort. -/
theorem finalise_lists (st : RunState) :
    ∃ listed, s.Lists listed st.calls (s.finalise st).2.calls ∧
      (st.errored = true → listed = []) ∧
      (st.errored = false → s.FinaliseCompletes → listed = s.items) := by
  by_cases hst : st.errored = true
  · rw [s.finalise_of_errored hst]
    exact ⟨[], lists_nil _, fun _ => rfl, fun h => absurd hst (by simp [h])⟩
  · by_cases hcompletes : s.FinaliseCompletes
    · rw [s.finalise_of_completes hcompletes (by simpa using hst)]
      refine ⟨s.items, ⟨List.prefix_rfl, _, rfl, ?_⟩, fun h => absurd h hst, fun _ _ => rfl⟩
      intro c hc
      simp only [List.mem_cons, List.not_mem_nil, or_false] at hc
      rcases hc with rfl | rfl
      · cases hitems : s.items with
        | nil => simpa only [outcomeFrame, hitems] using unlisted_runFrame _ _
        | cons item items => simpa only [outcomeFrame, hitems] using unlisted_runFrame _ _
      · exact unlisted_close
    · obtain ⟨listed, hlists⟩ := s.finalise_lists_some st
      exact ⟨listed, hlists, fun h => absurd h hst, fun _ h => absurd h hcompletes⟩

/-- An exception that an `except` clause has caught has latched the run. -/
theorem errored_of_handle {exc : PyException} (hcaught : Caught exc) {st : RunState}
    (hst : st.errored = false) : (s.handle exc st).2.errored = true := by
  rw [s.handle_of_caught hcaught]
  by_cases hcut : s.cancelAt = some .abortRow
  · rw [Effect.bind_of_error (s.abortRun_of_cut hcut (abortMessage exc) hst)]
  · have habort := s.abortRun_of_not_cut hcut (abortMessage exc) hst
    by_cases hclose : s.cancelAt = some .abortClose
    · rw [if_pos hclose] at habort
      rw [Effect.bind_of_error habort]
    · rw [if_neg hclose] at habort
      rw [Effect.bind_of_ok habort]
      rfl

/-- The interrupts a run lists: the open ones when its channels drain and `_finalise` completes,
and none when an exception is caught. -/
structure Listing (s : Scenario) (started : Bool) (listed : List (String × Row)) : Prop where
  inOrder : listed <+: s.items
  drained : ¬ s.CutShort started → s.leaving = none → s.FinaliseCompletes → listed = s.items
  caught : ∀ exc, s.leaving = some exc → Caught exc → listed = []

theorem guarded_lists (hrows : ∀ f ∈ s.channelRows.frames, f.type ≠ .interrupt) {st : RunState}
    (hst : ∀ c ∈ st.calls, Unlisted c) (herrored : st.errored = false) :
    ∃ pre listed post, (s.guarded st).2.calls = pre ++ (listed.map interruptCall ++ post) ∧
      (∀ c ∈ pre, Unlisted c) ∧ (∀ c ∈ post, Unlisted c) ∧ listed <+: s.items ∧
        (s.leaving = none → s.FinaliseCompletes → listed = s.items) ∧
          ∀ exc, s.leaving = some exc → Caught exc → listed = [] := by
  have hgrows := unlisted_withStream hrows st
  have hresult := s.withStream_result st
  cases hw : s.withStream st with
  | mk r st' =>
      rw [hw] at hgrows hresult
      have hst' := hgrows.mem hst
      have herrored' : st'.errored = false := hgrows.errored_eq.trans herrored
      cases hleaving : s.leaving with
      | none =>
          rw [hleaving] at hresult
          cases hresult
          obtain ⟨listed, ⟨hlisted, post, hcalls, hpost⟩, _, hall⟩ := finalise_lists (s := s) st'
          have hstate := Effect.withFinally_state s.finalise
            (Effect.catching_of_ok s.handle hw)
          refine ⟨st'.calls, listed, post, ?_, hst', hpost, hlisted, fun _ => hall herrored', ?_⟩
          · exact (congrArg RunState.calls hstate).trans hcalls
          · exact fun _ h => nomatch h
      | some exc =>
          rw [hleaving] at hresult
          cases hresult
          have hcatch := Effect.catching_of_error s.handle hw
          obtain ⟨later, hlater, hunlisted⟩ := unlisted_handle (s := s) exc st'
          obtain ⟨listed, ⟨hlisted, post, hcalls, hpost⟩, hnone, _⟩ :=
            finalise_lists (s := s) (s.handle exc st').2
          have hstate := Effect.withFinally_state s.finalise (hcatch.trans (Prod.ext rfl rfl))
          refine ⟨st'.calls ++ later, listed, post, ?_, ?_, hpost, hlisted, ?_, ?_⟩
          · rw [← hlater]
            exact (congrArg RunState.calls hstate).trans hcalls
          · intro c hc
            exact (List.mem_append.mp hc).elim (hst' c) (hunlisted c)
          · exact fun h => nomatch h
          · rintro exc' hexc hcaught
            cases hexc
            exact hnone (errored_of_handle hcaught herrored')

theorem run_lists (hrows : ∀ f ∈ s.channelRows.frames, f.type ≠ .interrupt) (started : Bool) :
    ∃ pre listed post, (s.run (s.startState started)).2.calls =
        pre ++ (listed.map interruptCall ++ post) ∧ (∀ c ∈ pre, Unlisted c) ∧
      (∀ c ∈ post, Unlisted c) ∧ s.Listing started listed := by
  have hopened := s.unlisted_opening (s.startState started)
  have hpre := hopened.mem (s.unlisted_startState started)
  cases hr : s.opening (s.startState started) with
  | mk r st =>
      rw [hr] at hpre hopened
      cases r with
      | error e =>
          rw [run, Effect.bind_of_error hr]
          refine ⟨st.calls, [], [], (List.append_nil _).symm, hpre, List.forall_mem_nil _,
            List.nil_prefix, fun hcut => ?_, fun _ _ _ => rfl⟩
          have hok := s.opening_of_not_cutShort hcut
          rw [hr] at hok
          cases hok
      | ok a =>
          rw [run, Effect.bind_of_ok hr]
          obtain ⟨pre, listed, post, hcalls, hpre', hpost, hlisted, hall, hnone⟩ :=
            guarded_lists hrows hpre hopened.errored_eq
          exact ⟨pre, listed, post, hcalls, hpre', hpost, hlisted, fun _ => hall, hnone⟩

/-! ## Turns of a thread -/

/-- What a turn runs: the graph, or nothing. -/
inductive Turn where
  | graph
  | empty

def turn (s : Scenario) : Turn → Shell Unit
  | .graph => s.run
  | .empty => s.emitEmptyRun

def turnFrames (s : Scenario) (kind : Turn) (started : Bool) : List Frame :=
  (s.turn kind (s.startState started)).2.calls.filterMap WriterCall.frame?

def ListedBy (s : Scenario) (started : Bool) (listed : List (String × Row)) : Turn → Prop
  | .graph => s.Listing started listed
  | .empty => listed = []

def EmptyCall (s : Scenario) (c : WriterCall) : Prop :=
  Unlisted c ∧ ∀ f, c.runRow? = some f →
    f.key = s.runRowId ∧ f.status ≠ some (.str "interrupt")

theorem emptyCall_runFrame {status : String} (h : status ≠ "interrupt")
    (interrupt : Option PyValue) : s.EmptyCall (.frame (s.runFrame status interrupt)) := by
  refine ⟨unlisted_runFrame _ _, ?_⟩
  intro f hf
  cases hf
  exact ⟨rfl, by rw [s.runFrame_status]; simpa using h⟩

theorem emptyCall_suggestion : s.EmptyCall (.frame (deleteFrame .suggestion s.threadId)) :=
  ⟨unlisted_frame (by simp), fun _ hf => nomatch hf⟩

theorem emptyCall_startState (started : Bool) :
    ∀ c ∈ (s.startState started).calls, s.EmptyCall c := by
  cases started with
  | false => exact List.forall_mem_nil _
  | true =>
      intro c hc
      simp only [startState, if_true, List.mem_cons, List.not_mem_nil, or_false] at hc
      rcases hc with rfl | rfl
      · exact emptyCall_runFrame (by simp) _
      · exact emptyCall_suggestion

theorem emptyCall_emitEmptyRun : Appends s.EmptyCall s.emitEmptyRun := by
  refine appends_bind ?_ fun _ => ?_
  · refine appends_bind appends_get fun st => appends_ite (appends_pure _) ?_
    refine appends_bind (fun st => Grows.refl _ st) fun _ => ?_
    refine appends_bind (s.appends_call _ (emptyCall_runFrame (by simp) _)) fun _ => ?_
    exact s.appends_call _ emptyCall_suggestion
  · refine appends_bind (s.appends_call _ (emptyCall_runFrame (by simp) _)) fun _ => ?_
    exact s.appends_call _ ⟨unlisted_close, fun _ hf => nomatch hf⟩

theorem emptyCall_of_empty (started : Bool) :
    ∀ c ∈ (s.emitEmptyRun (s.startState started)).2.calls, s.EmptyCall c :=
  (emptyCall_emitEmptyRun _).mem (emptyCall_startState started)

/-- The run rows of a turn are those of its thread. -/
theorem key_of_runRow {kind : Turn} {started : Bool} {f : Frame}
    (h : f ∈ runRows (s.turn kind (s.startState started)).2.calls) : f.key = s.runRowId := by
  obtain ⟨c, hc, hf⟩ := List.mem_filterMap.mp h
  cases kind with
  | empty => exact ((emptyCall_of_empty started c hc).2 f hf).1
  | graph =>
      cases s.callOf_of_run started c hc with
      | shell call =>
          cases call with
          | runRow status interrupt =>
              cases hf
              rfl
          | _ => cases hf
      | seed given => cases hf
      | channel mem =>
          rw [WriterCall.runRow?, if_neg (s.channelRows.notRun _ mem)] at hf
          cases hf

end Scenario

/-- The last run row of a turn is the one that the store holds. -/
theorem runStatus_of_last {runRowId : String} (log : List Frame) {calls : List WriterCall}
    {f : Frame} (hlast : (runRows calls).getLast? = some f) (hkey : f.key = runRowId) :
    runStatus runRowId (log ++ calls.filterMap WriterCall.frame?) = f.status := by
  have hrows : (calls.filterMap WriterCall.frame?).filter (fun f => f.type = .run) =
      runRows calls := by
    rw [← List.filterMap_eq_filter, List.filterMap_filterMap, runRows]
    congr 1
    funext c
    cases c with
    | close => rfl
    | frame g => simp [WriterCall.frame?, WriterCall.runRow?, Option.guard]
  obtain ⟨earlier, hearlier⟩ := List.getLast?_eq_some_iff.mp hlast
  rw [runStatus, collection, List.filter_append, hrows, hearlier, List.map_append,
    List.map_append, List.map_singleton, ← List.append_assoc, LastWriter.get_collect_concat]
  change (if f.key = runRowId then f.value else _).bind _ = _
  rw [if_pos hkey]
  rfl

/-- The rows of the listed interrupts, of two under one id the later one. -/
def listedRows (listed : List (String × Row)) : OrderedDict String Row :=
  LastWriter.collect (listed.map fun item => (item.1, some item.2))

theorem listedRows_isSome_iff {listed : List (String × Row)} :
    (∃ k, (listedRows listed).get k ≠ none) ↔ listed ≠ [] := by
  constructor
  · rintro ⟨k, hk⟩ rfl
    exact hk rfl
  · intro hne
    obtain ⟨earlier, item, rfl⟩ := (List.eq_nil_or_concat listed).resolve_left hne
    refine ⟨item.1, ?_⟩
    rw [listedRows, List.concat_eq_append, List.map_append, List.map_singleton,
      LastWriter.get_collect_concat, if_pos rfl]
    exact Option.some_ne_none _

theorem openInterrupts_append_listed (log : List Frame) {calls pre post : List WriterCall}
    {listed : List (String × Row)}
    (hcalls : calls = pre ++ (listed.map Scenario.interruptCall ++ post))
    (hpre : ∀ c ∈ pre, Scenario.Unlisted c) (hpost : ∀ c ∈ post, Scenario.Unlisted c)
    (k : String) : (openInterrupts (log ++ calls.filterMap WriterCall.frame?)).get k =
      ((listedRows listed).get k).or ((openInterrupts log).get k) := by
  have hmid : interruptFrames ((listed.map Scenario.interruptCall).filterMap WriterCall.frame?) =
      listed.map fun item => upsertFrame .interrupt item.1 item.2 none := by
    rw [interruptFrames, List.filterMap_map, List.filter_eq_self.mpr]
    · exact congrFun List.filterMap_eq_map listed
    · intro f hf
      obtain ⟨item, _, hitem⟩ := List.mem_filterMap.mp hf
      cases hitem
      rfl
  have hrows : interruptFrames (calls.filterMap WriterCall.frame?) =
      listed.map fun item => upsertFrame .interrupt item.1 item.2 none := by
    rw [hcalls, List.filterMap_append, List.filterMap_append, interruptFrames, List.filter_append,
      List.filter_append]
    change interruptFrames _ ++ (interruptFrames _ ++ interruptFrames _) = _
    rw [Scenario.interruptFrames_of_unlisted hpre, Scenario.interruptFrames_of_unlisted hpost,
      hmid, List.nil_append, List.append_nil]
  rw [openInterrupts, collection, List.filter_append, List.map_append]
  change (LastWriter.collect (_ ++ (interruptFrames _).map Frame.change)).get k = _
  rw [hrows, List.map_map, LastWriter.get_collect_append]
  · rfl
  · intro write hwrite
    obtain ⟨item, _, rfl⟩ := List.mem_map.mp hwrite
    rfl

/-- What the store of a thread holds once a turn has cleared the interrupts it answers and has
run. -/
structure TurnLeaves (s : Scenario) (kind : Scenario.Turn) (started : Bool) (before : List Frame)
    (answered : List String) (after : List Frame) : Prop where
  /-- Open are the interrupts the turn has listed, and those it has found and not answered. -/
  openRows : ∃ listed, s.ListedBy started listed kind ∧ ∀ k, (openInterrupts after).get k =
    ((listedRows listed).get k).or
      (if k ∈ answered then none else (openInterrupts before).get k)
  /-- A turn that answers all open interrupts and is closed reads paused if and only if one is
  open again. -/
  paused : Closed (s.turn kind (s.startState started)) →
    (∀ k, (openInterrupts before).get k ≠ none → k ∈ answered) →
    (runStatus s.runRowId after = some (.str "interrupt") ↔
      ∃ k, (openInterrupts after).get k ≠ none)

namespace Scenario

variable {s : Scenario}

theorem turn_lists (hrows : ∀ f ∈ s.channelRows.frames, f.type ≠ .interrupt) (kind : Turn)
    (started : Bool) : ∃ pre listed post, (s.turn kind (s.startState started)).2.calls =
        pre ++ (listed.map interruptCall ++ post) ∧ (∀ c ∈ pre, Unlisted c) ∧
      (∀ c ∈ post, Unlisted c) ∧ s.ListedBy started listed kind := by
  cases kind with
  | graph => exact run_lists hrows started
  | empty =>
      exact ⟨_, [], [], (List.append_nil _).symm, fun c hc => (emptyCall_of_empty started c hc).1,
        List.forall_mem_nil _, rfl⟩

theorem type_of_runRow {c : WriterCall} {f : Frame} (h : c.runRow? = some f) : f.type = .run := by
  cases c with
  | close => cases h
  | frame g =>
      change (if g.type = .run then some g else none) = some f at h
      split_ifs at h with hrun
      cases h
      exact hrun

theorem guardHolds_of_closed {started : Bool} (h : Closed (s.run (s.startState started))) :
    ¬ s.CutShort started ∧ s.GuardHolds := by
  by_cases hcut : s.CutShort started
  · obtain ⟨st, hquiet, hrun⟩ := s.run_of_cutShort hcut
    rw [hrun] at h
    exact absurd h (not_closed_of_closes (closes_of_quiet hquiet))
  · obtain ⟨st, hquiet, hst, hrun⟩ := s.run_of_not_cutShort hcut
    rw [hrun] at h
    exact ⟨hcut, (s.closed_guarded_iff hquiet hst).mp h⟩

/-- The last run row of a closed turn says whether the turn has listed an interrupt. -/
theorem status_of_closed {kind : Turn} {started : Bool} {listed : List (String × Row)} {f : Frame}
    (hclosed : Closed (s.turn kind (s.startState started)))
    (hlisted : s.ListedBy started listed kind)
    (hlast : (runRows (s.turn kind (s.startState started)).2.calls).getLast? = some f) :
    f.status = some (.str "interrupt") ↔ listed ≠ [] := by
  have hmem := List.mem_of_getLast? hlast
  obtain ⟨f', hlast', status, hterminal, hstatus, herror⟩ := hclosed.lastRow
  rw [hlast] at hlast'
  cases hlast'
  cases kind with
  | empty =>
      obtain ⟨c, hc, hf⟩ := List.mem_filterMap.mp hmem
      exact iff_of_false ((emptyCall_of_empty started c hc).2 f hf).2 (not_not_intro hlisted)
  | graph =>
      obtain ⟨hcut, hguard⟩ := guardHolds_of_closed hclosed
      obtain ⟨st, hquiet, hst, hrun⟩ := s.run_of_not_cutShort hcut
      cases hleaving : s.leaving with
      | none =>
          rw [GuardHolds, hleaving] at hguard
          obtain ⟨c, hc, hf⟩ := List.mem_filterMap.mp hmem
          have hrow : TerminalRunRow f := ⟨type_of_runRow hf, status, hterminal, hstatus⟩
          rw [settles_of_leaving_none hleaving started c hc f hf hrow, outcomeFrame_status,
            hlisted.drained hcut hleaving hguard]
          split_ifs with hitems
          · simp [hitems]
          · simp [hitems]
      | some exc =>
          rw [GuardHolds, hleaving] at hguard
          obtain ⟨st', _, hguarded⟩ :=
            s.guarded_of_caught hleaving hguard.1 hguard.2 hquiet hst
          have hstatus' : status = "error" := by
            apply herror
            change ∃ exc, (s.run (s.startState started)).1 = .error exc
            rw [hrun, hguarded]
            exact ⟨_, rfl⟩
          rw [hstatus, hstatus', hlisted.caught exc hleaving hguard.1]
          simp

/-- Whatever a thread has been through, a turn leaves open what it has listed and what it has
not answered; and the run row says `interrupt` after a closed turn exactly when a client that has
answered everything has something to answer again. -/
theorem turn_leaves {rt : Runtime} {threadId runId summaryPrefix : String}
    {orderStart ordinalStart : ℤ} {activities : List Activity} {c : System}
    (h : Coroutine.Reaches Coroutine.anyStep
      (startSystem rt (Translator.seeded threadId runId summaryPrefix orderStart ordinalStart)
        activities) c)
    (hchannels : s.channelRows.frames = c.state.frames) (kind : Turn) (started : Bool)
    (before : List Frame) (answered : List String) :
    TurnLeaves s kind started before answered
      (before ++ clearInterrupts answered ++ s.turnFrames kind started) := by
  have hrows : ∀ f ∈ s.channelRows.frames, f.type ≠ .interrupt := by
    intro f hf
    rw [hchannels] at hf
    obtain ⟨name, hwritten⟩ := written_of_reaches h f hf
    cases hwritten with
    | custom _ row =>
        cases row with
        | _ => simp
    | _ => simp
  obtain ⟨pre, listed, post, hcalls, hpre, hpost, hlisted⟩ := turn_lists hrows kind started
  have hopen := openInterrupts_append_listed (before ++ clearInterrupts answered) hcalls hpre hpost
  refine ⟨⟨listed, hlisted, fun k => ?_⟩, fun hclosed hanswered => ?_⟩
  · rw [turnFrames, hopen k, openInterrupts_clearInterrupts]
  · obtain ⟨f, hlast, _⟩ := hclosed.lastRow
    rw [turnFrames, runStatus_of_last _ hlast (key_of_runRow (List.mem_of_getLast? hlast)),
      status_of_closed hclosed hlisted hlast, ← listedRows_isSome_iff]
    refine exists_congr fun k => ?_
    have hnone : (if k ∈ answered then none else (openInterrupts before).get k) = none := by
      split_ifs with hk
      · rfl
      · by_contra hne
        exact hk (hanswered k hne)
    rw [hopen k, openInterrupts_clearInterrupts, hnone, Option.or_none]

/-- A store with an open interrupt that nobody has listed since. -/
def asked : List Frame :=
  [upsertFrame .interrupt "i0" (OrderedDict.ofEntries [("id", .str "i0")]) none]

theorem turn_leaves_asked :
    let after := asked ++ clearInterrupts ["i0"] ++ (pausedAt [question]).turnFrames .graph false
    (openInterrupts after).keys = ["i1"] ∧
      runStatus StreamDB.runRowId after = some (.str "interrupt") ∧
      TurnLeaves (pausedAt [question]) .graph false asked ["i0"] after :=
  ⟨by decide, rfl, turn_leaves (c := startSystem plainRuntime (Translator.seeded "t" "r" "" 0 0) [])
    .refl rfl .graph false asked ["i0"]⟩

end Scenario

end StreamDB
