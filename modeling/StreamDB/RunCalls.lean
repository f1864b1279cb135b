import StreamDB.RunSteps

/-!
# Everything a run writes

The calls of the writer a run makes, whatever it meets and wherever it is cut off: calls of its
shell, then the seeded state, then the rows of its channels, and calls of its shell again.
-/

namespace StreamDB

/-- The program only adds calls of a kind. -/
def Emits {α : Type} (kind : WriterCall → Prop) (p : Shell α) : Prop :=
  ∀ st, ∃ calls, (p st).2.calls = st.calls ++ calls ∧ ∀ c ∈ calls, kind c

section Emits

variable {α β : Type} {kind : WriterCall → Prop}

theorem emits_of_appends {p : Shell α} (h : Appends kind p) : Emits kind p := by
  intro st
  obtain ⟨calls, hcalls, _, hkind⟩ := h st
  exact ⟨calls, hcalls, hkind⟩

theorem emits_ite {c : Prop} [Decidable c] {p q : Shell α} (hp : Emits kind p)
    (hq : Emits kind q) : Emits kind (if c then p else q) := by
  by_cases h : c
  · rw [if_pos h]
    exact hp
  · rw [if_neg h]
    exact hq

/-- Two programs in a row, the second of which runs from where the first has left off. -/
theorem emits_trans {p : Shell α} {q : Shell β} {st st' : RunState} (hp : Emits kind p)
    (hq : Emits kind q) (hst : st' = (p st).2) :
    ∃ calls, (q st').2.calls = st.calls ++ calls ∧ ∀ c ∈ calls, kind c := by
  obtain ⟨calls, hcalls, hkind⟩ := hp st
  obtain ⟨calls', hcalls', hkind'⟩ := hq st'
  refine ⟨calls ++ calls', ?_, ?_⟩
  · rw [hcalls', hst, hcalls, List.append_assoc]
  · intro c hc
    rcases List.mem_append.mp hc with hc | hc
    · exact hkind c hc
    · exact hkind' c hc

theorem emits_bind {p : Shell α} {f : α → Shell β} (hp : Emits kind p)
    (hf : ∀ a, Emits kind (f a)) : Emits kind (p >>= f) := by
  intro st
  cases hr : p st with
  | mk r st' =>
      cases r with
      | error e =>
          rw [Effect.bind_of_error hr]
          simpa [hr] using hp st
      | ok a =>
          rw [Effect.bind_of_ok hr]
          exact emits_trans hp (hf a) (by rw [hr])

theorem emits_catching {p : Shell α} {handler : PyException → Shell α} (hp : Emits kind p)
    (hhandler : ∀ exc, Emits kind (handler exc)) : Emits kind (Effect.catching p handler) := by
  intro st
  cases hr : p st with
  | mk r st' =>
      cases r with
      | error e =>
          rw [Effect.catching_of_error handler hr]
          exact emits_trans hp (hhandler e) (by rw [hr])
      | ok a =>
          rw [Effect.catching_of_ok handler hr]
          simpa [hr] using hp st

end Emits

namespace Scenario

variable (s : Scenario)

def seedFrame (state : Entries) : Frame :=
  upsertFrame .agentState s.threadId
    ((OrderedDict.ofEntries [("id", .str s.threadId)]).update state) none

/-- The calls of the shell, the seeded state apart. -/
inductive ShellCall : WriterCall → Prop
  | runRow (status : String) (interrupt : Option PyValue) :
      ShellCall (.frame (s.runFrame status interrupt))
  | suggestion : ShellCall (.frame (deleteFrame .suggestion s.threadId))
  | interrupt {item : String × Row} (mem : item ∈ s.items) : ShellCall (interruptCall item)
  | close : ShellCall .close

def seedCalls : List WriterCall :=
  (s.initialState.map fun state => .frame (s.seedFrame state)).toList

def channelCalls : List WriterCall := s.channelRows.frames.map .frame

variable {s}

theorem emits_call (p : AwaitPoint) {c : WriterCall} (hc : s.ShellCall c) :
    Emits s.ShellCall (s.call p c) :=
  emits_of_appends (s.appends_call p hc)

theorem emits_awaits (p : AwaitPoint) : Emits s.ShellCall (s.awaits p) :=
  emits_of_appends (s.appends_awaits p)

theorem emits_raise {α : Type} (exc : PyException) :
    Emits s.ShellCall (Effect.raise exc : Shell α) :=
  emits_of_appends (appends_raise exc)

theorem emits_pure {α : Type} (a : α) : Emits s.ShellCall (pure a : Shell α) :=
  emits_of_appends (appends_pure a)

theorem emits_get : Emits s.ShellCall (Effect.get : Shell RunState) :=
  emits_of_appends appends_get

theorem emits_latch {f : RunState → RunState} (h : ∀ st, (f st).calls = st.calls) :
    Emits s.ShellCall (Effect.modify f : Shell Unit) :=
  fun st => ⟨[], by rw [Effect.modify_apply, h, List.append_nil], fun _ hc => nomatch hc⟩

theorem emits_announce : Emits s.ShellCall s.announce := by
  refine emits_ite (emits_bind emits_get fun st => emits_ite (emits_pure _) ?_) (emits_pure _)
  refine emits_bind (emits_latch fun st => ?_) fun _ => ?_
  · rfl
  · exact emits_bind (emits_call _ (.runRow _ _)) fun _ => emits_call _ .suggestion

theorem emits_abortRun (message : String) : Emits s.ShellCall (s.abortRun message) := by
  refine emits_bind emits_get fun st => emits_ite (emits_pure _) ?_
  refine emits_bind (emits_latch fun st => ?_) fun _ => ?_
  · rfl
  · exact emits_bind (emits_call _ (.runRow _ _)) fun _ => emits_call _ .close

theorem emits_handle (exc : PyException) : Emits s.ShellCall (s.handle exc) := by
  have hraise : ∀ message (e : PyException),
      Emits s.ShellCall (s.abortRun message >>= fun _ => (Effect.raise e : Shell Unit)) :=
    fun message e => emits_bind (emits_abortRun message) fun _ => emits_raise e
  apply emits_ite (hraise _ _)
  apply emits_ite
  · exact emits_ite (hraise _ _) (hraise _ _)
  · exact emits_raise _

theorem emits_awaitPreFinish : Emits s.ShellCall s.awaitPreFinish := by
  unfold awaitPreFinish
  cases s.preFinish with
  | none => exact emits_pure _
  | some raised =>
      apply emits_catching
      · exact emits_bind (emits_awaits _) fun _ => emits_of_appends (appends_raiseIfAny _)
      · exact fun exc => emits_ite (emits_pure _) (emits_raise _)

theorem emits_upsertInterrupts {items : List (String × Row)}
    (hitems : ∀ item ∈ items, item ∈ s.items) (i : ℕ) :
    Emits s.ShellCall (s.upsertInterrupts i items) := by
  induction items generalizing i with
  | nil => exact emits_pure _
  | cons item items ih =>
      refine emits_bind (emits_call _ (.interrupt (hitems item List.mem_cons_self))) fun _ => ?_
      exact ih (fun other hm => hitems other (List.mem_cons_of_mem _ hm)) _

theorem emits_writeOutcome : Emits s.ShellCall (s.writeOutcome s.items) := by
  have hrows := emits_upsertInterrupts (fun item (hm : item ∈ s.items) => hm) 0
  cases hitems : s.items with
  | nil => exact emits_call _ (.runRow _ _)
  | cons item items =>
      rw [hitems] at hrows
      exact emits_bind hrows fun _ => emits_call _ (.runRow _ _)

theorem emits_finalise : Emits s.ShellCall s.finalise := by
  refine emits_bind emits_get fun st => emits_ite (emits_pure _) ?_
  apply emits_bind emits_awaitPreFinish
  intro _ st
  by_cases hqueries : s.QueriesPass
  · rw [Effect.bind_of_ok (s.collectInterrupts_of_pass hqueries st)]
    exact emits_bind emits_writeOutcome (fun _ => emits_call _ .close) st
  · obtain ⟨exc, hexc⟩ := s.collectInterrupts_of_not_pass hqueries st
    rw [Effect.bind_of_error hexc]
    exact ⟨[], (List.append_nil _).symm, fun _ hc => nomatch hc⟩

/-! ## The calls of a whole run -/

variable (s) in
/-- Nothing keeps the run from entering its stream. -/
def Enters : Prop := s.cancelAt ≠ some .enterStream ∧ s.enter = none

theorem seedState_calls (st : RunState) : (s.seedState st).2.calls = st.calls ++ s.seedCalls := by
  unfold seedState seedCalls
  cases s.initialState with
  | none => exact (List.append_nil _).symm
  | some state =>
      by_cases hcut : s.cancelAt = some .initialState
      · exact congrArg (·.2.calls) (s.call_of_eq hcut _ st)
      · exact congrArg (·.2.calls) (s.call_of_ne hcut _ st)

theorem exitStream_calls (st : RunState) : (s.exitStream st).2 = st := by
  rw [exitStream]
  by_cases hcut : s.cancelAt = some .exitStream
  · rw [Effect.bind_of_error (s.awaits_of_eq hcut st)]
  · rw [Effect.bind_of_ok (s.awaits_of_ne hcut st)]
    cases s.exit with
    | raises exc => rfl
    | suppresses => rfl
    | passes =>
        cases s.channels with
        | none => rfl
        | some exc => rfl

theorem withStream_calls (st : RunState) :
    ∃ rows, (s.withStream st).2.calls = st.calls ++ rows ∧ rows <+: s.channelCalls ∧
      (s.Enters → rows = s.channelCalls) := by
  rw [withStream]
  by_cases hcut : s.cancelAt = some .enterStream
  · rw [Effect.bind_of_error (s.awaits_of_eq hcut st)]
    exact ⟨[], (List.append_nil _).symm, List.nil_prefix, fun h => absurd hcut h.1⟩
  · rw [Effect.bind_of_ok (s.awaits_of_ne hcut st)]
    cases henter : s.enter with
    | some exc =>
        refine ⟨[], (List.append_nil _).symm, List.nil_prefix, fun h => ?_⟩
        rw [h.2] at henter
        cases henter
    | none =>
        refine ⟨s.channelCalls, ?_, List.prefix_rfl, fun _ => rfl⟩
        exact congrArg RunState.calls (s.exitStream_calls _)

theorem guarded_calls (st : RunState) :
    ∃ rows post, (s.guarded st).2.calls = st.calls ++ rows ++ post ∧ rows <+: s.channelCalls ∧
      (s.Enters → rows = s.channelCalls) ∧ ∀ c ∈ post, s.ShellCall c := by
  obtain ⟨rows, hcalls, hinit, henters⟩ := s.withStream_calls st
  have hcaught : ∃ calls, (Effect.catching s.withStream s.handle st).2.calls =
      st.calls ++ rows ++ calls ∧ ∀ c ∈ calls, s.ShellCall c := by
    cases hr : s.withStream st with
    | mk r st' =>
        rw [hr] at hcalls
        cases r with
        | error e =>
            rw [Effect.catching_of_error s.handle hr, ← hcalls]
            exact emits_handle e st'
        | ok a =>
            rw [Effect.catching_of_ok s.handle hr, ← hcalls]
            exact ⟨[], (List.append_nil _).symm, fun _ hc => nomatch hc⟩
  obtain ⟨caught, hcaught, hkind⟩ := hcaught
  obtain ⟨last, hlast, hkind'⟩ := emits_finalise (Effect.catching s.withStream s.handle st).2
  refine ⟨rows, caught ++ last, ?_, hinit, henters, ?_⟩
  · have hstate : (s.guarded st).2 = (s.finalise (Effect.catching s.withStream s.handle st).2).2 :=
      Effect.withFinally_state s.finalise (Prod.ext rfl rfl)
    rw [hstate, hlast, hcaught, List.append_assoc]
  · intro c hc
    rcases List.mem_append.mp hc with hc | hc
    · exact hkind c hc
    · exact hkind' c hc

theorem shellCall_startState (started : Bool) :
    ∀ c ∈ (s.startState started).calls, s.ShellCall c := by
  cases started with
  | false => exact fun _ hc => nomatch hc
  | true =>
      intro c hc
      simp only [startState, if_true, List.mem_cons, List.not_mem_nil, or_false] at hc
      rcases hc with rfl | rfl
      · exact .runRow _ _
      · exact .suggestion

/-- What the calls of a run look like when its opening has been cut off or not. -/
theorem opening_calls (started : Bool) :
    ∃ pre mid, (s.opening (s.startState started)).2.calls = pre ++ mid ∧
      (∀ c ∈ pre, s.ShellCall c) ∧ mid <+: s.seedCalls ∧
      ((s.opening (s.startState started)).1 = .ok () → mid = s.seedCalls) := by
  obtain ⟨calls, hcalls, hkind⟩ := emits_announce (s.startState started)
  have hpre : ∀ c ∈ (s.startState started).calls ++ calls, s.ShellCall c := by
    intro c hc
    rcases List.mem_append.mp hc with hc | hc
    · exact shellCall_startState started c hc
    · exact hkind c hc
  cases hr : s.announce (s.startState started) with
  | mk r st =>
      rw [hr] at hcalls
      cases r with
      | error e =>
          rw [opening, Effect.bind_of_error hr]
          refine ⟨_, [], by rw [hcalls, List.append_nil], hpre, List.nil_prefix, fun h => ?_⟩
          cases h
      | ok a =>
          rw [opening, Effect.bind_of_ok hr]
          exact ⟨_, s.seedCalls, by rw [seedState_calls, hcalls], hpre, List.prefix_rfl,
            fun _ => rfl⟩

/-- Between calls of its shell a run writes the seeded state and the rows of its channels, all of
them unless it is cut off before. -/
theorem calls_of_run (started : Bool) :
    ∃ pre mid post, (s.run (s.startState started)).2.calls = pre ++ mid ++ post ∧
      (∀ c ∈ pre ++ post, s.ShellCall c) ∧ mid <+: s.seedCalls ++ s.channelCalls ∧
      (¬ s.CutShort started → s.Enters → mid = s.seedCalls ++ s.channelCalls) := by
  obtain ⟨pre, seeds, hopening, hpre, hseeds, hopened⟩ := s.opening_calls started
  cases hr : s.opening (s.startState started) with
  | mk r st =>
      rw [hr] at hopening hopened
      cases r with
      | error e =>
          rw [run, Effect.bind_of_error hr]
          refine ⟨pre, seeds, [], by rw [hopening, List.append_nil], by simpa using hpre,
            hseeds.trans (List.prefix_append _ _), fun hcut => ?_⟩
          have hok := s.opening_of_not_cutShort hcut
          rw [hr] at hok
          cases hok
      | ok a =>
          rw [run, Effect.bind_of_ok hr]
          obtain ⟨rows, post, hcalls, hrows, henters, hpost⟩ := s.guarded_calls st
          rw [hopened rfl] at hopening
          refine ⟨pre, s.seedCalls ++ rows, post, ?_, ?_, ?_, ?_⟩
          · rw [hcalls, hopening, List.append_assoc pre]
          · intro c hc
            rcases List.mem_append.mp hc with hc | hc
            · exact hpre c hc
            · exact hpost c hc
          · exact (List.prefix_append_right_inj _).mpr hrows
          · exact fun _ h => by rw [henters h]

inductive CallOf (s : Scenario) : WriterCall → Prop
  | shell {c : WriterCall} (call : s.ShellCall c) : CallOf s c
  | seed {state : Entries} (given : s.initialState = some state) :
      CallOf s (.frame (s.seedFrame state))
  | channel {f : Frame} (mem : f ∈ s.channelRows.frames) : CallOf s (.frame f)

/-- Every call a run makes is one of the calls listed. -/
theorem callOf_of_run (started : Bool) :
    ∀ c ∈ (s.run (s.startState started)).2.calls, s.CallOf c := by
  obtain ⟨pre, mid, post, hcalls, hshell, hmid, _⟩ := s.calls_of_run started
  intro c hc
  rw [hcalls, List.append_assoc, List.mem_append, List.mem_append] at hc
  rcases hc with hc | hc | hc
  · exact .shell (hshell c (List.mem_append_left _ hc))
  · rcases List.mem_append.mp (hmid.subset hc) with hc | hc
    · rw [seedCalls, Option.mem_toList, Option.map_eq_some_iff] at hc
      obtain ⟨state, hstate, rfl⟩ := hc
      exact .seed hstate
    · obtain ⟨f, hf, rfl⟩ := List.mem_map.mp hc
      exact .channel hf
  · exact .shell (hshell c (List.mem_append_right _ hc))

end Scenario

end StreamDB
