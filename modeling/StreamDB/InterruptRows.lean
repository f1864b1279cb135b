import StreamDB.RunOutcome

/-!
# The rows of a paused run

The adapter makes one row of every interrupt whose payload is a dictionary, in order, and skips
the others. The outcome of a run whose channels have drained is decided by these rows.
-/

namespace StreamDB

open ChannelPhase

/-- The payload of an interrupt the adapter does not skip. -/
def dictPayload (interrupt : Interrupt) : Option Entries :=
  match interrupt.value with
  | .dict payload => some payload
  | _ => none

theorem adapted_iff {rt : Runtime} {fresh : String} {interrupt : Interrupt} :
    langgraphInterruptToAgUiInterrupt rt fresh interrupt = none ↔ dictPayload interrupt = none := by
  unfold langgraphInterruptToAgUiInterrupt dictPayload
  cases interrupt.value with
  | _ => simp

theorem dictPayload_of_adapted {rt : Runtime} {fresh : String} {interrupt : Interrupt}
    {item : AgUiInterrupt}
    (h : langgraphInterruptToAgUiInterrupt rt fresh interrupt = some item) :
    dictPayload interrupt = some item.metadata := by
  unfold langgraphInterruptToAgUiInterrupt at h
  unfold dictPayload
  cases hvalue : interrupt.value with
  | dict payload =>
      rw [hvalue] at h
      cases h
      rfl
  | _ => rw [hvalue] at h; cases h

theorem metadata_row (item : AgUiInterrupt) (threadId : String) :
    (item.row threadId).get "metadata" = some (.dict item.metadata) := by
  simp [AgUiInterrupt.row, OrderedDict.get_set, OrderedDict.get_setSome, OrderedDict.ofEntries]

theorem metadata_interruptRowsFrom (rt : Runtime) (threadId : String)
    (seen : OrderedDict String ℕ) (uuids : ℕ) (interrupts : List Interrupt) :
    (interruptRowsFrom rt threadId seen uuids interrupts).map (fun row => row.2.get "metadata") =
      (interrupts.filterMap dictPayload).map fun payload => some (.dict payload) := by
  induction interrupts generalizing seen uuids with
  | nil => rfl
  | cons interrupt interrupts ih =>
      rw [interruptRowsFrom]
      cases hitem : langgraphInterruptToAgUiInterrupt rt (rt.uuidHex uuids) interrupt with
      | none => rw [List.filterMap_cons_none (adapted_iff.mp hitem), ih]
      | some item =>
          rw [List.filterMap_cons_some (dictPayload_of_adapted hitem), List.map_cons,
            List.map_cons, metadata_row, ih]

/-- One row for each interrupt with a dictionary, carrying it, in the order of the interrupts. -/
theorem metadata_agUiInterruptRows (rt : Runtime) (uuids : ℕ) (threadId : String)
    (interrupts : List Interrupt) :
    (agUiInterruptRows rt uuids threadId interrupts).map (fun row => row.2.get "metadata") =
      (interrupts.filterMap dictPayload).map fun payload => some (.dict payload) :=
  metadata_interruptRowsFrom rt threadId .empty uuids interrupts

theorem agUiInterruptRows_eq_nil {rt : Runtime} {uuids : ℕ} {threadId : String}
    {interrupts : List Interrupt} :
    agUiInterruptRows rt uuids threadId interrupts = [] ↔
      ∀ interrupt ∈ interrupts, dictPayload interrupt = none := by
  rw [← List.map_eq_nil_iff, metadata_agUiInterruptRows, List.map_eq_nil_iff,
    List.filterMap_eq_nil_iff]

namespace Scenario

variable {s : Scenario}

/-! ## The run row -/

/-- The only terminal run row a call can write is that of the outcome. -/
def Settles (s : Scenario) (c : WriterCall) : Prop :=
  ∀ f, c.runRow? = some f → TerminalRunRow f → f = s.outcomeFrame

theorem settles_of_quiet {c : WriterCall} (h : Quiet c) : s.Settles c := by
  intro f hf hterminal
  obtain ⟨status, hmem, hstatus⟩ := hterminal.2
  rw [h.2 f hf, Option.some.injEq, PyValue.str.injEq] at hstatus
  rw [← hstatus] at hmem
  simp [terminalStatuses] at hmem

theorem settles_of_onlyOutcome {c : WriterCall} (h : s.OnlyOutcome c) : s.Settles c :=
  fun f hf _ => h f hf

/-- When nothing leaves the stream, the run adds no terminal row but that of the outcome, whatever
cuts into the rest of it. -/
theorem settles_of_leaving_none (hstream : s.leaving = none) (started : Bool) :
    ∀ c ∈ (s.run (s.startState started)).2.calls, s.Settles c := by
  by_cases hcut : s.CutShort started
  · obtain ⟨st, hquiet, hrun⟩ := s.run_of_cutShort hcut
    rw [hrun]
    exact fun c hc => settles_of_quiet (hquiet c hc)
  · obtain ⟨st, hquiet, hst, hrun⟩ := s.run_of_not_cutShort hcut
    obtain ⟨st', hquiet', _, hstreamed⟩ := s.withStream_spec hquiet hst
    rw [hstream] at hstreamed
    have hcatch := Effect.catching_of_ok s.handle hstreamed
    have hsettles : ∀ c ∈ (s.finalise st').2.calls, s.Settles c :=
      ((s.appends_finalise st').mono fun _ => settles_of_onlyOutcome).mem
        fun c hc => settles_of_quiet (hquiet' c hc)
    rw [hrun, guarded, Effect.withFinally_state _ hcatch]
    exact hsettles

theorem items_of_paused {interrupts : List Interrupt} (hpaused : s.interrupted = .ok true)
    (hinterrupts : s.interrupts = .ok interrupts) :
    s.items = agUiInterruptRows s.rt s.uuids s.threadId interrupts := by
  rw [items, hpaused, hinterrupts]

/-- Channels that all return, over an orderly stream. -/
theorem Orderly.leaving_of_returns {ph : ChannelPhase} (h : s.Orderly ph)
    (hreturns : ∀ f ∈ ph.finished, f.did = .returns) (hparent : ph.parentCancelled = false) :
    s.leaving = none := by
  rw [h.undisturbed.leaving, ChannelPhase.outcome,
    if_neg (by simp [errors_eq_nil_of_returns hreturns]),
    if_neg (by simp [hparent])]

/-- A paused run whose channels have drained: the adapter makes one row of every open interrupt
with a dictionary; if there is one, no terminal run row says anything but `interrupt`; and unless
something cuts into the run, the rows are written in front of the terminal run row. -/
theorem paused_run_reported (hstream : s.leaving = none) (hpaused : s.interrupted = .ok true)
    {interrupts : List Interrupt} (hinterrupts : s.interrupts = .ok interrupts)
    (started : Bool) :
    (agUiInterruptRows s.rt s.uuids s.threadId interrupts).map (fun row => row.2.get "metadata") =
        (interrupts.filterMap dictPayload).map (fun payload => some (.dict payload)) ∧
      ((∃ interrupt ∈ interrupts, dictPayload interrupt ≠ none) →
        ∀ f ∈ runRows (s.run (s.startState started)).2.calls, TerminalRunRow f →
          f.status = some (.str "interrupt")) ∧
      (¬ s.CutShort started → s.FinaliseCompletes →
        ∃ before final, (s.run (s.startState started)).2.calls =
            before ++ ((agUiInterruptRows s.rt s.uuids s.threadId interrupts).map interruptCall ++
              [.frame final, .close]) ∧
          (∀ c ∈ before, Quiet c) ∧ TerminalRunRow final) := by
  have hitems := items_of_paused hpaused hinterrupts
  refine ⟨metadata_agUiInterruptRows _ _ _ _, ?_, ?_⟩
  · rintro ⟨interrupt, hmem, hdict⟩ f hf hterminal
    have hrows : s.items ≠ [] := by
      rw [hitems]
      exact fun hnil => hdict (agUiInterruptRows_eq_nil.mp hnil interrupt hmem)
    obtain ⟨c, hc, hrow⟩ := List.mem_filterMap.mp hf
    rw [settles_of_leaving_none hstream started c hc f hrow hterminal, outcomeFrame_status,
      if_neg hrows]
  · intro hcut hcompletes
    obtain ⟨st, hquiet, hst, hrun⟩ := s.run_of_not_cutShort hcut
    obtain ⟨st', hquiet', hend⟩ := s.guarded_of_none hstream hcompletes hquiet hst
    rw [hrun, hend, ← hitems]
    exact ⟨st'.calls, s.outcomeFrame, rfl, hquiet', s.terminal_outcomeFrame⟩

/-- Every channel returns. -/
def drained : ChannelPhase where
  finished := [⟨.messages, .returns, false⟩, ⟨.toolCalls, .returns, false⟩,
    ⟨.values, .returns, false⟩, ⟨.custom, .returns, false⟩, ⟨.subgraphs, .returns, false⟩]
  aborting := false
  parentCancelled := false

theorem returns_drained : ∀ f ∈ drained.finished, f.did = .returns := by
  simp [drained]

theorem reaches_drained : ChannelPhase.Reaches drained := by
  have hmessages := Reaches.start.returns .messages (by decide)
  have htools := hmessages.returns .toolCalls (by decide)
  have hvalues := htools.returns .values (by decide)
  have hcustom := hvalues.returns .custom (by decide)
  exact hcustom.returns .subgraphs (by decide)

/-- A clean run, paused at the given interrupts. -/
def pausedAt (interrupts : List Interrupt) : Scenario :=
  { calm with
    channels := drained.outcome
    interrupted := .ok true
    interrupts := .ok interrupts }

theorem orderly_pausedAt (interrupts : List Interrupt) : (pausedAt interrupts).Orderly drained where
  joined ch := by
    cases ch with
    | _ => decide
  channels := rfl
  enter := rfl
  exit := rfl
  hook _ h := nomatch h
  interrupted := ⟨true, rfl⟩
  interrupts := ⟨interrupts, rfl⟩
  cancelAt := rfl

def question : Interrupt :=
  ⟨.dict [("type", .str "ask_question"), ("tool_call_id", .str "c1")], some "i1"⟩

/-- What `interrupt("approve?")` leaves open. -/
def bareQuestion : Interrupt := ⟨.str "approve?", some "i2"⟩

theorem paused_run_reported_question :
    (agUiInterruptRows plainRuntime 0 "t" [bareQuestion, question]).map
        (fun row => row.2.get "metadata") =
        ([bareQuestion, question].filterMap dictPayload).map (fun payload => some (.dict payload)) ∧
      ((∃ interrupt ∈ [bareQuestion, question], dictPayload interrupt ≠ none) →
        ∀ f ∈ runRows ((pausedAt [bareQuestion, question]).run
            ((pausedAt [bareQuestion, question]).startState false)).2.calls, TerminalRunRow f →
          f.status = some (.str "interrupt")) ∧
      (¬ (pausedAt [bareQuestion, question]).CutShort false →
        (pausedAt [bareQuestion, question]).FinaliseCompletes →
        ∃ before final, ((pausedAt [bareQuestion, question]).run
            ((pausedAt [bareQuestion, question]).startState false)).2.calls =
            before ++ ((agUiInterruptRows plainRuntime 0 "t" [bareQuestion, question]).map
              interruptCall ++ [.frame final, .close]) ∧
          (∀ c ∈ before, Quiet c) ∧ TerminalRunRow final) :=
  paused_run_reported (s := pausedAt [bareQuestion, question])
    ((orderly_pausedAt _).leaving_of_returns returns_drained rfl) rfl rfl false

/-- A payload that is not a dictionary leaves no row, and the run reads `complete`. -/
theorem not_paused_run_reported :
    ¬ ∀ (s : Scenario) (ph : ChannelPhase) (interrupts : List Interrupt),
      ChannelPhase.Reaches ph → s.Orderly ph → (∀ f ∈ ph.finished, f.did = .returns) →
      ph.parentCancelled = false → s.interrupted = .ok true → s.interrupts = .ok interrupts →
      interrupts ≠ [] →
      (∀ f ∈ runRows (s.run (s.startState false)).2.calls, TerminalRunRow f →
          f.status = some (.str "interrupt")) ∧
        (agUiInterruptRows s.rt s.uuids s.threadId interrupts).length = interrupts.length := by
  intro h
  let s := pausedAt [bareQuestion]
  have hrow : s.runFrame "complete" none ∈ runRows (s.run (s.startState false)).2.calls :=
    .tail _ (.head _)
  have hstatus := (h s drained [bareQuestion] reaches_drained (orderly_pausedAt _)
    returns_drained rfl rfl rfl (by simp)).1 _ hrow (s.terminal_runFrame (by decide) none)
  rw [s.runFrame_status] at hstatus
  simp at hstatus

end Scenario

end StreamDB
