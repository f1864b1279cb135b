import StreamDB.ProgramRules
import StreamDB.Progress
import StreamDB.Salvage

/-!
# Every run comes to an end

The drains wait for the items of their projections, and for a link or the deltas of a call only as
long as the timeout lets them. Once the run stream has made its items available, every task ends,
whatever the order of the steps and whatever has been cancelled.
-/

namespace StreamDB

open Coroutine

def World.Available (n : Projection → ℕ) (w : World) : Prop := ∀ p, n p ≤ w.published p

/-- Nothing that has been made available is taken back. -/
def Publishing (effect : World → World) : Prop :=
  ∀ w p, w.published p ≤ (effect w).published p

def Grantable (n : Projection → ℕ) (ready : World → Bool) : Prop :=
  ∀ w, w.Available n → ready w

theorem confined_publishing :
    Confined Publishing fun w w' => ∀ p, w.published p ≤ w'.published p where
  refl _ _ := le_rfl
  trans h h' p := (h p).trans (h' p)
  effect h s p := h s p

/-! ## The drains -/

/-- A task that does not wait for more than there will be. -/
abbrev Proceeds (n : Projection → ℕ) {α : Type} (task : Task α) : Prop :=
  task.Uses Publishing (Grantable n)

section Drains

open Proc

variable {n : Projection → ℕ} {rt : Runtime}

theorem proceeds_onSelf {α : Type} (f : Translator → α × Translator) : Proceeds n (onSelf f) :=
  uses_atomically fun _ _ => le_rfl

theorem proceeds_updateSelf (f : Translator → Translator) : Proceeds n (updateSelf f) :=
  uses_atomically fun _ _ => le_rfl

theorem proceeds_readSelf : Proceeds n readSelf := uses_atomically fun _ _ => le_rfl

theorem proceeds_nowMs : Proceeds n (nowMs rt) := uses_atomically fun _ _ => le_rfl

theorem proceeds_upsert {type : RowType} {key : String} {row : Row} {txid : Option String} :
    Proceeds n (upsert type key row txid) :=
  uses_bind (uses_atomically fun _ _ => le_rfl) fun _ => uses_awaiting fun _ _ => rfl

theorem compositional_proceeds :
    Compositional (Grantable n) fun _ task => Proceeds n task where
  pure := uses_pure
  raise := uses_raise
  bind := uses_bind
  awaiting := uses_awaiting
  awaitingOr := uses_awaitingOr
  always _ _ := rfl

theorem proceeds_subagentAgentId (subagentId : String) :
    Proceeds n (subagentAgentId subagentId) := by
  apply uses_bind (proceeds_updateSelf _)
  intro _
  apply uses_bind (uses_awaitingOr _)
  intro linked
  exact uses_ite (uses_bind proceeds_readSelf fun t => uses_pure _) (uses_pure none)

/-- The waits for a link and for the deltas of a call are bounded. -/
theorem goesAlong_proceeds :
    GoesAlong (Grantable n) (fun _ => True) fun _ _ task => Proceeds n task where
  constructs _ := compositional_proceeds
  silent _ _ _ hf := uses_atomically hf.published
  link _ _ := proceeds_updateSelf _
  row _ _ _ _ _ _ := proceeds_upsert
  linked _ subagentId _ hnone hsome := by
    refine uses_bind (proceeds_subagentAgentId subagentId) fun agentId => ?_
    cases agentId with
    | none => exact hnone
    | some tag => exact hsome tag trivial
  spawn _ _ _ := uses_spawn

theorem proceeds_emitUserMessage (msgId text : String) (attachments : List PyValue) :
    Proceeds n (emitUserMessage rt msgId text attachments) := by
  apply uses_bind (proceeds_updateSelf _)
  intro _
  apply uses_bind proceeds_readSelf
  intro t
  apply uses_bind (proceeds_onSelf _)
  intro ordinal
  apply uses_bind (proceeds_onSelf _)
  intro order
  exact uses_bind proceeds_nowMs fun createdAt => proceeds_upsert

theorem proceeds_consumeMessage (message : ModelMessage) :
    Proceeds n (consumeMessage rt message) := by
  have hid : Proceeds n (idOr rt "msg_" message.messageId) :=
    uses_ite (uses_atomically fun _ _ => le_rfl) (uses_pure _)
  apply uses_bind hid
  intro msgId
  apply uses_bind (proceeds_onSelf _)
  intro ordinal
  apply uses_bind proceeds_nowMs
  intro createdAt
  apply uses_bind (proceeds_updateSelf _)
  intro _
  refine uses_bind ?_ fun _ => compositional_proceeds.streamDeltas _ ?_ ?_ _ _ _
  · apply uses_bind (proceeds_onSelf _)
    intro order
    exact uses_bind proceeds_readSelf fun t => proceeds_upsert
  · exact fun text => uses_ite (proceeds_updateSelf _) (uses_pure ())
  · exact fun _ _ _ => uses_bind proceeds_readSelf fun t => proceeds_upsert

theorem proceeds_consumeToolCallExecution (tc : ToolCallExecution) :
    Proceeds n (consumeToolCallExecution rt tc) := by
  apply uses_bind (proceeds_updateSelf _)
  intro _
  apply uses_bind (proceeds_onSelf _)
  intro order
  apply uses_bind proceeds_readSelf
  intro t
  apply uses_bind proceeds_upsert
  intro _
  apply uses_bind (compositional_proceeds.drainOutputDeltas tc)
  intro settlement
  exact uses_ite (uses_pure ()) proceeds_upsert

/-- An activity waits for no more than the items it takes. -/
theorem proceeds_activity {a : Activity} (hn : ∀ p, a.awaited p ≤ n p) :
    Proceeds n (a.task rt) := by
  refine goesAlong_proceeds.activity ?_ proceeds_emitUserMessage proceeds_consumeMessage
    proceeds_consumeToolCallExecution
  intro p j hj w hw
  have hlimit := (hn p).trans (hw p)
  exact decide_eq_true (by omega)

end Drains

/-! ## The run stream -/

theorem count_publish (p : Projection) (ps : List Projection) (w : World) (q : Projection) :
    w.published q + (p :: ps).count q = (w.publish p).published q + ps.count q := by
  simp only [World.publish, List.count_cons, beq_iff_eq]
  by_cases h : q = p
  · rw [if_pos h, if_pos h.symm]
    omega
  · rw [if_neg h, if_neg (Ne.symm h)]
    omega

/-- Thread number `i` is the run stream, which has still to make available what is missing. -/
def SourceAt (events : List Projection) (i : ℕ) (c : System) : Prop :=
  ∃ rest, c.threads[i]? = some (.source, (publishAll rest).code) ∧
    ∀ p, events.count p ≤ c.state.published p + rest.count p

variable {events : List Projection} {i : ℕ} {n : Projection → ℕ} {rt : Runtime}

theorem SourceAt.step {c c' : System} (h : SourceAt events i c)
    (huses : c.Uses Publishing (Grantable n)) {p : Pick} {name : TaskName}
    (hs : c.step p = some (name, c')) (hp : p ≠ .cancel i) : SourceAt events i c' := by
  obtain ⟨rest, hthread, hcount⟩ := h
  have hlt : i < c.threads.length := (List.getElem?_eq_some_iff.mp hthread).1
  have hgrow := (huses.step confined_publishing hs).1
  obtain ⟨j, code, w, left, forks, hj, hm, rfl⟩ := Config.step_moves hs
  by_cases hji : j = i
  · subst hji
    rw [hthread, Option.some.injEq, Prod.mk.injEq] at hj
    obtain ⟨rfl, rfl⟩ := hj
    cases hm with
    | cancel => exact absurd rfl hp
    | expire block =>
        cases rest with
        | nil => cases block
        | cons q qs => cases block
    | run block =>
        cases rest with
        | nil => cases block
        | cons q qs =>
            have hblock : (c.state.publish q, (publishAll qs).code, []) = (w, left, forks) :=
              (block_publishAll qs _).symm.trans (Option.some.inj block)
            cases hblock
            refine ⟨qs, ?_, ?_⟩
            · rw [List.append_nil, List.getElem?_set_self hlt]
            · intro r
              exact (hcount r).trans (count_publish q qs c.state r).le
  · refine ⟨rest, ?_, ?_⟩
    · rw [List.getElem?_append_left (by simpa using hlt), List.getElem?_set_ne hji]
      exact hthread
    · intro r
      exact (hcount r).trans (Nat.add_le_add_right (hgrow r) _)

theorem SourceAt.follow {c c' : System} (h : SourceAt events i c)
    (huses : c.Uses Publishing (Grantable n)) {ps : List Pick} (hps : .cancel i ∉ ps)
    (hs : c.follow ps = some c') : SourceAt events i c' := by
  induction ps using List.reverseRecOn generalizing c' with
  | nil =>
      cases hs
      exact h
  | append_singleton ps p ih =>
      obtain ⟨d, name, hd, hstep⟩ := follow_concat.mp hs
      rw [List.mem_append, not_or] at hps
      have huses' := (huses.follow confined_publishing hd).2
      exact (ih hps.1 hd).step huses' hstep fun hp => hps.2 (by simp [hp])

/-- At rest, the run stream has made everything available. -/
theorem SourceAt.published_of_rests {c : System} (h : SourceAt events i c) (hrests : c.Rests)
    (p : Projection) : events.count p ≤ c.state.published p := by
  obtain ⟨rest, hthread, hcount⟩ := h
  cases rest with
  | nil => exact hcount p
  | cons q qs =>
      have hrun := (hrests i).1
      simp only [Config.step, Config.pick, hthread] at hrun
      cases hrun

/-! ## Runs -/

/-- What becomes of a system in which thread number `source` is the run stream. -/
structure ComesToAnEnd (source : ℕ) (start : System) : Prop where
  finite : ∀ run : ℕ → System, run 0 = start → ¬ ∀ n, (run n).Advances (run (n + 1))
  /-- Where no task can go on, all have ended. -/
  ended : ∀ ps c, .cancel source ∉ ps → start.follow ps = some c → c.Rests →
    ∀ thread ∈ c.threads, thread.2.HasEnded
  /-- From anywhere, the tasks can go on by themselves until all have ended. -/
  finishes : ∀ ps c, .cancel source ∉ ps → start.follow ps = some c →
    ∃ qs c', c.follow qs = some c' ∧ (∀ i, .cancel i ∉ qs) ∧
      ∀ thread ∈ c'.threads, thread.2.HasEnded

theorem comesToAnEnd_of_available (rt : Runtime) (t : Translator) (before after : List Activity)
    (events : List Projection) (havailable : ∀ a ∈ before ++ after, ∀ p,
      a.awaited p ≤ events.count p) :
    ComesToAnEnd before.length (startSystem rt t (before ++ .source events :: after)) := by
  let start := startSystem rt t (before ++ .source events :: after)
  have hawaited : ∀ a ∈ before ++ .source events :: after, ∀ p, a.awaited p ≤ events.count p := by
    intro a ha
    rw [List.mem_append, List.mem_cons] at ha
    rcases ha with ha | rfl | ha
    · exact havailable a (List.mem_append_left _ ha)
    · exact fun p => Nat.zero_le _
    · exact havailable a (List.mem_append_right _ ha)
  have huses : start.Uses Publishing (Grantable fun p => events.count p) := by
    intro thread hthread
    obtain ⟨a, ha, rfl⟩ := List.mem_map.mp hthread
    exact (proceeds_activity (hawaited a ha)).code
  have hsource : SourceAt events before.length start := by
    refine ⟨events, ?_, fun p => Nat.le_add_left _ _⟩
    simp [start, startSystem, Activity.thread, Activity.name, Activity.task]
  have hended : ∀ ps c, .cancel before.length ∉ ps → start.follow ps = some c → c.Rests →
      ∀ thread ∈ c.threads, thread.2.HasEnded := by
    intro ps c hps hfollow hrests thread hthread
    have hpublished := (hsource.follow huses hps hfollow).published_of_rests hrests
    have huses' := (huses.follow confined_publishing hfollow).2
    exact huses'.ended (fun ready hready => hready _ hpublished) hrests hthread
  refine ⟨fun run _ => Config.no_endless_run run, hended, ?_⟩
  intro ps c hps hfollow
  obtain ⟨qs, c', hqs, hfollow', hrests⟩ := c.exists_rests
  refine ⟨qs, c', hfollow', hqs, ?_⟩
  apply hended (ps ++ qs) c' _ _ hrests
  · simp [hps, hqs]
  · rw [follow_append, hfollow]
    exact hfollow'

theorem comesToAnEnd_of_available_two :
    ComesToAnEnd 1 (startSystem plainRuntime (Translator.init "t" "r" "p")
      ([.messages ⟨[textMessage "m" ["x"]], none⟩] ++ .source [.messages, .toolCalls] ::
        [.toolCalls ⟨[], none⟩])) := by
  apply comesToAnEnd_of_available _ _ [_] [_]
  rw [List.singleton_append, List.forall_mem_cons, List.forall_mem_singleton]
  constructor
  · rintro ⟨⟩ <;> simp [Activity.awaited]
  · rintro ⟨⟩ <;> simp [Activity.awaited]

end StreamDB
