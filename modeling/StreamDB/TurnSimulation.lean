import StreamDB.DrainRows
import StreamDB.ItemCustody
import StreamDB.TurnOrder

/-!
# A turn as a run of its activities

A turn puts the row of its user message on the stream and then starts the tasks of its channels.
Unless one of them is cancelled, it goes through the states of a run in which the user message and
the channels are activities from the start; its first row is that of the user.
-/

namespace StreamDB

open Coroutine

/-- A turn after a schedule that cancels nothing. -/
structure TurnRun where
  rt : Runtime
  threadId : String
  runId : String
  priorMessages : List BaseMessage
  userId : String
  text : String
  attachments : List PyValue
  stream : RunStream
  schedule : List Pick
  final : System
  uncancelled : ∀ i, .cancel i ∉ schedule
  follows : (translateTurn rt threadId runId priorMessages userId text attachments stream).follow
    schedule = some final

section Blocks

variable (rt : Runtime)

/-- The run stream creates no tasks. -/
theorem publishAll_of_moves {ps : List Projection} {i : ℕ} {p : Pick} {w w' : World}
    {rest : TaskCode} {forks : List (TaskName × TaskCode)}
    (h : Config.Moves i (publishAll ps).code w p w' rest forks) (hp : ∀ i, p ≠ .cancel i) :
    ∃ q ps', w' = w.publish q ∧ rest = (publishAll ps').code ∧ forks = [] := by
  cases h with
  | run block =>
      cases ps with
      | nil => cases block
      | cons q ps =>
          change some ((publishAll ps).code.block (w.publish q)) = _ at block
          rw [block_publishAll] at block
          cases block
          exact ⟨q, ps, rfl, rfl, rfl⟩
  | expire block =>
      cases ps with
      | nil => cases block
      | cons q ps => cases block
  | cancel => exact absurd rfl (hp i)

theorem block_spawnAll (activities : List Activity) (w : World) :
    (spawnAll rt activities).code.block w =
      (w, .done, activities.map (Activity.thread rt)) := by
  induction activities with
  | nil => rfl
  | cons a activities ih =>
      have hfork : (spawnAll rt (a :: activities)).code =
          .fork a.name (a.task rt).code (spawnAll rt activities).code := rfl
      rw [hfork, Code.block, ih]
      rfl

end Blocks

namespace TurnRun

variable (t : TurnRun)

def translator : Translator :=
  Translator.seeded t.threadId t.runId summarizationMessageIdPrefix
    (nextLiveOrder t.priorMessages summarizationMessageIdPrefix)
    (nextLiveOrdinal t.priorMessages summarizationMessageIdPrefix)

def activities : List Activity :=
  .source t.stream.events :: .userMessage t.userId t.text t.attachments :: t.stream.channels

def userFrame : Frame :=
  upsertFrame .message t.userId
    (userRow t.threadId t.userId (nextLiveOrdinal t.priorMessages summarizationMessageIdPrefix)
      (nextLiveOrder t.priorMessages summarizationMessageIdPrefix) (t.rt.clockMs 0) t.text
      t.attachments) (some t.userId)

def channelThreads : List (TaskName × TaskCode) := t.stream.channels.map (Activity.thread t.rt)

def written (next : TaskCode) : TaskCode := .wait (fun _ => true) next

/-- A turn next to the run of its activities: before its user row, while the writer takes the row,
and once it has started the channels. -/
inductive Alongside : System → System → Prop
  | opening {ps : List Projection} {w : World} (self : w.self = t.translator)
      (clock : w.clockReads = 0) (frames : w.frames = []) :
      Alongside
        ⟨[(.source, (publishAll ps).code),
          (.turn, (runTurn t.rt t.userId t.text t.attachments t.stream).code)], w⟩
        ⟨(.source, (publishAll ps).code) ::
          (.userMessage, (emitUserMessage t.rt t.userId t.text t.attachments).code) ::
            t.channelThreads, w⟩
  | waiting {ps : List Projection} {w : World} (frames : w.frames = [t.userFrame]) :
      Alongside
        ⟨[(.source, (publishAll ps).code),
          (.turn, written (spawnAll t.rt t.stream.channels).code)], w⟩
        ⟨(.source, (publishAll ps).code) :: (.userMessage, written .done) :: t.channelThreads, w⟩
  | going {source : TaskName × TaskCode} {rest : List (TaskName × TaskCode)} {w : World}
      (frames : [t.userFrame] <+: w.frames) :
      Alongside ⟨source :: (.turn, .done) :: rest, w⟩ ⟨source :: (.userMessage, .done) :: rest, w⟩

theorem resume_emitUserMessage {w : World} (self : w.self = t.translator)
    (clock : w.clockReads = 0) (frames : w.frames = []) :
    ∃ w', w'.frames = [t.userFrame] ∧ ∀ k : Unit → TaskCode,
      ((emitUserMessage t.rt t.userId t.text t.attachments) k).resume w =
        some (w', written (k ()), []) := by
  obtain ⟨self', frames', uuids, clockReads, published⟩ := w
  subst self clock frames
  exact ⟨_, rfl, fun _ => rfl⟩

variable {t} {c c' d : System} {p : Pick} {name : TaskName}

theorem Alongside.step (h : t.Alongside c d)
    (hd : Reaches anyStep (startSystem t.rt t.translator t.activities) d)
    (hp : ∀ i, p ≠ .cancel i) (hs : c.step p = some (name, c')) :
    ∃ name' d', d.step p = some (name', d') ∧ t.Alongside c' d' := by
  obtain ⟨i, code, w', rest, forks, hthread, hmoves, rfl⟩ := Config.step_moves hs
  cases h with
  | @opening ps w self clock frames =>
      rcases i with _ | _ | i
      · cases hthread
        obtain ⟨q, ps', rfl, rfl, rfl⟩ := publishAll_of_moves hmoves hp
        refine ⟨_, _, Config.step_of_moves rfl hmoves, ?_⟩
        rw [List.append_nil, List.append_nil]
        exact .opening self clock frames
      · cases hthread
        obtain ⟨w₁, hframes, hresume⟩ := t.resume_emitUserMessage self clock frames
        cases hmoves with
        | run block =>
            have hblock := hresume fun _ => (spawnAll t.rt t.stream.channels).code
            cases hblock.symm.trans block
            refine ⟨_, _, Config.step_of_moves rfl (.run (hresume fun _ => .done)), ?_⟩
            rw [List.append_nil, List.append_nil]
            exact .waiting hframes
        | expire block => cases block
        | cancel => exact absurd rfl (hp 1)
      · cases hthread
  | @waiting ps w frames =>
      rcases i with _ | _ | i
      · cases hthread
        obtain ⟨q, ps', rfl, rfl, rfl⟩ := publishAll_of_moves hmoves hp
        refine ⟨_, _, Config.step_of_moves rfl hmoves, ?_⟩
        rw [List.append_nil, List.append_nil]
        exact .waiting frames
      · cases hthread
        cases hmoves with
        | run block =>
            change some ((spawnAll t.rt t.stream.channels).code.block _) = _ at block
            rw [block_spawnAll] at block
            cases block
            refine ⟨_, _, Config.step_of_moves rfl (.run rfl), ?_⟩
            rw [List.append_nil]
            exact .going (by rw [frames])
        | expire block => cases block
        | cancel => exact absurd rfl (hp 1)
      · cases hthread
  | @going source threads w frames =>
      let d : System := ⟨source :: (.userMessage, .done) :: threads, w⟩
      have hgrows : ∀ {name' : TaskName} {d' : System}, d.step p = some (name', d') →
          [t.userFrame] <+: d'.state.frames := fun hstep =>
        frames.trans (frames_prefix_of_reaches hd (.step .refl hstep trivial))
      rcases i with _ | _ | i
      · cases hthread
        have hstep : d.step p = _ := Config.step_of_moves rfl hmoves
        exact ⟨_, _, hstep, .going (hgrows hstep)⟩
      · cases hthread
        cases hmoves with
        | run block => cases block
        | expire block => cases block
        | cancel => exact absurd rfl (hp 1)
      · have hstep : d.step p = _ := Config.step_of_moves hthread hmoves
        exact ⟨_, _, hstep, .going (hgrows hstep)⟩

theorem exists_alongside {ps : List Pick} (hps : ∀ i, .cancel i ∉ ps)
    (h : (translateTurn t.rt t.threadId t.runId t.priorMessages t.userId t.text t.attachments
      t.stream).follow ps = some c) :
    ∃ d, (startSystem t.rt t.translator t.activities).follow ps = some d ∧ t.Alongside c d := by
  induction ps using List.reverseRecOn generalizing c with
  | nil =>
      cases h
      exact ⟨_, rfl, .opening rfl rfl rfl⟩
  | append_singleton ps p ih =>
      obtain ⟨c₁, name, hc₁, hstep⟩ := follow_concat.mp h
      obtain ⟨d₁, hd₁, halong⟩ := ih (fun i hi => hps i (List.mem_append_left _ hi)) hc₁
      have hp : ∀ i, p ≠ .cancel i := by
        rintro i rfl
        exact hps i (List.mem_append_right _ List.mem_cons_self)
      obtain ⟨name', d, hd, halong'⟩ := halong.step (reaches_of_follow hd₁) hp hstep
      exact ⟨d, follow_concat.mpr ⟨d₁, name', hd₁, hd⟩, halong'⟩

variable (t)

def Ended : Prop := ∀ thread ∈ t.final.threads, thread.2.HasEnded

def asRun : TranslatorRun where
  rt := t.rt
  threadId := t.threadId
  runId := t.runId
  summaryPrefix := summarizationMessageIdPrefix
  orderStart := nextLiveOrder t.priorMessages summarizationMessageIdPrefix
  ordinalStart := nextLiveOrdinal t.priorMessages summarizationMessageIdPrefix
  activities := t.activities
  schedule := t.schedule
  final := ((startSystem t.rt t.translator t.activities).follow t.schedule).get (by
    obtain ⟨d, hd, _⟩ := exists_alongside t.uncancelled t.follows
    rw [hd]
    rfl)
  follows := (Option.some_get _).symm

theorem alongside_asRun : t.Alongside t.final t.asRun.final := by
  obtain ⟨d, hd, halong⟩ := exists_alongside t.uncancelled t.follows
  have hfinal : some t.asRun.final = some d := t.asRun.follows.symm.trans hd
  rw [Option.some.inj hfinal]
  exact halong

theorem state_asRun : t.asRun.final.state = t.final.state := by
  have halong := t.alongside_asRun
  generalize t.final = c at halong ⊢
  generalize t.asRun.final = d at halong ⊢
  cases halong with
  | opening => rfl
  | waiting => rfl
  | going => rfl

variable {t}

/-- Of a turn that has come to its end, the run has. -/
theorem Ended.asRun (h : t.Ended) : t.asRun.Ended := by
  refine ⟨t.uncancelled, ?_⟩
  have halong := t.alongside_asRun
  rw [Ended] at h
  generalize t.final = c at halong h
  generalize t.asRun.final = d at halong ⊢
  cases halong with
  | opening => exact (h _ (.tail _ (.head _))).elim
  | waiting => exact (h _ (.tail _ (.head _))).elim
  | going =>
      simp only [List.forall_mem_cons] at h ⊢
      exact ⟨h.1, h.2.1, h.2.2⟩

variable (t)

/-- Nothing comes before the row of the user, and no turn ends without it. -/
theorem opened : t.final.state.frames = [] ∧ ¬ t.Ended ∨
    [t.userFrame] <+: t.final.state.frames := by
  have halong := t.alongside_asRun
  rw [Ended]
  generalize t.final = c at halong ⊢
  generalize t.asRun.final = d at halong
  cases halong with
  | opening _ _ frames => exact .inl ⟨frames, fun h => h _ (.tail _ (.head _))⟩
  | waiting frames => exact .inr (by rw [frames])
  | going frames => exact .inr frames

end TurnRun

end StreamDB
