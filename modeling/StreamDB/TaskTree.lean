import StreamDB.Channels
import StreamDB.RunOutcome
import StreamDB.TaskGroup
import Mathlib.Logic.Function.Basic

/-!
# The tasks below the channels

The tool-call drain opens a task group of its own, with one task for every call. So does the
subgraphs drain, whose group holds the tasks of all subagents at any depth. `_run_channel` is
wrapped around the drain of a channel and around none of the tasks in these groups, so a
cancellation that such a task inflicts on itself is lost: its group takes the task for a cancelled
one, the channel returns, and the run goes on to be complete.
-/

namespace StreamDB

/-- The tasks `_drain_subgraphs` creates for a subagent. -/
def dispatched (subagentId : String) : List TaskName :=
  [.subagentMessages subagentId, .subagentTools subagentId, .subagentLifecycle subagentId,
    .nestedSubgraphs subagentId]

/-- The tasks in the group of a channel, by the task whose drain creates them; the channel's own
drain for `none`. -/
inductive Creates : Channel → Option TaskName → TaskName → Prop
  | toolCall (tc : ToolCallExecution) : Creates .toolCalls none (.toolCall tc)
  | subagent {subagentId : String} {task : TaskName} (mem : task ∈ dispatched subagentId) :
      Creates .subgraphs none task
  | nested {parentId subagentId : String} {task : TaskName} (mem : task ∈ dispatched subagentId) :
      Creates .subgraphs (some (.nestedSubgraphs parentId)) task
  | subagentTool (subagentId : String) (tc : ToolCallExecution) :
      Creates .subgraphs (some (.subagentTools subagentId)) (.subagentTool subagentId tc)

abbrev ChannelGroup := TaskGroup TaskName PyException

def taskGroupError (errors : List PyException) : PyException :=
  .group (ChannelPhase.groupText errors) errors

def ChannelEnd.of : Ending PyException → ChannelEnd
  | .returns => .returns
  | .raises exc => .raises exc
  | .cancelled => .raisesCancelled

/-- The channels whose drain is the body of a task group. -/
def Channel.opensGroup : Channel → Bool
  | .toolCalls => true
  | .subgraphs => true
  | _ => false

/-- How the coroutine of a channel ends: as its group does where it opens one, and otherwise as
its drain does. -/
def channelEnd (ch : Channel) (g : ChannelGroup) : ChannelEnd :=
  if ch.opensGroup then .of (g.outcome taskGroupError)
  else (g.body.map fun e => ChannelEnd.of e.did).getD .returns

/-- The exceptions a task raises are of class `Exception`. -/
def RaisableEnding : Ending PyException → Prop
  | .raises exc => ChannelPhase.Raisable exc
  | _ => True

/-- The channels of a run with the tasks below them. The body of a channel's group is its drain;
a channel that opens no group has no tasks in it. -/
structure TaskTree where
  phase : ChannelPhase
  group : Channel → ChannelGroup

namespace ChannelPhase

def finish (ph : ChannelPhase) (ch : Channel) (did : ChannelEnd) : ChannelPhase :=
  { ph with finished := ph.finished ++ [⟨ch, did, ph.cancelling⟩] }

end ChannelPhase

namespace TaskTree

def start : TaskTree := ⟨.start, fun _ => .opened⟩

def setGroup (t : TaskTree) (ch : Channel) (g : ChannelGroup) : TaskTree :=
  { t with group := Function.update t.group ch g }

def finish (t : TaskTree) (ch : Channel) : TaskTree :=
  { t with phase := t.phase.finish ch (channelEnd ch (t.group ch)) }

/-- A run whose own task nobody cancels. -/
inductive Step : TaskTree → TaskTree → Prop
  | inside {t : TaskTree} {ch : Channel} {g : ChannelGroup} (pending : t.phase.Pending ch)
      (step : (t.group ch).Step (Creates ch) RaisableEnding t.phase.cancelling g)
      (waits : (t.group ch).body = none → g.body.isSome → (t.group ch).running ≠ []) :
      Step t (t.setGroup ch g)
  /-- The drain of a channel ends with no task left to wait for. -/
  | leave {t : TaskTree} {ch : Channel} {did : Ending PyException} (pending : t.phase.Pending ch)
      (first : (t.group ch).body = none) (alone : (t.group ch).running = [])
      (ending : RaisableEnding did) :
      Step t ((t.setGroup ch ((t.group ch).leave
        ⟨did, (t.group ch).aborting || t.phase.cancelling⟩)).finish ch)
  | join {t : TaskTree} {ch : Channel} (pending : t.phase.Pending ch)
      (joined : (t.group ch).Joined) : Step t (t.finish ch)
  /-- The group of the channels takes in the failure of one of them. -/
  | abort {t : TaskTree} (failed : t.phase.errors ≠ []) (first : t.phase.aborting = false) :
      Step t { t with phase := { t.phase with aborting := true } }

inductive Reaches : TaskTree → Prop
  | start : Reaches start
  | step {t t' : TaskTree} (run : Reaches t) (next : Step t t') : Reaches t'

/-- The task of a channel's group, or its drain for `none`, is cancelled by its own projection. -/
def SelfCancelled (t : TaskTree) (ch : Channel) : Option TaskName → Prop
  | none => ∃ e, (t.group ch).body = some e ∧ e.SelfCancelled
  | some task => ∃ e, (task, e) ∈ (t.group ch).ended ∧ e.SelfCancelled

/-- The drain of the channel is cancelled by its own projection, no task of its group fails, and
by the time these are joined nobody has asked the channel to stop. -/
structure Surfaces (t : TaskTree) (ch : Channel) : Prop where
  drain : t.SelfCancelled ch none
  sound : (t.group ch).failures = []
  unasked : ∃ f ∈ t.phase.finished, f.channel = ch ∧ f.cancelling = false

structure Sound (t : TaskTree) : Prop where
  reaches : ChannelPhase.Reaches t.phase
  parent : t.phase.parentCancelled = false
  pending : ∀ ch, t.phase.Pending ch → (t.group ch).Sound RaisableEnding t.phase.cancelling
  finished : ∀ f ∈ t.phase.finished, (t.group f.channel).Sound RaisableEnding f.cancelling ∧
    f.did = channelEnd f.channel (t.group f.channel)
  direct : ∀ ch : Channel, ch.opensGroup = false → (t.group ch).Childless

end TaskTree

/-! ## The group of the channels -/

/-- What `_run_channel` makes of the end of its channel. -/
def Finish.ending (f : Finish) : Ending PyException :=
  match f.error, f.did with
  | some exc, _ => .raises exc
  | none, .raisesCancelled => .cancelled
  | none, _ => .returns

/-- The group in which `run` has started the channels, and waits for them. -/
def ChannelPhase.taskGroup (ph : ChannelPhase) : TaskGroup Channel PyException where
  running := [.messages, .custom, .toolCalls, .subgraphs, .values].filter fun ch => ph.Pending ch
  ended := ph.finished.map fun f => (f.channel, ⟨f.ending, f.cancelling⟩)
  body := some ⟨.returns, false⟩
  aborting := ph.aborting
  interrupted := ph.parentCancelled

def raisedBy : Ending PyException → Option PyException
  | .returns => none
  | .raises exc => some exc
  | .cancelled => some .cancelled

theorem ChannelPhase.failures_taskGroup (ph : ChannelPhase) :
    ph.taskGroup.failures = ph.errors := by
  rw [TaskGroup.failures, taskGroup, List.filterMap_map, errors]
  apply List.filterMap_congr
  intro f _
  cases herror : f.error with
  | some exc => simp [TaskEnd.failure, Finish.ending, herror]
  | none =>
      cases hdid : f.did with
      | _ => simp [TaskEnd.failure, Finish.ending, herror, hdid]

/-- The channels leave their group as any task group is left. -/
theorem ChannelPhase.outcome_eq (ph : ChannelPhase) :
    ph.outcome = raisedBy (ph.taskGroup.outcome taskGroupError) := by
  have hfailures : ph.taskGroup.failures ++ (ph.taskGroup.body.bind TaskEnd.failure).toList =
      ph.errors := by
    rw [failures_taskGroup]
    exact List.append_nil _
  by_cases herrors : ph.errors = []
  · rw [TaskGroup.outcome_of_nil (hfailures.trans herrors), ChannelPhase.outcome,
      if_neg (by simp [herrors])]
    cases hparent : ph.parentCancelled with
    | _ => simp [taskGroup, hparent, raisedBy]
  · have hne : ph.taskGroup.failures ++
        (ph.taskGroup.body.bind TaskEnd.failure).toList ≠ [] := by rwa [hfailures]
    rw [TaskGroup.outcome_of_ne_nil hne, ChannelPhase.outcome, if_pos herrors, hfailures]
    rfl

/-! ## The tasks below them -/

theorem ChannelEnd.of_eq_raises {e : Ending PyException} {exc : PyException} :
    ChannelEnd.of e = .raises exc ↔ e = .raises exc := by
  cases e with
  | _ => simp [ChannelEnd.of]

theorem ChannelEnd.of_eq_raisesCancelled {e : Ending PyException} :
    ChannelEnd.of e = .raisesCancelled ↔ e = .cancelled := by
  cases e with
  | _ => simp [ChannelEnd.of]

theorem raisable_taskGroupError {errors : List PyException}
    (h : ∀ exc ∈ errors, ChannelPhase.Raisable exc) :
    ChannelPhase.Raisable (taskGroupError errors) := by
  refine ⟨PyException.allExceptions_iff.mpr fun exc hexc => (h exc hexc).1, ?_⟩
  rw [taskGroupError, PyException.hasChannelCancelled, ← Bool.not_eq_true,
    PyException.anyChannelCancelled_iff]
  rintro ⟨exc, hexc, hwrapper⟩
  rw [(h exc hexc).2] at hwrapper
  cases hwrapper

theorem raisable_outcome {g : ChannelGroup} {asked : Bool} (h : g.Sound RaisableEnding asked)
    {exc : PyException} (hraises : g.outcome taskGroupError = .raises exc) :
    ChannelPhase.Raisable exc := by
  obtain ⟨failures, _, rfl, hfailures⟩ := h.raised hraises
  exact raisable_taskGroupError hfailures

/-- A channel raises what `_run_channel` lets through. -/
theorem raisable_channelEnd {ch : Channel} {g : ChannelGroup} {asked : Bool}
    (h : g.Sound RaisableEnding asked) {exc : PyException}
    (hraises : channelEnd ch g = .raises exc) : ChannelPhase.Raisable exc := by
  by_cases hopens : ch.opensGroup
  · rw [channelEnd, if_pos hopens, ChannelEnd.of_eq_raises] at hraises
    exact raisable_outcome h hraises
  · rw [channelEnd, if_neg hopens] at hraises
    cases he : g.body with
    | none => simp [he] at hraises
    | some e =>
        have hends := (h.left e he).1
        rw [he, Option.map_some, Option.getD_some, ChannelEnd.of_eq_raises] at hraises
        rwa [hraises] at hends

theorem opensGroup_of_creates {ch : Channel} {creator : Option TaskName} {task : TaskName}
    (h : Creates ch creator task) : ch.opensGroup := by
  cases h with
  | _ => rfl

namespace TaskTree

variable {t t' : TaskTree}

@[simp] theorem setGroup_phase (t : TaskTree) (ch : Channel) (g : ChannelGroup) :
    (t.setGroup ch g).phase = t.phase := rfl

@[simp] theorem setGroup_self (t : TaskTree) (ch : Channel) (g : ChannelGroup) :
    (t.setGroup ch g).group ch = g := by
  simp [setGroup]

theorem setGroup_ne (t : TaskTree) {ch other : Channel} (g : ChannelGroup) (h : other ≠ ch) :
    (t.setGroup ch g).group other = t.group other := by
  simp [setGroup, h]

theorem Sound.setGroup (h : t.Sound) {ch : Channel} {g : ChannelGroup}
    (hpending : t.phase.Pending ch) (hg : g.Sound RaisableEnding t.phase.cancelling)
    (hdirect : ch.opensGroup = false → g.Childless) : (t.setGroup ch g).Sound where
  reaches := h.reaches
  parent := h.parent
  pending other hother := by
    by_cases heq : other = ch
    · subst heq
      rw [setGroup_self]
      exact hg
    · rw [setGroup_ne _ _ heq]
      exact h.pending other hother
  finished f hf := by
    rw [setGroup_ne _ _ (hpending f hf)]
    exact h.finished f hf
  direct other hother := by
    by_cases heq : other = ch
    · subst heq
      rw [setGroup_self]
      exact hdirect hother
    · rw [setGroup_ne _ _ heq]
      exact h.direct other hother

theorem Sound.finish (h : t.Sound) {ch : Channel} (hpending : t.phase.Pending ch) :
    (t.finish ch).Sound where
  reaches := by
    refine h.reaches.step (.finish hpending fun exc hraises => ⟨?_, h.parent⟩)
    exact raisable_channelEnd (h.pending ch hpending) hraises
  parent := h.parent
  pending other hother :=
    h.pending other fun f hf => hother f (List.mem_append_left _ hf)
  finished f hf := by
    rcases List.mem_append.mp hf with hf | hf
    · exact h.finished f hf
    · rw [List.mem_singleton.mp hf]
      exact ⟨h.pending ch hpending, rfl⟩
  direct := h.direct

theorem Sound.step (h : t.Sound) (hstep : Step t t') : t'.Sound := by
  cases hstep with
  | @inside ch _ pending step _ =>
      refine h.setGroup pending ((h.pending _ pending).step step) fun hdirect => ?_
      refine (h.direct ch hdirect).step (fun _ _ hcreates => ?_) step
      rw [opensGroup_of_creates hcreates] at hdirect
      cases hdirect
  | leave pending first _ ending =>
      exact (h.setGroup pending ((h.pending _ pending).leave first ending)
        (h.direct _)).finish pending
  | join pending _ => exact h.finish pending
  | abort failed first =>
      refine ⟨h.reaches.step (.abort failed first), h.parent, fun ch hpending => ?_, h.finished,
        h.direct⟩
      exact (h.pending ch hpending).mono fun _ => rfl

theorem Reaches.sound (h : Reaches t) : t.Sound := by
  induction h with
  | start =>
      exact ⟨.start, rfl, fun _ _ => TaskGroup.sound_opened, fun _ hf => (nomatch hf),
        fun _ _ => ⟨rfl, rfl⟩⟩
  | step _ next ih => exact ih.step next

/-- Which cancellations `_run_channel` gets to see. -/
theorem Sound.exists_selfCancelled_iff (h : t.Sound) :
    (∃ f ∈ t.phase.finished, f.SelfCancelled) ↔ ∃ ch, t.Surfaces ch := by
  constructor
  · rintro ⟨f, hf, hdid, hasked⟩
    obtain ⟨hsound, hend⟩ := h.finished f hf
    rw [hasked] at hsound
    refine ⟨f.channel, ?_⟩
    suffices hdrain : t.SelfCancelled f.channel none ∧ (t.group f.channel).failures = [] from
      ⟨hdrain.1, hdrain.2, f, hf, rfl, hasked⟩
    rw [hdid] at hend
    by_cases hopens : f.channel.opensGroup
    · rw [channelEnd, if_pos hopens] at hend
      exact hsound.outcome_eq_cancelled_iff.mp (ChannelEnd.of_eq_raisesCancelled.mp hend.symm)
    · have hfailures := (h.direct _ (by simpa using hopens)).failures_eq_nil
      refine ⟨?_, hfailures⟩
      rw [channelEnd, if_neg hopens] at hend
      cases he : (t.group f.channel).body with
      | none => simp [he] at hend
      | some e =>
          rw [he, Option.map_some, Option.getD_some, eq_comm, ChannelEnd.of_eq_raisesCancelled]
            at hend
          exact ⟨e, he, hsound.selfCancelled_of_cancelled he hend hfailures⟩
  · rintro ⟨ch, ⟨e, hbody, hself⟩, hfailures, f, hf, rfl, hasked⟩
    obtain ⟨hsound, hend⟩ := h.finished f hf
    rw [hasked] at hsound
    refine ⟨f, hf, ?_, hasked⟩
    rw [hend, channelEnd]
    by_cases hopens : f.channel.opensGroup
    · rw [if_pos hopens, ChannelEnd.of_eq_raisesCancelled]
      exact hsound.outcome_eq_cancelled_iff.mpr ⟨⟨e, hbody, hself⟩, hfailures⟩
    · rw [if_neg hopens, hbody, Option.map_some, Option.getD_some, hself]
      rfl

/-- No channel fails when its drain returns and no task below it fails. -/
theorem Sound.errors_eq_nil (h : t.Sound) (hfailures : ∀ ch, (t.group ch).failures = [])
    (hdrains : ∀ ch e, (t.group ch).body = some e → e.did = .returns) : t.phase.errors = [] := by
  rw [List.eq_nil_iff_forall_not_mem]
  intro exc hexc
  rcases ChannelPhase.mem_errors.mp hexc with ⟨f, hf, hraises⟩ | ⟨_, hself⟩
  · have hnil : (t.group f.channel).failures ++
        ((t.group f.channel).body.bind TaskEnd.failure).toList = [] := by
      rw [hfailures, List.nil_append]
      cases he : (t.group f.channel).body with
      | none => rfl
      | some e => simp [TaskEnd.failure, hdrains _ e he]
    rw [(h.finished f hf).2, channelEnd] at hraises
    by_cases hopens : f.channel.opensGroup
    · rw [if_pos hopens, ChannelEnd.of_eq_raises] at hraises
      exact TaskGroup.outcome_ne_raises hnil hraises
    · rw [if_neg hopens] at hraises
      cases he : (t.group f.channel).body with
      | none => simp [he] at hraises
      | some e => simp [he, hdrains _ e he, ChannelEnd.of] at hraises
  · obtain ⟨ch, ⟨e, he, hcancelled⟩, _, _⟩ := h.exists_selfCancelled_iff.mp hself
    have hdid := hdrains ch e he
    rw [hcancelled] at hdid
    cases hdid

end TaskTree

end StreamDB
