import Mathlib.Data.List.Basic

/-!
# Groups of tasks

A group is opened by the body of the task that owns it. The body and the tasks of the group
create further tasks, and the owner leaves the group once the body has ended and every task has
been joined. A failure of the body or of a task asks all that still run to stop. A task that
ends cancelled is not a failure, whether it has been asked to stop or not.
-/

variable {κ ε : Type}

inductive Ending (ε : Type) where
  | returns
  | raises (exc : ε)
  | cancelled

/-- The end of a task, and whether the task had been asked to stop by then. -/
structure TaskEnd (ε : Type) where
  did : Ending ε
  asked : Bool

namespace TaskEnd

def failure (e : TaskEnd ε) : Option ε :=
  match e.did with
  | .raises exc => some exc
  | _ => none

/-- The task ends in a cancellation that nobody has asked for. -/
def SelfCancelled (e : TaskEnd ε) : Prop := e = ⟨.cancelled, false⟩

end TaskEnd

structure TaskGroup (κ ε : Type) where
  running : List κ
  /-- In finishing order. -/
  ended : List (κ × TaskEnd ε)
  body : Option (TaskEnd ε)
  aborting : Bool
  /-- The owner has been cancelled while it waited for its tasks. -/
  interrupted : Bool

namespace TaskGroup

def opened : TaskGroup κ ε := ⟨[], [], none, false, false⟩

def failures (g : TaskGroup κ ε) : List ε := g.ended.filterMap fun t => t.2.failure

/-- The body ends; unless it returns, the group is aborted. -/
def leave (g : TaskGroup κ ε) (e : TaskEnd ε) : TaskGroup κ ε :=
  { g with
    body := some e
    aborting := match e.did with
      | .returns => g.aborting
      | _ => true }

/-- The task, or the body for `none`, has not ended. -/
def Alive (g : TaskGroup κ ε) : Option κ → Prop
  | none => g.body = none
  | some task => task ∈ g.running

def Joined (g : TaskGroup κ ε) : Prop := g.running = [] ∧ g.body.isSome

/-- What the owner makes of a joined group. -/
def outcome (wrap : List ε → ε) (g : TaskGroup κ ε) : Ending ε :=
  match g.failures ++ (g.body.bind TaskEnd.failure).toList with
  | [] =>
      match g.body.map TaskEnd.did with
      | some .cancelled => .cancelled
      | _ => if g.interrupted then .cancelled else .returns
  | failures => .raises (wrap failures)

/-- What can happen to a group whose owner has been asked to stop or not. The tasks and the body
create the tasks that `creates` lists for them, and end in one of the given ways. -/
inductive Step (creates : Option κ → κ → Prop) (ends : Ending ε → Prop) (asked : Bool) :
    TaskGroup κ ε → TaskGroup κ ε → Prop
  | create {g : TaskGroup κ ε} {creator : Option κ} {task : κ} (alive : g.Alive creator)
      (listed : creates creator task) (accepting : g.aborting = false) :
      Step creates ends asked g { g with running := g.running ++ [task] }
  | finish {g : TaskGroup κ ε} {before after : List κ} {task : κ} {did : Ending ε}
      (running : g.running = before ++ task :: after) (ending : ends did) :
      Step creates ends asked g
        { g with
          running := before ++ after
          ended := g.ended ++ [(task, ⟨did, g.aborting⟩)] }
  | leave {g : TaskGroup κ ε} {did : Ending ε} (first : g.body = none) (ending : ends did) :
      Step creates ends asked g (g.leave ⟨did, g.aborting || asked⟩)
  /-- The group takes in the failure of a task. -/
  | abort {g : TaskGroup κ ε} (failed : g.failures ≠ []) (first : g.aborting = false) :
      Step creates ends asked g { g with aborting := true }
  | interrupt {g : TaskGroup κ ε} (waiting : g.body.isSome) (owner : asked = true)
      (first : g.aborting = false) :
      Step creates ends asked g { g with aborting := true, interrupted := true }

/-- Nobody is asked to stop without a failure in the group, but by whoever asks its owner. -/
structure Sound (ends : Ending ε → Prop) (asked : Bool) (g : TaskGroup κ ε) : Prop where
  ended : ∀ t ∈ g.ended, ends t.2.did
  left : ∀ e, g.body = some e → ends e.did ∧ (e.asked → g.failures ≠ [] ∨ asked)
  aborted : g.body = none → g.aborting → g.failures ≠ []
  interrupted : g.interrupted → asked

variable {creates : Option κ → κ → Prop} {ends : Ending ε → Prop} {asked asked' : Bool}
  {wrap : List ε → ε} {g g' : TaskGroup κ ε}

theorem sound_opened : (opened : TaskGroup κ ε).Sound ends asked where
  ended _ ht := nomatch ht
  left _ he := nomatch he
  aborted _ ha := nomatch ha
  interrupted hi := nomatch hi

theorem Sound.mono (h : g.Sound ends asked) (hle : asked → asked') : g.Sound ends asked' where
  ended := h.ended
  left e he := ⟨(h.left e he).1, fun ha => ((h.left e he).2 ha).imp_right hle⟩
  aborted := h.aborted
  interrupted hi := hle (h.interrupted hi)

theorem failures_finish (g : TaskGroup κ ε) (task : κ) (e : TaskEnd ε) (running : List κ) :
    ({ g with running := running, ended := g.ended ++ [(task, e)] } : TaskGroup κ ε).failures =
      g.failures ++ e.failure.toList := by
  simp only [failures, List.filterMap_append]
  cases he : e.failure with
  | none => simp [he]
  | some exc => simp [he]

theorem Sound.leave (h : g.Sound ends asked) {did : Ending ε} (hfirst : g.body = none)
    (hending : ends did) : (g.leave ⟨did, g.aborting || asked⟩).Sound ends asked where
  ended := h.ended
  left e he := by
    cases he
    refine ⟨hending, fun ha => ?_⟩
    rcases Bool.or_eq_true_iff.mp ha with ha | ha
    · exact .inl (h.aborted hfirst ha)
    · exact .inr ha
  aborted hnone := nomatch hnone
  interrupted := h.interrupted

theorem Sound.step (h : g.Sound ends asked) (hstep : Step creates ends asked g g') :
    g'.Sound ends asked := by
  cases hstep with
  | create _ _ _ => exact ⟨h.ended, h.left, h.aborted, h.interrupted⟩
  | @finish before after task did _ ending =>
      have hkept : ∀ running, g.failures ≠ [] →
          ({ g with running := running, ended := g.ended ++ [(task, ⟨did, g.aborting⟩)] } :
            TaskGroup κ ε).failures ≠ [] := by
        intro running hfailed
        rw [failures_finish]
        exact fun hnil => hfailed (List.append_eq_nil_iff.mp hnil).1
      refine ⟨?_, ?_, ?_, h.interrupted⟩
      · intro t ht
        rcases List.mem_append.mp ht with ht | ht
        · exact h.ended t ht
        · rw [List.mem_singleton.mp ht]
          exact ending
      · intro e he
        exact ⟨(h.left e he).1, fun ha => ((h.left e he).2 ha).imp_left (hkept _)⟩
      · intro hnone ha
        exact hkept _ (h.aborted hnone ha)
  | leave first ending => exact h.leave first ending
  | abort failed _ => exact ⟨h.ended, h.left, fun _ _ => failed, h.interrupted⟩
  | interrupt waiting owner _ =>
      refine ⟨h.ended, h.left, fun hnone => ?_, fun _ => owner⟩
      rw [hnone] at waiting
      cases waiting

/-- A group in which nothing has been created. -/
def Childless (g : TaskGroup κ ε) : Prop := g.running = [] ∧ g.ended = []

theorem Childless.failures_eq_nil (h : g.Childless) : g.failures = [] := by
  rw [failures, h.2, List.filterMap_nil]

theorem Childless.step (h : g.Childless) (hcreates : ∀ creator task, ¬ creates creator task)
    (hstep : Step creates ends asked g g') : g'.Childless := by
  cases hstep with
  | create _ listed _ => exact absurd listed (hcreates _ _)
  | finish running _ =>
      rw [h.1] at running
      simp at running
  | leave _ _ => exact h
  | abort _ _ => exact h
  | interrupt _ _ _ => exact h

theorem mem_failures {exc : ε} :
    exc ∈ g.failures ↔ ∃ t ∈ g.ended, t.2.did = .raises exc := by
  rw [failures, List.mem_filterMap]
  refine exists_congr fun t => and_congr_right fun _ => ?_
  cases hdid : t.2.did with
  | returns => simp [TaskEnd.failure, hdid]
  | raises exc' => simp [TaskEnd.failure, hdid]
  | cancelled => simp [TaskEnd.failure, hdid]

theorem outcome_of_nil (h : g.failures ++ (g.body.bind TaskEnd.failure).toList = []) :
    g.outcome wrap =
      match g.body.map TaskEnd.did with
      | some .cancelled => .cancelled
      | _ => if g.interrupted then .cancelled else .returns := by
  rw [outcome, h]

theorem outcome_of_ne_nil (h : g.failures ++ (g.body.bind TaskEnd.failure).toList ≠ []) :
    g.outcome wrap = .raises (wrap (g.failures ++ (g.body.bind TaskEnd.failure).toList)) := by
  rw [outcome]
  cases hf : g.failures ++ (g.body.bind TaskEnd.failure).toList with
  | nil => exact absurd hf h
  | cons exc rest => rfl

theorem outcome_ne_raises (h : g.failures ++ (g.body.bind TaskEnd.failure).toList = [])
    {exc : ε} : g.outcome wrap ≠ .raises exc := by
  intro hraises
  rw [outcome_of_nil h] at hraises
  split at hraises
  · cases hraises
  · split at hraises
    · cases hraises
    · cases hraises

/-- What a group raises are failures of its tasks and its body. -/
theorem Sound.raised (h : g.Sound ends asked) {exc : ε} (hraises : g.outcome wrap = .raises exc) :
    ∃ failures, failures ≠ [] ∧ exc = wrap failures ∧ ∀ e ∈ failures, ends (.raises e) := by
  by_cases hnil : g.failures ++ (g.body.bind TaskEnd.failure).toList = []
  · exact absurd hraises (outcome_ne_raises hnil)
  · rw [outcome_of_ne_nil hnil] at hraises
    cases hraises
    refine ⟨_, hnil, rfl, fun e he => ?_⟩
    rcases List.mem_append.mp he with he | he
    · obtain ⟨t, ht, hdid⟩ := mem_failures.mp he
      exact hdid ▸ h.ended t ht
    · rw [Option.mem_toList, Option.bind_eq_some_iff] at he
      obtain ⟨b, hb, hfailure⟩ := he
      have hends := (h.left b hb).1
      cases hdid : b.did with
      | returns => simp [TaskEnd.failure, hdid] at hfailure
      | raises exc =>
          rw [hdid] at hends
          simp only [TaskEnd.failure, hdid, Option.some.injEq] at hfailure
          exact hfailure ▸ hends
      | cancelled => simp [TaskEnd.failure, hdid] at hfailure

/-- Nobody has asked for the end of a cancelled body in a group without failures. -/
theorem Sound.selfCancelled_of_cancelled (h : g.Sound ends false) {e : TaskEnd ε}
    (hbody : g.body = some e) (hdid : e.did = .cancelled) (hfailures : g.failures = []) :
    e.SelfCancelled := by
  obtain ⟨did, asked⟩ := e
  cases hdid
  cases asked with
  | false => rfl
  | true =>
      rcases (h.left _ hbody).2 rfl with hfailed | hasked
      · exact absurd hfailures hfailed
      · cases hasked

/-- The owner that nobody has asked to stop leaves its group in a cancellation exactly when the
body has cancelled itself and no task has failed: what the tasks of the group do to themselves
does not show. -/
theorem Sound.outcome_eq_cancelled_iff (h : g.Sound ends false) :
    g.outcome wrap = .cancelled ↔ (∃ e, g.body = some e ∧ e.SelfCancelled) ∧ g.failures = [] := by
  have hinterrupted : g.interrupted = false := by
    by_contra hne
    exact absurd (h.interrupted (by simpa using hne)) (by decide)
  constructor
  · intro hcancelled
    by_cases hnil : g.failures ++ (g.body.bind TaskEnd.failure).toList = []
    · have hfailures := (List.append_eq_nil_iff.mp hnil).1
      refine ⟨?_, hfailures⟩
      rw [outcome_of_nil hnil, hinterrupted] at hcancelled
      cases hbody : g.body with
      | none => simp [hbody] at hcancelled
      | some e =>
          refine ⟨e, rfl, h.selfCancelled_of_cancelled hbody ?_ hfailures⟩
          cases hdid : e.did with
          | returns => simp [hbody, hdid] at hcancelled
          | raises exc => simp [hbody, hdid] at hcancelled
          | cancelled => rfl
    · rw [outcome_of_ne_nil hnil] at hcancelled
      cases hcancelled
  · rintro ⟨⟨e, hbody, rfl⟩, hfailures⟩
    rw [outcome_of_nil (by simp [hfailures, hbody, TaskEnd.failure]), hbody]
    rfl

end TaskGroup
