import StreamDB.Exceptions

/-!
# The task group of the channels

The five channel tasks of a run end in any order. A task ends by itself, or because it has been
asked to: the first failure makes the group ask all tasks that are left, and so does a
cancellation of the run's own task. `_run_channel` tells the two apart by asking whether its task
is being cancelled. The group takes in the first failure a moment after it happens, so that
another channel can fail by itself in between.
-/

namespace StreamDB

inductive Channel where
  | messages
  | custom
  | toolCalls
  | subgraphs
  | values
  deriving DecidableEq

/-- How the coroutine of a channel ends. -/
inductive ChannelEnd where
  | returns
  | raises (exc : PyException)
  | raisesCancelled

/-- A finished channel, and whether its task was being cancelled when it finished. -/
structure Finish where
  channel : Channel
  did : ChannelEnd
  cancelling : Bool

namespace Finish

/-- What `_run_channel` makes of the end of its channel: the exception its task fails with. -/
def error (f : Finish) : Option PyException :=
  match f.did with
  | .returns => none
  | .raises exc => some exc
  | .raisesCancelled => if f.cancelling then none else some .channelCancelled

def raised (f : Finish) : Option PyException :=
  match f.did with
  | .raises exc => some exc
  | _ => none

/-- The channel raised a `CancelledError` that nobody had asked its task for. -/
def SelfCancelled (f : Finish) : Prop := f.did = .raisesCancelled ∧ f.cancelling = false

end Finish

structure ChannelPhase where
  /-- In finishing order. -/
  finished : List Finish
  aborting : Bool
  parentCancelled : Bool

namespace ChannelPhase

def start : ChannelPhase := ⟨[], false, false⟩

def errors (ph : ChannelPhase) : List PyException := ph.finished.filterMap Finish.error

def cancelling (ph : ChannelPhase) : Bool := ph.aborting || ph.parentCancelled

def Pending (ph : ChannelPhase) (ch : Channel) : Prop := ∀ f ∈ ph.finished, f.channel ≠ ch

instance (ph : ChannelPhase) (ch : Channel) : Decidable (ph.Pending ch) :=
  inferInstanceAs (Decidable (∀ f ∈ ph.finished, f.channel ≠ ch))

/-- The exceptions a channel raises are of class `Exception`; the wrapper is private to
`_run_channel`. -/
def Raisable (exc : PyException) : Prop := exc.isException ∧ exc.hasChannelCancelled = false

inductive Step : ChannelPhase → ChannelPhase → Prop
  | finish {ph : ChannelPhase} {ch : Channel} {did : ChannelEnd} (pending : ph.Pending ch)
      (raisable : ∀ exc, did = .raises exc → Raisable exc ∧ ph.parentCancelled = false) :
      Step ph { ph with finished := ph.finished ++ [⟨ch, did, ph.cancelling⟩] }
  /-- The group takes in a failure and cancels the tasks that are left. -/
  | abort {ph : ChannelPhase} (failed : ph.errors ≠ []) (first : ph.aborting = false) :
      Step ph { ph with aborting := true }
  /-- The run's own task is cancelled while it waits for the channels, none of which has
  failed. -/
  | cancelParent {ph : ChannelPhase} {ch : Channel} (pending : ph.Pending ch)
      (sound : ph.errors = []) (first : ph.parentCancelled = false) :
      Step ph { ph with parentCancelled := true }

inductive Reaches : ChannelPhase → Prop
  | start : Reaches start
  | step {ph ph' : ChannelPhase} (run : Reaches ph) (next : Step ph ph') : Reaches ph'

theorem Reaches.returns {ph : ChannelPhase} (h : Reaches ph) (ch : Channel)
    (hpending : ph.Pending ch) :
    Reaches { ph with finished := ph.finished ++ [⟨ch, .returns, ph.cancelling⟩] } :=
  h.step (.finish hpending (by simp))

theorem Reaches.raisesCancelled {ph : ChannelPhase} (h : Reaches ph) (ch : Channel)
    (hpending : ph.Pending ch) :
    Reaches { ph with finished := ph.finished ++ [⟨ch, .raisesCancelled, ph.cancelling⟩] } :=
  h.step (.finish hpending (by simp))

def Joined (ph : ChannelPhase) : Prop := ∀ ch, ¬ ph.Pending ch

def groupText (errors : List PyException) : String :=
  "unhandled errors in a TaskGroup (" ++ toString errors.length ++ " sub-exception" ++
    (if errors.length = 1 then "" else "s") ++ ")"

def group (ph : ChannelPhase) : PyException := .group (groupText ph.errors) ph.errors

/-- What leaves the group once all tasks are joined. -/
def outcome (ph : ChannelPhase) : Option PyException :=
  if ph.errors ≠ [] then some ph.group
  else if ph.parentCancelled then some .cancelled
  else none

structure Sound (ph : ChannelPhase) : Prop where
  raisable : ∀ f ∈ ph.finished, ∀ exc, f.did = .raises exc → Raisable exc
  parent : ph.parentCancelled → ph.errors = []
  aborted : ph.aborting → ph.errors ≠ []
  asked : ∀ f ∈ ph.finished, f.cancelling → ph.cancelling

theorem errors_finish (ph : ChannelPhase) (f : Finish) :
    ({ ph with finished := ph.finished ++ [f] } : ChannelPhase).errors =
      ph.errors ++ f.error.toList := by
  simp only [errors, List.filterMap_append]
  cases hf : f.error with
  | none => simp [hf]
  | some exc => simp [hf]

theorem sound_step {ph ph' : ChannelPhase} (h : ph.Sound) (hstep : Step ph ph') : ph'.Sound := by
  cases hstep with
  | @finish ch did _ raisable =>
      refine ⟨?_, ?_, ?_, ?_⟩
      · intro f hf exc hdid
        rcases List.mem_append.mp hf with hf | hf
        · exact h.raisable f hf exc hdid
        · rw [List.mem_singleton.mp hf] at hdid
          exact (raisable exc hdid).1
      · intro hparent
        have hp : ph.parentCancelled = true := hparent
        rw [errors_finish, h.parent hp, List.nil_append]
        cases hdid : did with
        | returns => rfl
        | raises exc =>
            have hno := (raisable exc hdid).2
            rw [hp] at hno
            cases hno
        | raisesCancelled => simp [Finish.error, cancelling, hp]
      · intro haborting hnil
        rw [errors_finish] at hnil
        exact h.aborted haborting (List.append_eq_nil_iff.mp hnil).1
      · intro f hf hc
        rcases List.mem_append.mp hf with hf | hf
        · exact h.asked f hf hc
        · rw [List.mem_singleton.mp hf] at hc
          exact hc
  | abort failed _ =>
      exact ⟨h.raisable, h.parent, fun _ => failed, fun _ _ _ => rfl⟩
  | cancelParent _ sound _ =>
      refine ⟨h.raisable, fun _ => sound, fun haborting => h.aborted haborting, ?_⟩
      intro _ _ _
      simp [cancelling]

theorem Reaches.sound {ph : ChannelPhase} (h : Reaches ph) : ph.Sound := by
  induction h with
  | start =>
      exact ⟨fun _ hf => (nomatch hf), fun _ => rfl, fun h => (nomatch h), fun _ hf => (nomatch hf)⟩
  | step _ next ih => exact sound_step ih next

/-- A failure of the group is a failure of a channel, or the wrapper of a self-inflicted
cancellation. -/
theorem mem_errors {ph : ChannelPhase} {exc : PyException} :
    exc ∈ ph.errors ↔ (∃ f ∈ ph.finished, f.did = .raises exc) ∨
      (exc = .channelCancelled ∧ ∃ f ∈ ph.finished, f.SelfCancelled) := by
  rw [errors, List.mem_filterMap]
  constructor
  · rintro ⟨f, hf, herror⟩
    cases hdid : f.did with
    | returns => simp [Finish.error, hdid] at herror
    | raises exc' =>
        simp only [Finish.error, hdid, Option.some.injEq] at herror
        exact .inl ⟨f, hf, herror ▸ hdid⟩
    | raisesCancelled =>
        by_cases hc : f.cancelling
        · simp [Finish.error, hdid, hc] at herror
        · simp only [Finish.error, hdid, hc, Bool.false_eq_true, if_false,
            Option.some.injEq] at herror
          exact .inr ⟨herror.symm, f, hf, hdid, by simpa using hc⟩
  · rintro (⟨f, hf, hdid⟩ | ⟨rfl, f, hf, hdid, hc⟩)
    · exact ⟨f, hf, by simp [Finish.error, hdid]⟩
    · exact ⟨f, hf, by simp [Finish.error, hdid, hc]⟩

end ChannelPhase

/-! ## Groups of exceptions -/

namespace PyException

theorem allExceptions_iff {es : List PyException} :
    allExceptions es ↔ ∀ e ∈ es, e.isException := by
  induction es with
  | nil => simp [allExceptions]
  | cons e es ih => simp [allExceptions, ih]

theorem anyChannelCancelled_iff {es : List PyException} :
    anyChannelCancelled es ↔ ∃ e ∈ es, e.hasChannelCancelled := by
  induction es with
  | nil => simp [anyChannelCancelled]
  | cons e es ih => simp [anyChannelCancelled, ih]

theorem isCancelled_of_isException {e : PyException} (h : e.isException) :
    e.isCancelled = false := by
  cases e with
  | cancelled => cases h
  | _ => rfl

/-- The message of a group is that of its first member. -/
theorem message_group {text : String} {e : PyException} {es : List PyException}
    (h : e.isException) : (group text (e :: es)).message = e.message := by
  simp [message, groupMessage, isCancelled_of_isException h]

end PyException

namespace ChannelPhase

variable {ph : ChannelPhase}

theorem Sound.isException (h : ph.Sound) : ∀ exc ∈ ph.errors, exc.isException := by
  intro exc hexc
  rcases mem_errors.mp hexc with ⟨f, hf, hdid⟩ | ⟨rfl, _⟩
  · exact (h.raisable f hf exc hdid).1
  · rfl

/-- The group holds the wrapper exactly when a channel was cancelled by itself. -/
theorem Sound.hasChannelCancelled_iff (h : ph.Sound) :
    ph.group.hasChannelCancelled ↔ ∃ f ∈ ph.finished, f.SelfCancelled := by
  rw [group, PyException.hasChannelCancelled, PyException.anyChannelCancelled_iff]
  constructor
  · rintro ⟨exc, hexc, hwrapper⟩
    rcases mem_errors.mp hexc with ⟨f, hf, hdid⟩ | ⟨_, hself⟩
    · rw [(h.raisable f hf exc hdid).2] at hwrapper
      cases hwrapper
    · exact hself
  · intro hself
    exact ⟨.channelCancelled, mem_errors.mpr (.inr ⟨rfl, hself⟩), rfl⟩

theorem errors_of_not_selfCancelled (h : ¬ ∃ f ∈ ph.finished, f.SelfCancelled) :
    ph.errors = ph.finished.filterMap Finish.raised := by
  rw [errors]
  apply List.filterMap_congr
  intro f hf
  cases hdid : f.did with
  | returns => simp [Finish.error, Finish.raised, hdid]
  | raises exc => simp [Finish.error, Finish.raised, hdid]
  | raisesCancelled =>
      cases hc : f.cancelling with
      | true => simp [Finish.error, Finish.raised, hdid, hc]
      | false => exact absurd ⟨f, hf, hdid, hc⟩ h

/-- Without a failure and without a cancellation of the run, every channel has returned. -/
theorem Sound.returns_of_errors_eq_nil (h : ph.Sound) (herrors : ph.errors = [])
    (hparent : ph.parentCancelled = false) : ∀ f ∈ ph.finished, f.did = .returns := by
  intro f hf
  have haborting : ph.aborting = false := by
    by_contra hne
    exact h.aborted (by simpa using hne) herrors
  have hnone : f.error = none := List.filterMap_eq_nil_iff.mp herrors f hf
  cases hdid : f.did with
  | returns => rfl
  | raises exc => simp [Finish.error, hdid] at hnone
  | raisesCancelled =>
      cases hc : f.cancelling with
      | false => simp [Finish.error, hdid, hc] at hnone
      | true =>
          have hasked := h.asked f hf hc
          simp [cancelling, haborting, hparent] at hasked

theorem errors_eq_nil_of_returns (h : ∀ f ∈ ph.finished, f.did = .returns) : ph.errors = [] := by
  rw [errors, List.filterMap_eq_nil_iff]
  intro f hf
  simp [Finish.error, h f hf]

/-- The ways a joined phase can have gone. -/
theorem Sound.cases (h : ph.Sound) :
    ((∀ f ∈ ph.finished, f.did = .returns) ∧ ph.parentCancelled = false) ∨
      ph.parentCancelled ∨ (∃ f ∈ ph.finished, f.SelfCancelled) ∨
      ∃ exc, (ph.finished.filterMap Finish.raised).head? = some exc := by
  cases hparent : ph.parentCancelled with
  | true => exact .inr (.inl rfl)
  | false =>
      by_cases hself : ∃ f ∈ ph.finished, f.SelfCancelled
      · exact .inr (.inr (.inl hself))
      · cases hraised : ph.finished.filterMap Finish.raised with
        | nil =>
            have herrors : ph.errors = [] := (errors_of_not_selfCancelled hself).trans hraised
            exact .inl ⟨h.returns_of_errors_eq_nil herrors hparent, rfl⟩
        | cons exc rest => exact .inr (.inr (.inr ⟨exc, rfl⟩))

end ChannelPhase

end StreamDB
