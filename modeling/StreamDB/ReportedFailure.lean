import StreamDB.ChannelPhase
import StreamDB.RunSteps

/-!
# The failure a run reports

`_exception_message` goes down from a group to the first member that is no `CancelledError`,
without looking into it. It comes to a failure unless it comes to a group of cancellations first.
-/

namespace StreamDB

namespace PyException

mutual

/-- The exceptions that are no groups, depth first and from left to right. -/
def leaves : PyException → List PyException
  | .group _ exceptions => allLeaves exceptions
  | .cancelled => [.cancelled]
  | .channelCancelled => [.channelCancelled]
  | .exception text => [.exception text]
  | .baseException text => [.baseException text]

def allLeaves : List PyException → List PyException
  | [] => []
  | e :: es => leaves e ++ allLeaves es

end

mutual

/-- No group is empty, as Python has it. -/
def populated : PyException → Bool
  | .group _ exceptions => !exceptions.isEmpty && allPopulated exceptions
  | _ => true

def allPopulated : List PyException → Bool
  | [] => true
  | e :: es => populated e && allPopulated es

end

def firstFailure (e : PyException) : Option PyException :=
  e.leaves.find? fun leaf => !leaf.isCancelled

/-- The way down ends at a group of nothing but `CancelledError`s, with the given text. -/
inductive DeadEnd : PyException → String → Prop
  | here {text : String} {es : List PyException} (cancelled : ∀ e ∈ es, e.isCancelled) :
      DeadEnd (.group text es) text
  | deeper {text inner : String} {before after : List PyException} {e : PyException}
      (skipped : ∀ e' ∈ before, e'.isCancelled) (followed : e.isCancelled = false)
      (deadEnd : DeadEnd e inner) : DeadEnd (.group text (before ++ e :: after)) inner

theorem induction_on_members {motive : PyException → Prop}
    (leaf : ∀ e : PyException, (∀ text es, e ≠ .group text es) → motive e)
    (group : ∀ text es, (∀ e ∈ es, motive e) → motive (.group text es)) :
    ∀ e, motive e
  | .cancelled => leaf _ nofun
  | .channelCancelled => leaf _ nofun
  | .exception _ => leaf _ nofun
  | .baseException _ => leaf _ nofun
  | .group text es => group text es fun e _ => induction_on_members leaf group e

/-- The members a group starts with, as long as they are `CancelledError`s, and the one after
them. -/
theorem all_cancelled_or_first (es : List PyException) :
    (∀ e ∈ es, e.isCancelled) ∨ ∃ before e after, es = before ++ e :: after ∧
      (∀ e' ∈ before, e'.isCancelled) ∧ e.isCancelled = false := by
  induction es with
  | nil => exact .inl nofun
  | cons e es ih =>
      cases he : e.isCancelled with
      | false => exact .inr ⟨[], e, es, rfl, nofun, he⟩
      | true =>
          rcases ih with hall | ⟨before, e', after, rfl, hbefore, he'⟩
          · exact .inl (List.forall_mem_cons.mpr ⟨he, hall⟩)
          · exact .inr ⟨e :: before, e', after, rfl, List.forall_mem_cons.mpr ⟨he, hbefore⟩, he'⟩

variable {text : String} {before after es : List PyException} {e leaf : PyException}

theorem groupMessage_of_cancelled (h : ∀ e ∈ es, e.isCancelled) : groupMessage text es = text := by
  induction es with
  | nil => rfl
  | cons e es ih =>
      rw [List.forall_mem_cons] at h
      rw [groupMessage, if_pos h.1, ih h.2]

theorem groupMessage_append (hskipped : ∀ e' ∈ before, e'.isCancelled)
    (hfollowed : e.isCancelled = false) :
    groupMessage text (before ++ e :: after) = e.message := by
  induction before with
  | nil =>
      rw [List.nil_append, groupMessage, hfollowed]
      rfl
  | cons e' before ih =>
      rw [List.forall_mem_cons] at hskipped
      rw [List.cons_append, groupMessage, if_pos hskipped.1, ih hskipped.2]

theorem DeadEnd.message (h : DeadEnd e text) : e.message = text := by
  induction h with
  | here cancelled => exact groupMessage_of_cancelled cancelled
  | deeper skipped followed _ ih => exact (groupMessage_append skipped followed).trans ih

theorem allLeaves_append : allLeaves (before ++ after) = allLeaves before ++ allLeaves after := by
  induction before with
  | nil => rfl
  | cons e before ih => rw [List.cons_append, allLeaves, ih, allLeaves, List.append_assoc]

theorem find?_allLeaves (hskipped : ∀ e' ∈ before, e'.isCancelled) :
    (allLeaves before).find? (fun leaf => !leaf.isCancelled) = none := by
  induction before with
  | nil => rfl
  | cons e before ih =>
      rw [List.forall_mem_cons] at hskipped
      rw [allLeaves, List.find?_append, ih hskipped.2]
      cases e with
      | cancelled => rfl
      | _ => cases hskipped.1

theorem firstFailure_group (hskipped : ∀ e' ∈ before, e'.isCancelled)
    (h : e.firstFailure = some leaf) :
    (group text (before ++ e :: after)).firstFailure = some leaf := by
  rw [firstFailure, leaves, allLeaves_append, allLeaves, List.find?_append,
    find?_allLeaves hskipped, Option.none_or, List.find?_append]
  rw [firstFailure] at h
  rw [h, Option.some_or]

theorem exists_firstFailure (hcancelled : e.isCancelled = false) (hno : ∀ text, ¬ DeadEnd e text) :
    ∃ leaf, e.firstFailure = some leaf ∧ e.message = leaf.text := by
  induction e using induction_on_members with
  | leaf e hleaf =>
      cases e with
      | cancelled => cases hcancelled
      | group text es => exact absurd rfl (hleaf text es)
      | _ => exact ⟨_, rfl, rfl⟩
  | group text es ih =>
      rcases all_cancelled_or_first es with hall | ⟨before, e, after, rfl, hskipped, hfollowed⟩
      · exact absurd (.here hall) (hno text)
      · have hmem : e ∈ before ++ e :: after := by simp
        obtain ⟨leaf, hleaf, hmessage⟩ := ih e hmem hfollowed fun inner hend =>
          hno inner (.deeper hskipped hfollowed hend)
        refine ⟨leaf, firstFailure_group hskipped hleaf, ?_⟩
        exact (groupMessage_append hskipped hfollowed).trans hmessage

theorem isCancelled_of_firstFailure (h : e.firstFailure = some leaf) : e.isCancelled = false := by
  cases e with
  | cancelled => cases h
  | _ => rfl

/-- The text of the first failure is reported if and only if the way down comes to no group of
cancellations, other than one with this very text. -/
theorem failure_reported_iff (h : e.firstFailure = some leaf) :
    e.message = leaf.text ↔ ∀ text, DeadEnd e text → text = leaf.text := by
  constructor
  · intro hmessage text hend
    rw [← hend.message, hmessage]
  · intro hends
    by_cases hno : ∃ text, DeadEnd e text
    · obtain ⟨text, hend⟩ := hno
      rw [hend.message, hends text hend]
    · obtain ⟨leaf', hleaf', hmessage⟩ :=
        exists_firstFailure (isCancelled_of_firstFailure h) (not_exists.mp hno)
      rw [h, Option.some.injEq] at hleaf'
      rw [hmessage, hleaf']

/-- The failure comes first, and a cancellation after it and inside of a group. -/
def buried : PyException :=
  .group "outer (3 sub-exceptions)" [.cancelled,
    .group "inner (2 sub-exceptions)" [.cancelled, .exception "boom"], .cancelled]

theorem failure_reported_iff_buried :
    buried.firstFailure.map PyException.text = some "boom" ∧
      (buried.message = "boom" ↔ ∀ text, DeadEnd buried text → text = "boom") := by
  have hfirst : buried.firstFailure = some (.exception "boom") := rfl
  exact ⟨rfl, failure_reported_iff hfirst⟩

/-- The group of cancellations that comes first hides the failure behind it. -/
theorem not_failure_reported :
    ¬ ∀ e leaf : PyException, e.populated → e.firstFailure = some leaf →
      e.message = leaf.text := by
  intro h
  have hmessage := h (.group "run (2 sub-exceptions)"
    [.group "tasks (1 sub-exception)" [.cancelled], .exception "boom"]) (.exception "boom")
    (by decide) rfl
  revert hmessage
  decide

/-! ## In a run -/

theorem allPopulated_iff : allPopulated es ↔ ∀ e ∈ es, e.populated := by
  induction es with
  | nil => simp [allPopulated]
  | cons e es ih => simp [allPopulated, ih]

/-- An exception that is an `Exception` has no cancellation in it. -/
theorem not_deadEnd_of_isException (h : e.isException) (hpopulated : e.populated) :
    ¬ DeadEnd e text := by
  intro hend
  induction hend with
  | @here text es cancelled =>
      cases es with
      | nil => cases hpopulated
      | cons e es =>
          rw [isException, allExceptions_iff] at h
          have hcancelled := cancelled e List.mem_cons_self
          rw [isCancelled_of_isException (h e List.mem_cons_self)] at hcancelled
          cases hcancelled
  | @deeper text inner before after e skipped followed deadEnd ih =>
      have hmem : e ∈ before ++ e :: after := by simp
      rw [isException, allExceptions_iff] at h
      rw [populated, Bool.and_eq_true, allPopulated_iff] at hpopulated
      exact ih (h e hmem) (hpopulated.2 e hmem)

end PyException

namespace Scenario

/-- A run that fails with an `Exception` reports the first failure in it: the `except` clause lets
no group with a cancellation through. -/
theorem run_reports_failure {s : Scenario} {started : Bool} {exc : PyException}
    (hstart : ¬ s.CutShort started) (hleaving : s.leaving = some exc) (hexc : exc.isException)
    (hpopulated : exc.populated) (hwrapper : exc.hasChannelCancelled = false)
    (hcut : s.cancelAt ≠ some .abortRow) :
    ∃ before leaf, exc.firstFailure = some leaf ∧
      (s.run (s.startState started)).2.calls =
        before ++ [.frame (s.errorFrame leaf.text), .close] := by
  have hcancelled := PyException.isCancelled_of_isException hexc
  obtain ⟨leaf, hleaf, hmessage⟩ := PyException.exists_firstFailure hcancelled
    fun _ => PyException.not_deadEnd_of_isException hexc hpopulated
  obtain ⟨st, hquiet, hst, hrun⟩ := s.run_of_not_cutShort hstart
  obtain ⟨st', _, hguarded⟩ := s.guarded_of_caught hleaving (.inr hexc) hcut hquiet hst
  have habort : abortMessage exc = leaf.text := by
    rw [abortMessage, hcancelled, hwrapper, ← hmessage]
    rfl
  rw [hrun, hguarded, habort]
  exact ⟨st'.calls, leaf, hleaf, rfl⟩

end Scenario

end StreamDB
