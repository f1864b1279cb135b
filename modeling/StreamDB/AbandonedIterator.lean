import StreamDB.CutProducer
import StreamDB.RowIterator
import StreamDB.RunCalls

/-!
# Leaving `iter_state_rows` early

A consumer that breaks out of the loop, or is cancelled in it, makes the generator cancel the
background task and wait for it. What the run still writes depends on where it is: nothing if it has
not begun or is in `_finalise`, and the row of an aborted run if it is in its stream. The generator
then ends by what it was left by.
-/

namespace StreamDB

namespace Driver

open Producer

variable {s : Scenario}

/-- The run is cut off with what it has written, and passes the cancellation on. -/
def PassesOn {α : Type} (latches : Latches) (calls : List WriterCall)
    (r : Except PyException α × Latches × List WriterCall) : Prop :=
  r = (.error .cancelled, latches, calls)

/-- Rows of the channels have been written since. -/
def Streaming (s : Scenario) (latches : Latches) (opened : List WriterCall) (latches' : Latches)
    (calls : List WriterCall) : Prop :=
  latches' = latches ∧ ∃ rows, rows <+: s.channelRows.frames ∧ calls = opened ++ rows.map .frame

theorem cuts_writeRows {latches : Latches} {opened : List WriterCall} {later rows : List Frame}
    (hrows : rows ++ later = s.channelRows.frames) :
    (writeRows later).Cuts .cancelled
      (fun t out r => PassesOn t out r ∧ Streaming s latches opened t out)
      latches (opened ++ rows.map .frame) := by
  induction later generalizing rows with
  | nil => trivial
  | cons f later ih =>
      refine ⟨⟨rfl, rfl, rows, ⟨_, hrows⟩, rfl⟩, ?_⟩
      have hrows' : (rows ++ [f]) ++ later = s.channelRows.frames := by
        rw [← hrows, List.append_assoc, List.singleton_append]
      have hnext := ih hrows'
      rw [List.map_append, ← List.append_assoc] at hnext
      exact hnext

theorem cuts_joinChannels (latches : Latches) (opened : List WriterCall) :
    (joinChannels s).Cuts .cancelled
      (fun t out r => PassesOn t out r ∧ Streaming s latches opened t out) latches opened := by
  have hrows : (writeRows s.channelRows.frames).Cuts .cancelled
      (fun t out r => PassesOn t out r ∧ Streaming s latches opened t out)
      latches (opened ++ List.map .frame []) := cuts_writeRows (List.nil_append _)
  rw [List.map_nil, List.append_nil] at hrows
  refine cuts_bind (hrows.mono ?_) ?_
  · rintro t out r ⟨rfl, hstreaming⟩
    exact ⟨_, rfl, rfl, hstreaming⟩
  · intro _ t' out' halone
    rw [alone_writeRows] at halone
    cases halone
    refine ⟨⟨rfl, rfl, _, List.prefix_rfl, rfl⟩, ?_⟩
    cases s.channels with
    | none => trivial
    | some exc => trivial

/-- Over an orderly context manager a cancellation leaves the stream as it came. -/
theorem cuts_withStream (hexit : s.exit = .passes) (latches : Latches)
    (opened : List WriterCall) :
    (withStream s).Cuts .cancelled
      (fun t out r => PassesOn t out r ∧ Streaming s latches opened t out) latches opened := by
  refine ⟨⟨rfl, rfl, [], List.nil_prefix, (List.append_nil _).symm⟩, ?_⟩
  change (raiseIfAny s.enter >>= fun _ => (joinChannels s).attempt >>= exitStream s).Cuts _ _ _ _
  cases s.enter with
  | some exc => trivial
  | none =>
      change ((joinChannels s).attempt >>= exitStream s).Cuts _ _ _ _
      rw [attempt_bind]
      refine cuts_andThen ((cuts_joinChannels latches opened).mono ?_) ?_
      · rintro t out r ⟨rfl, hstreaming⟩
        refine ⟨?_, hstreaming⟩
        change (exitStream s (.error .cancelled)).alone t out = _
        rw [exitStream, hexit]
        rfl
      · rw [alone_joinChannels, exitStream, hexit]
        exact ⟨⟨rfl, rfl, _, List.prefix_rfl, rfl⟩, trivial⟩

/-! ## The `except` clauses and the `finally` -/

theorem cuts_handle {Q : Latches → List WriterCall →
      Except PyException Unit × Latches × List WriterCall → Prop} (exc : PyException)
    (latches : Latches) (calls : List WriterCall) :
    (handle s exc).Cuts .cancelled Q latches calls := by
  have habort : ∀ message (e : PyException),
      (abortRun s message >>= fun _ => Producer.raise e).Cuts .cancelled Q latches calls := by
    intro message e
    refine cuts_andThen ?_ ?_
    · cases herrored : latches.errored with
      | true =>
          change Cuts _ _ (if latches.errored then pure () else _ : Driver Unit) _ _
          rw [herrored]
          trivial
      | false =>
          change Cuts _ _ (if latches.errored then pure () else _ : Driver Unit) _ _
          rw [herrored]
          trivial
    · cases ((abortRun s message).alone latches calls).1 with
      | ok _ => trivial
      | error _ => trivial
  unfold handle
  split_ifs
  · exact habort _ _
  · exact habort _ _
  · exact habort _ _
  · trivial

theorem alone_handle_cancelled {latches : Latches} (h : latches.errored = false)
    (calls : List WriterCall) :
    (handle s .cancelled).alone latches calls =
      (.error .cancelled, { latches with errored := true },
        calls ++ [.frame (s.errorFrame "cancelled"), .close]) := by
  have habort : (abortRun s "cancelled").alone latches calls =
      (.ok (), { latches with errored := true },
        calls ++ [.frame (s.errorFrame "cancelled"), .close]) := by
    change (if latches.errored then pure () else _ : Driver Unit).alone latches calls = _
    rw [if_neg (by simp [h]), List.append_cons]
    rfl
  refine (alone_andThen (abortRun s "cancelled") _ latches calls).trans ?_
  rw [habort]
  rfl

theorem alone_finalise_of_errored {latches : Latches} (h : latches.errored = true)
    (calls : List WriterCall) : (finalise s).alone latches calls = (.ok (), latches, calls) := by
  change (if latches.errored then pure () else _ : Driver Unit).alone latches calls = _
  rw [if_pos h]
  rfl

theorem cuts_awaitPreFinish (latches : Latches) (calls : List WriterCall) :
    (awaitPreFinish s).Cuts .cancelled
        (fun t out r => PassesOn t out r ∧ t = latches ∧ out = calls) latches calls ∧
      ((awaitPreFinish s).alone latches calls).2 = (latches, calls) := by
  unfold awaitPreFinish
  cases s.preFinish with
  | none => exact ⟨trivial, rfl⟩
  | some raised =>
      cases raised with
      | none => exact ⟨⟨⟨rfl, rfl, rfl⟩, trivial⟩, rfl⟩
      | some exc =>
          refine ⟨⟨⟨rfl, rfl, rfl⟩, ?_⟩, ?_⟩
          · change Cuts _ _ (if exc.isException then pure () else Producer.raise exc) _ _
            split_ifs
            · trivial
            · trivial
          · change (alone (if exc.isException then pure () else Producer.raise exc) _ _).2 = _
            split_ifs
            · rfl
            · rfl

theorem cuts_collectInterrupts (latches : Latches) (calls : List WriterCall) :
    (collectInterrupts s).Cuts .cancelled
        (fun t out r => PassesOn t out r ∧ t = latches ∧ out = calls) latches calls := by
  refine ⟨⟨rfl, rfl, rfl⟩, ?_⟩
  change (Producer.ofExcept s.interrupted >>= fun paused =>
    if paused then _ else pure [] : Driver _).Cuts _ _ _ _
  cases s.interrupted with
  | error exc => trivial
  | ok paused =>
      change Cuts _ _ (if paused then (_ : Driver _) else pure []) _ _
      split_ifs
      · refine ⟨⟨rfl, rfl, rfl⟩, ?_⟩
        change (Producer.ofExcept s.interrupts >>= fun interrupts =>
          pure _ : Driver _).Cuts _ _ _ _
        cases s.interrupts with
        | error exc => trivial
        | ok interrupts => trivial
      · trivial

theorem cuts_writeOutcome {Q : Latches → List WriterCall →
      Except PyException Unit × Latches × List WriterCall → Prop} (items : List (String × Row))
    (latches : Latches) (calls : List WriterCall) :
    (writeOutcome s items >>= fun _ => Producer.emit .close).Cuts .cancelled Q latches calls := by
  have hrows : ∀ (Q' : Latches → List WriterCall →
      Except PyException Unit × Latches × List WriterCall → Prop) (items : List (String × Row))
      (calls : List WriterCall), (upsertInterrupts items).Cuts .cancelled Q' latches calls := by
    intro Q' items
    induction items with
    | nil => exact fun _ => trivial
    | cons item items ih => exact fun _ => ih _
  cases items with
  | nil => trivial
  | cons item items =>
      refine cuts_bind (cuts_bind (hrows _ _ _) fun _ _ _ _ => ?_) fun _ _ _ _ => ?_
      · trivial
      · trivial

/-- `_finalise` writes nothing while it waits, and no clause catches what is thrown into it. -/
theorem cuts_finalise (latches : Latches) (calls : List WriterCall) :
    (finalise s).Cuts .cancelled
      (fun t out r => PassesOn t out r ∧ t = latches ∧ out = calls) latches calls := by
  change (if latches.errored then pure () else _ : Driver Unit).Cuts _ _ _ _
  split_ifs
  · trivial
  · have hpass : ∀ (α : Type) t out (r : Except PyException α × Latches × List WriterCall),
        PassesOn t out r ∧ t = latches ∧ out = calls → ∃ e', r.1 = .error e' ∧
          PassesOn t out ((.error e', r.2) : Except PyException Unit × Latches × List WriterCall) ∧
          t = latches ∧ out = calls := by
      rintro α t out r ⟨rfl, rfl, rfl⟩
      exact ⟨_, rfl, rfl, rfl, rfl⟩
    obtain ⟨hhook, hstate⟩ := cuts_awaitPreFinish (s := s) latches calls
    refine cuts_bind (hhook.mono (hpass Unit)) fun _ t' out' halone => ?_
    change (awaitPreFinish s).alone latches calls = _ at halone
    rw [halone] at hstate
    cases hstate
    refine cuts_bind ((cuts_collectInterrupts latches calls).mono (hpass _)) ?_
    exact fun items t'' out'' _ => cuts_writeOutcome items t'' out''

theorem alone_exitStream (left : Except PyException Unit) (latches : Latches)
    (calls : List WriterCall) :
    ((exitStream s left).alone latches calls).2 = (latches, calls) := by
  rw [exitStream]
  cases s.exit with
  | raises exc => rfl
  | suppresses => rfl
  | passes => rfl

theorem alone_withStream (latches : Latches) (calls : List WriterCall) :
    ∃ rows, rows <+: s.channelRows.frames ∧
      ((withStream s).alone latches calls).2 = (latches, calls ++ rows.map .frame) := by
  change ∃ rows, rows <+: s.channelRows.frames ∧
    ((raiseIfAny s.enter >>= fun _ =>
      (joinChannels s).attempt >>= exitStream s).alone latches calls).2 = _
  cases s.enter with
  | some exc => exact ⟨[], List.nil_prefix, by rw [List.map_nil, List.append_nil]; rfl⟩
  | none =>
      refine ⟨s.channelRows.frames, List.prefix_rfl, ?_⟩
      change (((joinChannels s).attempt >>= exitStream s).alone latches calls).2 = _
      rw [attempt_bind, alone_andThen, alone_joinChannels, alone_exitStream]

theorem alone_handle (exc : PyException) (latches : Latches) (calls : List WriterCall) :
    ((handle s exc).alone latches calls).2.1.errored ∨
      ((handle s exc).alone latches calls).2 = (latches, calls) := by
  have habort : ∀ message (e : PyException),
      ((abortRun s message >>= fun _ => Producer.raise e :
        Driver Unit).alone latches calls).2.1.errored := by
    intro message e
    have hlatch : ((abortRun s message).alone latches calls).2.1.errored := by
      change ((if latches.errored then pure () else _ : Driver Unit).alone latches
        calls).2.1.errored
      split_ifs with h
      · exact h
      · rfl
    rw [show (abortRun s message >>= fun _ => Producer.raise e : Driver Unit) =
      (abortRun s message).andThen _ from rfl, alone_andThen]
    cases ((abortRun s message).alone latches calls).1 with
    | ok _ => exact hlatch
    | error _ => exact hlatch
  unfold handle
  split_ifs
  · exact .inl (habort _ _)
  · exact .inl (habort _ _)
  · exact .inl (habort _ _)
  · exact .inr rfl

/-- What a run has written when it is cut off, and what comes of it: in its stream it is aborted,
in `_finalise` and before it has begun it is left as it is. -/
inductive CutOff (s : Scenario) (opened : List WriterCall) :
    List WriterCall → Except PyException Unit × List WriterCall → Prop
  | unbegun : CutOff s opened [] (.error .cancelled, [])
  | streaming {rows : List Frame} (started : rows <+: s.channelRows.frames) :
      CutOff s opened (opened ++ rows.map .frame) (.error .cancelled,
        opened ++ rows.map .frame ++ [.frame (s.errorFrame "cancelled"), .close])
  | finalising {rows : List Frame} (started : rows <+: s.channelRows.frames) :
      CutOff s opened (opened ++ rows.map .frame) (.error .cancelled, opened ++ rows.map .frame)

theorem CutOff.cancelled {opened calls calls' : List WriterCall}
    {r : Except PyException Unit} (h : CutOff s opened calls (r, calls')) :
    r = .error .cancelled := by
  cases h with
  | _ => rfl

theorem cuts_guarded (hexit : s.exit = .passes) {latches : Latches}
    (hlatches : latches.errored = false) (opened : List WriterCall) :
    (guarded s).Cuts .cancelled (fun _ out r => CutOff s opened out (r.1, r.2.2)) latches
      opened := by
  refine cuts_withFinally (cuts_catching ((cuts_withStream hexit latches opened).mono ?_) ?_) ?_
  · rintro t out r ⟨rfl, rfl, rows, hrows, rfl⟩
    refine ⟨_, rfl, ?_⟩
    rw [alone_handle_cancelled hlatches, alone_finalise_of_errored rfl]
    exact .streaming hrows
  · exact fun exc latches' calls _ => cuts_handle exc latches' calls
  · have hleft : ((catching (withStream s) (handle s)).alone latches opened).2.1.errored ∨
        ∃ rows, rows <+: s.channelRows.frames ∧
          ((catching (withStream s) (handle s)).alone latches opened).2.2 =
            opened ++ rows.map .frame := by
      obtain ⟨rows, hrows, hstate⟩ := alone_withStream (s := s) latches opened
      rw [catching, alone_andThen]
      cases halone : (withStream s).alone latches opened with
      | mk r r' =>
          rw [halone] at hstate
          cases hstate
          cases r with
          | ok _ => exact .inr ⟨rows, hrows, rfl⟩
          | error exc =>
              refine (alone_handle exc latches _).imp_right fun h => ⟨rows, hrows, ?_⟩
              exact congrArg Prod.snd h
    rcases hleft with herrored | ⟨rows, hrows, hcalls⟩
    · change (if (_ : Latches).errored then pure () else _ : Driver Unit).Cuts _ _ _ _
      rw [if_pos herrored]
      trivial
    · refine (cuts_finalise _ _).mono ?_
      rintro t out r ⟨rfl, rfl, rfl⟩
      rw [hcalls]
      exact .finalising hrows

def openingCalls (s : Scenario) : List WriterCall := ((opening s).alone ⟨false, false⟩ []).2.2

theorem alone_opening (Q : Latches → List WriterCall →
      Except PyException Unit × Latches × List WriterCall → Prop) :
    (opening s).Cuts .cancelled Q ⟨false, false⟩ [] ∧
      ∃ latches, (opening s).alone ⟨false, false⟩ [] = (.ok (), latches, openingCalls s) ∧
        latches.errored = false := by
  unfold openingCalls
  change (announce s >>= fun _ => seedState s : Driver Unit).Cuts _ _ _ _ ∧
    ∃ latches, (announce s >>= fun _ => seedState s : Driver Unit).alone _ _ =
      (_, latches, ((announce s >>= fun _ => seedState s : Driver Unit).alone _ _).2.2) ∧ _
  unfold announce seedState
  cases s.emitRunStarted with
  | true =>
      cases s.initialState with
      | none => exact ⟨trivial, _, rfl, rfl⟩
      | some state => exact ⟨trivial, _, rfl, rfl⟩
  | false =>
      cases s.initialState with
      | none => exact ⟨trivial, _, rfl, rfl⟩
      | some state => exact ⟨trivial, _, rfl, rfl⟩

theorem cuts_drive (hexit : s.exit = .passes) :
    (drive s).Cuts .cancelled (fun _ out r => CutOff s (openingCalls s) out (r.1, r.2.2))
      ⟨false, false⟩ [] := by
  obtain ⟨hopening, latches, halone, hlatches⟩ := alone_opening (s := s)
    fun _ out r => ∃ e', r.1 = .error e' ∧ CutOff s (openingCalls s) out (.error e', r.2.2)
  refine ⟨.unbegun, ?_⟩
  change (opening s >>= fun _ => guarded s : Driver Unit).Cuts _ _ _ _
  refine cuts_bind hopening ?_
  intro _ t' out' h
  rw [halone] at h
  cases h
  exact cuts_guarded hexit hlatches _

end Driver

namespace RowIterator

/-! ## Leaving the loop -/

/-- The end of the `finally` of a generator that was left with `pending`: what the `finally` raises
itself comes first. -/
def reraise (pending : Option PyException) : Except PyException Unit → Except PyException Unit
  | .error exc => .error exc
  | .ok u => match pending with
    | none => .ok u
    | some exc => .error exc

/-- The consumer waits for the task, which runs on. -/
inductive Unwind (pending : Option PyException) : RowIterator → RowIterator → Prop
  | drive {c : RowIterator} {rest : Option PyException → Driver Unit}
      (left : c.consumer = .cancelling) (waits : c.driver = .wait rest) :
      Unwind pending c (c.resume (rest none))
  | join {c : RowIterator} {r : Except PyException Unit} (left : c.consumer = .cancelling)
      (done : c.driver = .ended r) :
      Unwind pending c { c with consumer := .ended (reraise pending (swallowCancelled r)) }

/-- The consumer of an uncancelled run has left its loop before the sentinel, with nothing `pending`
where it closes the generator and with a `CancelledError` where it is cancelled while it waits for a
frame; `cancelled` says whether the cancellation has reached the task. -/
inductive Abandoned (s : Scenario) (pending : Option PyException) : Bool → RowIterator → Prop
  -- A task that is done is awaited, with whatever it raises.
  | leaveDone {c : RowIterator} {r : Except PyException Unit} (run : Reaches false s c)
      (loop : c.consumer = .iterating) (done : c.driver = .ended r) :
      Abandoned s pending false { c with consumer := .ended (reraise pending r) }
  | leave {c : RowIterator} (run : Reaches false s c) (loop : c.consumer = .iterating)
      (running : ∀ r, c.driver ≠ .ended r) :
      Abandoned s pending false { c with consumer := .cancelling }
  | cancel {c : RowIterator} {rest : Option PyException → Driver Unit}
      (before : Abandoned s pending false c) (left : c.consumer = .cancelling)
      (waits : c.driver = .wait rest) : Abandoned s pending true (c.resume (rest (some .cancelled)))
  | unwind {cancelled : Bool} {c c' : RowIterator} (before : Abandoned s pending cancelled c)
      (next : Unwind pending c c') : Abandoned s pending cancelled c'

variable {s : Scenario} {c : RowIterator} {pending : Option PyException}

theorem Reaches.cuts (h : Reaches false s c) (hexit : s.exit = .passes) :
    c.driver.Cuts .cancelled
      (fun _ out r => Driver.CutOff s (Driver.openingCalls s) out (r.1, r.2.2)) c.latches
      c.written := by
  induction h with
  | start => exact Driver.cuts_drive hexit
  | step _ next ih =>
      cases next with
      | drive waits throws =>
          rcases throws with rfl | ⟨hcancels, _⟩
          · rw [waits] at ih
            exact ih.2.block
          · cases hcancels
      | take takes =>
          cases takes with
          | _ => exact ih

/-- Until the cancellation comes, the run is one that nobody has left. -/
theorem Abandoned.uncancelled {b : Bool} (h : Abandoned s pending b c) (hb : b = false) :
    ∃ c₀ consumer, Reaches false s c₀ ∧ c₀.consumer = .iterating ∧
      c = { c₀ with consumer := consumer } := by
  induction h with
  | leaveDone run loop done => exact ⟨_, _, run, loop, rfl⟩
  | leave run loop running => exact ⟨_, _, run, loop, rfl⟩
  | cancel => cases hb
  | unwind before next ih =>
      obtain ⟨c₀, consumer, hrun, hloop, rfl⟩ := ih hb
      cases next with
      | drive left waits => exact ⟨_, _, hrun.step (.drive waits (.inl rfl)), hloop, rfl⟩
      | join left done => exact ⟨c₀, _, hrun, hloop, rfl⟩

/-- From the cancellation on, the run does what is left of it when it is cut off there. -/
theorem Abandoned.cancelled {b : Bool} (h : Abandoned s pending b c) (hb : b = true) :
    ∃ c₀ rest, Reaches false s c₀ ∧ c₀.consumer = .iterating ∧ c₀.driver = .wait rest ∧
      c.driver.alone c.latches c.written =
        (rest (some .cancelled)).alone c₀.latches c₀.written ∧ c.yielded = c₀.yielded := by
  induction h with
  | leaveDone => cases hb
  | leave => cases hb
  | cancel before left waits =>
      obtain ⟨c₀, consumer, hrun, hloop, rfl⟩ := before.uncancelled rfl
      exact ⟨c₀, _, hrun, hloop, waits, Producer.alone_block _ _ _, rfl⟩
  | unwind before next ih =>
      obtain ⟨c₀, rest, hrun, hloop, hrest, halone, hyielded⟩ := ih hb
      cases next with
      | drive left waits =>
          rw [waits] at halone
          refine ⟨c₀, rest, hrun, hloop, hrest, ?_, hyielded⟩
          exact (Producer.alone_block _ _ _).trans halone
      | join left done => exact ⟨c₀, rest, hrun, hloop, hrest, halone, hyielded⟩

theorem Abandoned.settled {b : Bool} (h : Abandoned s pending b c) : c.driver.Settled := by
  induction h with
  | leaveDone run loop done => exact run.sound.settled
  | leave run loop running => exact run.sound.settled
  | cancel => exact Producer.settled_block _ _
  | unwind before next ih =>
      cases next with
      | drive left waits => exact Producer.settled_block _ _
      | join left done => exact ih

theorem Abandoned.joined {b : Bool} (h : Abandoned s pending b c) :
    c.consumer = .cancelling ∨ ∃ r, c.driver = .ended r ∧
      (c.consumer = .ended (reraise pending r) ∧ b = false ∨
        c.consumer = .ended (reraise pending (swallowCancelled r))) := by
  induction h with
  | leaveDone run loop done => exact .inr ⟨_, done, .inl ⟨rfl, rfl⟩⟩
  | leave run loop running => exact .inl rfl
  | cancel before left waits => exact .inl left
  | unwind before next ih =>
      cases next with
      | drive left waits => exact .inl left
      | join left done => exact .inr ⟨_, done, .inr rfl⟩

theorem exists_unwound (driver : Driver Unit) {c : RowIterator}
    (hleft : c.consumer = .cancelling) :
    ∃ c' r, Relation.ReflTransGen (Unwind pending) (c.resume driver) c' ∧
      c'.consumer = .ended r := by
  induction driver generalizing c with
  | ended r => exact ⟨_, _, .single (.join hleft rfl), rfl⟩
  | act effect next ih => exact ih c.latches (c := { c with latches := effect c.latches }) hleft
  | put item rest ih =>
      have hput : c.resume (.put item rest) = RowIterator.resume { c with
          written := c.written ++ [item], queue := c.queue ++ [item] } rest := by
        simp [RowIterator.resume, Producer.block]
      rw [hput]
      exact ih hleft
  | wait rest ih =>
      obtain ⟨c', r, hunwind, hend⟩ := ih none (c := c.resume (.wait rest)) hleft
      exact ⟨c', r, .head (.drive hleft rfl) hunwind, hend⟩

theorem Abandoned.inOrder {b : Bool} (h : Abandoned s pending b c) :
    c.yielded.map .frame <+: c.written := by
  induction h with
  | leaveDone run loop done => exact ⟨_, (run.sound.iterating loop).symm⟩
  | leave run loop running => exact ⟨_, (run.sound.iterating loop).symm⟩
  | cancel before left waits ih => exact ih.trans (List.prefix_append _ _)
  | unwind before next ih =>
      cases next with
      | drive left waits => exact ih.trans (List.prefix_append _ _)
      | join left done => exact ih

theorem Abandoned.finishes {b : Bool} (h : Abandoned s pending b c) :
    ∃ c' r, Relation.ReflTransGen (Unwind pending) c c' ∧ c'.consumer = .ended r := by
  rcases h.joined with hleft | ⟨r, _, ⟨hend, _⟩ | hend⟩
  · rcases h.settled.cases with ⟨r, hdone⟩ | ⟨rest, hwaits⟩
    · exact ⟨_, _, .single (.join hleft hdone), rfl⟩
    · obtain ⟨c', r, hunwind, hend⟩ := exists_unwound (rest none) hleft
      exact ⟨c', r, .head (.drive hleft hwaits) hunwind, hend⟩
  · exact ⟨c, _, .refl, hend⟩
  · exact ⟨c, _, .refl, hend⟩

theorem Abandoned.cutOff (h : Abandoned s pending true c) (hexit : s.exit = .passes)
    {r : Except PyException Unit} (hdone : c.driver = .ended r) : ∃ calls,
    Driver.CutOff s (Driver.openingCalls s) calls (r, c.written) ∧
      c.yielded.map .frame <+: calls := by
  obtain ⟨c₀, rest, hrun, hloop, hrest, halone, hyielded⟩ := h.cancelled rfl
  have hcuts := hrun.cuts hexit
  rw [hrest] at hcuts
  rw [hdone] at halone
  refine ⟨c₀.written, ?_, ?_⟩
  · have hcut := hcuts.1
    rw [← halone] at hcut
    exact hcut
  · rw [hyielded]
    exact ⟨_, (hrun.sound.iterating hloop).symm⟩

structure Unwound (s : Scenario) (pending : Option PyException) (cancelled : Bool)
    (c : RowIterator) : Prop where
  /-- The rows that the consumer has seen are the first ones of the run. -/
  inOrder : c.yielded.map .frame <+: c.written
  /-- The generator ends after the task, by its end or by what it was left by, and it always gets
  there. -/
  joined : ∀ r, c.consumer = .ended r → ∃ r', c.driver = .ended r' ∧
    (r = reraise pending r' ∨ r = reraise pending (swallowCancelled r'))
  finishes : ∃ c' r, Relation.ReflTransGen (Unwind pending) c c' ∧ c'.consumer = .ended r
  /-- A run that the cancellation has not reached goes on as if it were still read. -/
  undisturbed : cancelled = false → ∀ r, c.driver = .ended r →
    ∃ latches, (Driver.run s).alone ⟨false, false⟩ [] = (r, latches, c.written)
  /-- One that it has reached is cut off there, at or after the last row that has been seen. -/
  cutOff : cancelled = true → ∀ r, c.driver = .ended r → ∃ calls,
    Driver.CutOff s (Driver.openingCalls s) calls (r, c.written) ∧
      c.yielded.map .frame <+: calls
  /-- The cancellation of the task does not leave the generator. -/
  quiet : cancelled = true → ∀ r, c.consumer = .ended r → r = reraise pending (.ok ())

theorem unwound_of_abandoned {cancelled : Bool} (h : Abandoned s pending cancelled c)
    (hexit : s.exit = .passes) : Unwound s pending cancelled c where
  inOrder := h.inOrder
  joined r hr := by
    rcases h.joined with hleft | ⟨r', hdone, ⟨hend, _⟩ | hend⟩
    · rw [hleft] at hr
      cases hr
    · rw [hend] at hr
      cases hr
      exact ⟨r', hdone, .inl rfl⟩
    · rw [hend] at hr
      cases hr
      exact ⟨r', hdone, .inr rfl⟩
  finishes := h.finishes
  undisturbed hb r hdone := by
    obtain ⟨c₀, consumer, hrun, _, rfl⟩ := h.uncancelled hb
    have halone := hrun.alone_eq
    change c₀.driver = .ended r at hdone
    rw [hdone] at halone
    exact ⟨_, halone.symm⟩
  cutOff hb r hdone := by
    subst hb
    exact h.cutOff hexit hdone
  quiet hb r hr := by
    subst hb
    rcases h.joined with hleft | ⟨r', hdone, ⟨_, hb⟩ | hend⟩
    · rw [hleft] at hr
      cases hr
    · cases hb
    · obtain ⟨_, hcut, _⟩ := h.cutOff hexit hdone
      rw [hend, hcut.cancelled] at hr
      cases hr
      rfl

/-- A consumer that is cancelled after the first two rows aborts the run, and its own cancellation
goes on. -/
theorem unwound_of_abandoned_two : ∃ c : RowIterator,
    c.yielded = [Scenario.calm.runFrame "running" none, deleteFrame .suggestion "t"] ∧
      c.written = c.yielded.map .frame ++ [.frame (Scenario.calm.errorFrame "cancelled"), .close] ∧
      c.consumer = .ended (.error .cancelled) ∧
      Unwound Scenario.calm (some .cancelled) true c := by
  have hread : Reaches false Scenario.calm _ :=
    ((Reaches.start.step (.drive rfl (.inl rfl))).step (.take (.next rfl rfl))).step
      (.take (.next rfl rfl))
  have hleft : Abandoned Scenario.calm (some .cancelled) true _ :=
    .cancel (.leave hread rfl fun r hr => by cases hr) rfl rfl
  exact ⟨_, rfl, rfl, rfl, unwound_of_abandoned (.unwind hleft (.join rfl rfl)) rfl⟩

end RowIterator

end StreamDB
