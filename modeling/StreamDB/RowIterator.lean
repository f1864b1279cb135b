import StreamDB.QueueDriver

/-!
# `iter_state_rows`

The consumer takes the frames off the queue while the run goes on in the background, in any
interleaving. Since the run puts the sentinel in the block it ends in, its task is done whenever
the sentinel is taken, and the iterator ends as the run did.
-/

namespace StreamDB

/-- The writer has not been closed. -/
def WriterOpen (latches : Latches) (calls : List WriterCall) : Prop :=
  latches.errored = false ∧ ∃ frames : List Frame, calls = frames.map .frame

/-- The writer has not been closed, or by the last call. -/
def ClosedLast (calls : List WriterCall) : Prop :=
  ∃ frames : List Frame, calls = frames.map .frame ∨ calls = frames.map .frame ++ [.close]

theorem WriterOpen.closedLast {latches : Latches} {calls : List WriterCall}
    (h : WriterOpen latches calls) : ClosedLast calls := by
  obtain ⟨_, frames, hframes⟩ := h
  exact ⟨frames, .inl hframes⟩

theorem WriterOpen.frame {latches : Latches} {calls : List WriterCall}
    (h : WriterOpen latches calls) (f : Frame) : WriterOpen latches (calls ++ [.frame f]) := by
  obtain ⟨herrored, frames, rfl⟩ := h
  exact ⟨herrored, frames ++ [f], by rw [List.map_append, List.map_singleton]⟩

theorem WriterOpen.close {latches : Latches} {calls : List WriterCall}
    (h : WriterOpen latches calls) : ClosedLast (calls ++ [.close]) := by
  obtain ⟨_, frames, rfl⟩ := h
  exact ⟨frames, .inr rfl⟩

namespace Driver

open Producer

variable {s : Scenario}

theorem safe_frame (f : Frame) : Safe WriterOpen (emit (.frame f) : Driver Unit) :=
  safe_emit fun _ _ h => h.frame f

theorem safe_raiseIfAny (raised : Option PyException) :
    Safe WriterOpen (raiseIfAny raised) := by
  cases raised with
  | none => exact safe_ended _
  | some exc => exact safe_ended _

theorem safe_announce : Safe WriterOpen (announce s) := by
  unfold announce
  split
  · refine safe_get_bind fun latches => ?_
    split
    · exact safe_ended _
    · refine safe_bind (safe_modify fun _ _ h => h) fun _ => ?_
      exact safe_bind (safe_frame _) fun _ => safe_frame _
  · exact safe_ended _

theorem safe_seedState : Safe WriterOpen (seedState s) := by
  unfold seedState
  split
  · exact safe_ended _
  · exact safe_frame _

theorem safe_writeRows (frames : List Frame) : Safe WriterOpen (writeRows frames) := by
  induction frames with
  | nil => exact safe_ended _
  | cons f fs ih => exact safe_bind safe_suspend fun _ => safe_bind (safe_frame f) fun _ => ih

theorem safe_joinChannels : Safe WriterOpen (joinChannels s) :=
  safe_bind (safe_writeRows _) fun _ => safe_bind safe_suspend fun _ => safe_raiseIfAny _

theorem safe_exitStream (left : Except PyException Unit) :
    Safe WriterOpen (exitStream s left) := by
  refine safe_bind safe_suspend fun _ => ?_
  cases s.exit with
  | _ => exact safe_ended _

theorem safe_withStream : Safe WriterOpen (withStream s) := by
  refine safe_bind safe_suspend fun _ => safe_bind (safe_raiseIfAny _) fun _ => ?_
  exact safe_bind (safe_attempt safe_joinChannels) fun left => safe_exitStream left

theorem safe_awaitPreFinish : Safe WriterOpen (awaitPreFinish s) := by
  unfold awaitPreFinish
  split
  · exact safe_ended _
  · refine safe_catching (safe_bind safe_suspend fun _ => safe_raiseIfAny _) fun exc => ?_
    split
    · exact safe_ended _
    · exact safe_ended _

theorem safe_collectInterrupts : Safe WriterOpen (collectInterrupts s) := by
  refine safe_bind safe_suspend fun _ => safe_bind (safe_ended _) fun paused => ?_
  split
  · exact safe_bind safe_suspend fun _ => safe_bind (safe_ended _) fun _ => safe_ended _
  · exact safe_ended _

theorem safe_upsertInterrupts (items : List (String × Row)) :
    Safe WriterOpen (upsertInterrupts items) := by
  induction items with
  | nil => exact safe_ended _
  | cons item items ih => exact safe_bind (safe_frame _) fun _ => ih

theorem safe_writeOutcome (items : List (String × Row)) :
    Safe WriterOpen (writeOutcome s items) := by
  cases items with
  | nil => exact safe_frame _
  | cons item items => exact safe_bind (safe_upsertInterrupts _) fun _ => safe_frame _

/-- The writer is open, or the run has been aborted and has closed it last. -/
def Left (latches : Latches) (calls : List WriterCall) : Prop :=
  WriterOpen latches calls ∨ latches.errored ∧ ClosedLast calls

theorem holds_abortRun (message : String) (r : Except PyException Unit) {latches : Latches}
    {calls : List WriterCall} (h : WriterOpen latches calls) :
    (abortRun s message >>= fun _ => Producer.ofExcept r).Holds WriterOpen (fun _ => Left)
      latches calls := by
  refine holds_andThen.mpr ?_
  change (if latches.errored then pure () else _ : Driver Unit).Holds _ _ _ _
  rw [if_neg (by simp [h.1])]
  exact .inr ⟨rfl, (h.frame _).close⟩

theorem holds_handle (exc : PyException) {latches : Latches} {calls : List WriterCall}
    (h : WriterOpen latches calls) :
    (handle s exc).Holds WriterOpen (fun _ => Left) latches calls := by
  unfold handle
  split
  · exact holds_abortRun _ _ h
  · split
    · split
      · exact holds_abortRun _ _ h
      · exact holds_abortRun _ _ h
    · exact .inl h

theorem holds_finalise {latches : Latches} {calls : List WriterCall} (h : Left latches calls) :
    (finalise s).Holds WriterOpen (fun _ _ => ClosedLast) latches calls := by
  change (if latches.errored then pure () else _ : Driver Unit).Holds _ _ _ _
  rcases h with h | ⟨herrored, hclosed⟩
  · rw [if_neg (by simp [h.1])]
    refine holds_bind safe_awaitPreFinish ?_ (fun _ _ _ h => h.closedLast) h
    refine fun _ _ _ h => holds_bind safe_collectInterrupts ?_ (fun _ _ _ h => h.closedLast) h
    refine fun _ _ _ h => holds_bind (safe_writeOutcome _) ?_ (fun _ _ _ h => h.closedLast) h
    exact fun _ _ _ h => h.close
  · rw [if_pos herrored]
    exact hclosed

theorem holds_guarded {latches : Latches} {calls : List WriterCall}
    (h : WriterOpen latches calls) :
    (guarded s).Holds WriterOpen (fun _ _ => ClosedLast) latches calls := by
  have hcaught : (catching (withStream s) (handle s)).Holds WriterOpen (fun _ => Left) latches
      calls := by
    refine holds_andThen.mpr ((safe_withStream _ _ h).mono fun r _ _ h => ?_)
    cases r with
    | ok _ => exact .inl h
    | error exc => exact holds_handle exc h
  refine holds_andThen.mpr (hcaught.mono fun r _ _ h => ?_)
  refine holds_andThen.mpr ((holds_finalise h).mono fun r' _ _ h => ?_)
  cases r' with
  | ok _ => exact h
  | error _ => exact h

/-- Whenever the run waits its writer is open, and when it ends nothing has been written after a
close. -/
theorem holds_drive {latches : Latches} {calls : List WriterCall} (h : WriterOpen latches calls) :
    (drive s).Holds WriterOpen (fun _ _ => ClosedLast) latches calls := by
  refine holds_bind safe_suspend (fun _ _ _ h => ?_) (fun _ _ _ h => h.closedLast) h
  refine holds_bind (safe_bind safe_announce fun _ => safe_seedState) (fun _ _ _ h => ?_)
    (fun _ _ _ h => h.closedLast) h
  exact holds_guarded h

end Driver

/-! ## The task and the consumer -/

/-- Where the generator of `iter_state_rows` is. -/
inductive Consumer where
  | iterating
  /-- It has asked the unfinished task to stop, and waits for it. -/
  | cancelling
  | ended (r : Except PyException Unit)

structure RowIterator where
  /-- What is left of the background task. -/
  driver : Driver Unit
  latches : Latches
  /-- All calls of the writer so far. -/
  written : List WriterCall
  queue : List WriterCall
  consumer : Consumer
  yielded : List Frame

namespace RowIterator

def start (s : Scenario) : RowIterator :=
  ⟨Driver.drive s, ⟨false, false⟩, [], [], .iterating, []⟩

/-- The task runs on, to where it waits next or ends. -/
def resume (c : RowIterator) (driver : Driver Unit) : RowIterator :=
  let b := driver.block c.latches
  { c with
    driver := b.2.2
    latches := b.1
    written := c.written ++ b.2.1
    queue := c.queue ++ b.2.1 }

/-- A cancellation of the task that the consumer awaits does not leave the iterator. -/
def swallowCancelled : Except PyException Unit → Except PyException Unit
  | .error exc => if exc.isCancelled then .ok () else .error exc
  | .ok u => .ok u

/-- The consumer's part: to yield the frame at the head of the queue, and to leave its loop at
the sentinel, with the task done or not. -/
inductive Takes : RowIterator → RowIterator → Prop
  | next {c : RowIterator} {f : Frame} {queue : List WriterCall} (loop : c.consumer = .iterating)
      (head : c.queue = .frame f :: queue) :
      Takes c { c with queue := queue, yielded := c.yielded ++ [f] }
  | finish {c : RowIterator} {queue : List WriterCall} {r : Except PyException Unit}
      (loop : c.consumer = .iterating) (head : c.queue = .close :: queue)
      (done : c.driver = .ended r) :
      Takes c { c with queue := queue, consumer := .ended r }
  | cancel {c : RowIterator} {queue : List WriterCall} (loop : c.consumer = .iterating)
      (head : c.queue = .close :: queue) (running : ∀ r, c.driver ≠ .ended r) :
      Takes c { c with queue := queue, consumer := .cancelling }
  | join {c : RowIterator} {r : Except PyException Unit} (waits : c.consumer = .cancelling)
      (done : c.driver = .ended r) :
      Takes c { c with consumer := .ended (swallowCancelled r) }

/-- The background task may be cancelled wherever it waits, if `cancels`. -/
inductive Step (cancels : Bool) : RowIterator → RowIterator → Prop
  | drive {c : RowIterator} {rest : Option PyException → Driver Unit}
      {thrown : Option PyException} (waits : c.driver = .wait rest)
      (throws : thrown = none ∨ cancels ∧ thrown = some .cancelled) :
      Step cancels c (c.resume (rest thrown))
  | take {c c' : RowIterator} (takes : Takes c c') : Step cancels c c'

inductive Reaches (cancels : Bool) (s : Scenario) : RowIterator → Prop
  | start : Reaches cancels s (start s)
  | step {c c' : RowIterator} (run : Reaches cancels s c) (next : Step cancels c c') :
      Reaches cancels s c'

/-- Until the iterator ends, what has been yielded and what is on the queue is what has been
written; it ends as the task has, with all frames yielded. -/
structure Sound (c : RowIterator) : Prop where
  driver : c.driver.Holds WriterOpen (fun _ _ => ClosedLast) c.latches c.written
  settled : c.driver.Settled
  iterating : c.consumer = .iterating → c.written = c.yielded.map .frame ++ c.queue
  notCancelling : c.consumer ≠ .cancelling
  ended : ∀ r, c.consumer = .ended r →
    c.driver = .ended r ∧ c.written = c.yielded.map .frame ++ [.close]

theorem sound_start (s : Scenario) : (start s).Sound where
  driver := Driver.holds_drive ⟨rfl, [], rfl⟩
  settled := trivial
  iterating _ := rfl
  notCancelling h := nomatch h
  ended _ h := nomatch h

theorem frames_ne_close {frames left : List Frame} {queue : List WriterCall} :
    left.map WriterCall.frame ++ .close :: queue ≠ frames.map .frame := by
  intro heq
  have hmem : WriterCall.close ∈ frames.map WriterCall.frame := heq ▸ by simp
  obtain ⟨f, _, hf⟩ := List.mem_map.mp hmem
  cases hf

/-- Frames up to the first close are all there is when nothing is written after a close. -/
theorem frames_eq_of_close {frames left : List Frame} {queue : List WriterCall}
    (h : left.map WriterCall.frame ++ .close :: queue = frames.map .frame ++ [.close]) :
    left = frames ∧ queue = [] := by
  induction left generalizing frames with
  | nil =>
      cases frames with
      | nil =>
          cases h
          exact ⟨rfl, rfl⟩
      | cons f fs => cases h
  | cons f left ih =>
      cases frames with
      | nil => cases h
      | cons f' fs =>
          obtain ⟨hf, hrest⟩ := List.cons.inj h
          obtain ⟨rfl, hqueue⟩ := ih hrest
          cases hf
          exact ⟨rfl, hqueue⟩

theorem Sound.resume {c : RowIterator} (h : c.Sound)
    {rest : Option PyException → Driver Unit} (hwaits : c.driver = .wait rest)
    (thrown : Option PyException) : (c.resume (rest thrown)).Sound where
  driver := by
    have hdriver := h.driver
    rw [hwaits] at hdriver
    exact (hdriver.2 thrown).block
  settled := Producer.settled_block _ _
  iterating hloop := by
    rw [RowIterator.resume, h.iterating hloop, List.append_assoc]
  notCancelling := h.notCancelling
  ended r hr := by
    have hdone := (h.ended r hr).1
    rw [hwaits] at hdone
    cases hdone

/-- The task waits only while the writer is open, so it is done when the sentinel is there. -/
theorem Sound.done_of_close {c : RowIterator} (h : c.Sound) (hloop : c.consumer = .iterating)
    {queue : List WriterCall} (hhead : c.queue = .close :: queue) :
    ∃ r, c.driver = .ended r ∧ queue = [] := by
  have hdriver := h.driver
  rw [h.iterating hloop, hhead] at hdriver
  rcases h.settled.cases with ⟨r, hr⟩ | ⟨rest, hrest⟩
  · rw [hr] at hdriver
    obtain ⟨frames, hframes | hclosed⟩ := hdriver
    · exact absurd hframes frames_ne_close
    · exact ⟨r, hr, (frames_eq_of_close hclosed).2⟩
  · rw [hrest] at hdriver
    obtain ⟨⟨_, frames, hframes⟩, _⟩ := hdriver
    exact absurd hframes frames_ne_close

theorem Sound.take {c c' : RowIterator} (h : c.Sound) (htake : Takes c c') : c'.Sound := by
  cases htake with
  | @next f queue loop head =>
      refine ⟨h.driver, h.settled, fun _ => ?_, h.notCancelling, fun r hr => ?_⟩
      · rw [h.iterating loop, head, List.map_append, List.append_assoc]
        rfl
      · rw [loop] at hr
        cases hr
  | @finish queue r loop head done =>
      obtain ⟨_, _, rfl⟩ := h.done_of_close loop head
      refine ⟨h.driver, h.settled, fun hloop => (nomatch hloop), fun hc => (nomatch hc), ?_⟩
      intro r' hr'
      cases hr'
      exact ⟨done, by rw [h.iterating loop, head]⟩
  | @cancel queue loop head running =>
      obtain ⟨r, hdone, _⟩ := h.done_of_close loop head
      exact absurd hdone (running r)
  | join waits _ => exact absurd waits h.notCancelling

theorem Sound.step {cancels : Bool} {c c' : RowIterator} (h : c.Sound)
    (hstep : Step cancels c c') : c'.Sound := by
  cases hstep with
  | drive waits _ => exact h.resume waits _
  | take takes => exact h.take takes

theorem Reaches.sound {cancels : Bool} {s : Scenario} {c : RowIterator}
    (h : Reaches cancels s c) : c.Sound := by
  induction h with
  | start => exact sound_start s
  | step _ next ih => exact ih.step next

/-- The consumer on its own. -/
inductive Drains : RowIterator → RowIterator → Prop
  | refl {c : RowIterator} : Drains c c
  | step {c c' c'' : RowIterator} (takes : Takes c c') (drains : Drains c' c'') : Drains c c''

/-- Once the task has ended with a close, the consumer gets to its end, whatever it has left. -/
theorem Sound.drains {c : RowIterator} (h : c.Sound) (hloop : c.consumer = .iterating)
    {r : Except PyException Unit} (hdone : c.driver = .ended r) {frames : List Frame}
    (hclosed : c.written = frames.map .frame ++ [.close]) :
    ∃ c', Drains c c' ∧ c'.consumer = .ended r ∧ c'.yielded = frames := by
  cases hqueue : c.queue with
  | nil =>
      have hwritten := h.iterating hloop
      rw [hqueue, List.append_nil, hclosed] at hwritten
      exact absurd hwritten frames_ne_close
  | cons call queue =>
      cases call with
      | frame f =>
          have htake := Takes.next hloop hqueue
          obtain ⟨c', hdrains, hend⟩ := (h.take htake).drains hloop hdone hclosed
          exact ⟨c', .step htake hdrains, hend⟩
      | close =>
          have hwritten := h.iterating hloop
          rw [hqueue, hclosed] at hwritten
          obtain ⟨hframes, _⟩ := frames_eq_of_close hwritten.symm
          exact ⟨_, .step (.finish hloop hqueue hdone) .refl, rfl, hframes⟩
termination_by c.queue.length
decreasing_by
  simp [hqueue]

/-! ## The run behind the iterator -/

/-- Without a cancellation the task does what is left of the run alone. -/
theorem Reaches.alone_eq {s : Scenario} {c : RowIterator} (h : Reaches false s c) :
    c.driver.alone c.latches c.written = (Driver.run s).alone ⟨false, false⟩ [] := by
  induction h with
  | start => rfl
  | step _ next ih =>
      cases next with
      | drive waits throws =>
          rcases throws with rfl | ⟨hcancels, _⟩
          · rw [waits] at ih
            rw [← ih]
            exact Producer.alone_block _ _ _
          · cases hcancels
      | take takes =>
          cases takes with
          | _ => exact ih

/-- A background task that nobody cancels ends as `Scenario.run` does, and has made its calls. -/
theorem Reaches.run_of_ended {s : Scenario} {c : RowIterator} (h : Reaches false s c)
    (hcut : s.cancelAt = none) {r : Except PyException Unit} (hdone : c.driver = .ended r) :
    (s.run (s.startState false)).1 = r ∧ (s.run (s.startState false)).2.calls = c.written := by
  have halone := h.alone_eq
  rw [hdone] at halone
  have hrun := Driver.mirrors_run hcut ⟨false, false⟩ []
  rw [← halone] at hrun
  have hstart : s.startState false = Latches.runState ⟨false, false⟩ [] := rfl
  rw [hstart, hrun]
  exact ⟨rfl, rfl⟩

/-! ## What the iterator promises -/

structure Faithful (c : RowIterator) : Prop where
  /-- Nothing is lost, duplicated or reordered on the way. -/
  inOrder : c.consumer = .iterating → c.written = c.yielded.map .frame ++ c.queue
  /-- The task is done when the sentinel is taken, so that it is never cancelled then. -/
  sentinel : ∀ queue, c.consumer = .iterating → c.queue = .close :: queue →
    ∃ r, c.driver = .ended r
  notCancelling : c.consumer ≠ .cancelling
  /-- The iterator ends as the run does, when it has yielded every frame. -/
  ended : ∀ r, c.consumer = .ended r →
    c.driver = .ended r ∧ c.written = c.yielded.map .frame ++ [.close]
  /-- It does end, when the last call of a run is the one close. -/
  drains : ∀ frames r, c.consumer = .iterating → c.driver = .ended r →
    c.written = frames.map .frame ++ [.close] →
      ∃ c', Drains c c' ∧ c'.consumer = .ended r ∧ c'.yielded = frames

/-- In whatever order the task and the consumer get to run, and wherever the task is cancelled,
the iterator yields the frames handed to the writer in the order of the calls, and ends as the
run did. -/
theorem faithful_of_reaches {cancels : Bool} {s : Scenario} {c : RowIterator}
    (h : Reaches cancels s c) : c.Faithful where
  inOrder := h.sound.iterating
  sentinel queue hloop hhead := by
    obtain ⟨r, hdone, _⟩ := h.sound.done_of_close hloop hhead
    exact ⟨r, hdone⟩
  notCancelling := h.sound.notCancelling
  ended := h.sound.ended
  drains _ _ hloop hdone hclosed := h.sound.drains hloop hdone hclosed

/-- Resume the task. -/
def advance (c : RowIterator) : RowIterator :=
  match c.driver with
  | .wait rest => c.resume (rest none)
  | _ => c

/-- Let the consumer take what is at the head of the queue. -/
def takeHead (c : RowIterator) : RowIterator :=
  match c.consumer, c.queue, c.driver with
  | .iterating, .frame f :: queue, _ => { c with queue := queue, yielded := c.yielded ++ [f] }
  | .iterating, .close :: queue, .ended r => { c with queue := queue, consumer := .ended r }
  | _, _, _ => c

theorem Reaches.advance {cancels : Bool} {s : Scenario} {c : RowIterator}
    (h : Reaches cancels s c) : Reaches cancels s c.advance := by
  unfold RowIterator.advance
  split
  · rename_i rest hwaits
    exact h.step (.drive hwaits (.inl rfl))
  · exact h

theorem Reaches.takeHead {cancels : Bool} {s : Scenario} {c : RowIterator}
    (h : Reaches cancels s c) : Reaches cancels s c.takeHead := by
  unfold RowIterator.takeHead
  split
  · rename_i f queue hloop hhead
    exact h.step (.take (.next hloop hhead))
  · rename_i queue r hloop hhead hdone
    exact h.step (.take (.finish hloop hhead hdone))
  · exact h

/-- An undisturbed run, whose first two rows are taken before it goes on. -/
def calmIterated : RowIterator :=
  let opened := (start .calm).advance.advance.takeHead.takeHead
  opened.advance.advance.advance.takeHead.takeHead

theorem reaches_calmIterated : Reaches true .calm calmIterated :=
  Reaches.start.advance.advance.takeHead.takeHead.advance.advance.advance.takeHead.takeHead

theorem faithful_of_reaches_calmIterated :
    calmIterated.consumer = .ended (.ok ()) ∧ calmIterated.Faithful :=
  ⟨rfl, faithful_of_reaches reaches_calmIterated⟩

end RowIterator

end StreamDB
