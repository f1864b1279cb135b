import StreamDB.CounterInvariant
import StreamDB.DrainRows
import StreamDB.ToolRows

/-!
# A message row emitted again

Two paths put the anchor row of a message on the stream, and either may be taken again for an id
it has been taken for. Both counters remember an id, so the row is placed where it was; its
`createdAt` is read from the clock each time.
-/

namespace StreamDB

open Coroutine FirstSeen

inductive Emission where
  | user (msgId text : String) (attachments : List PyValue)
  | anchor (message : ModelMessage)

namespace Emission

variable (rt : Runtime)

def task : Emission → Task Unit
  | user msgId text attachments => emitUserMessage rt msgId text attachments
  | anchor message => consumeMessage rt message

/-- The state in which the writer has been handed the row. -/
def emit (e : Emission) (w : World) : World := ((e.task rt).code.block w).1

/-- The same user message, or a model message of the same id. -/
inductive Again (msgId : String) : Emission → Emission → Prop
  | user (text : String) (attachments : List PyValue) :
      Again msgId (user msgId text attachments) (user msgId text attachments)
  | anchor {message message' : ModelMessage} (ne : msgId ≠ "")
      (named : message.messageId = some msgId) (named' : message'.messageId = some msgId) :
      Again msgId (anchor message) (anchor message')

/-- The row of an emission with the values its fields are given. -/
def frame (msgId threadId : String) (ordinal order createdAt : ℤ) : Emission → Frame
  | user _ text attachments => upsertFrame .message msgId
      (userRow threadId msgId ordinal order createdAt text attachments) (some msgId)
  | anchor _ => upsertFrame .message msgId
      (messageRow threadId msgId ordinal order createdAt none) none

end Emission

structure SameCounters (t t' : Translator) : Prop where
  ordinal : t'.ordinal = t.ordinal
  ordinals : t'.ordinals = t.ordinals
  orderSeq : t'.orderSeq = t.orderSeq
  orderByKey : t'.orderByKey = t.orderByKey
  subagentOrdinal : t'.subagentOrdinal = t.subagentOrdinal
  subagentMsgOrdinal : t'.subagentMsgOrdinal = t.subagentMsgOrdinal

namespace Emission

variable {rt : Runtime} {msgId : String} {e e' : Emission} {w w' : World}

theorem Again.frame_eq (h : Again msgId e e') (threadId : String) (ordinal order createdAt : ℤ) :
    e'.frame msgId threadId ordinal order createdAt =
      e.frame msgId threadId ordinal order createdAt := by
  cases h with
  | user => rfl
  | anchor => rfl

theorem Again.of_left (h : Again msgId e e') : Again msgId e e := by
  cases h with
  | user text attachments => exact .user text attachments
  | anchor ne named _ => exact .anchor ne named named

theorem Again.of_right (h : Again msgId e e') : Again msgId e' e' := by
  cases h with
  | user text attachments => exact .user text attachments
  | anchor ne _ named' => exact .anchor ne named' named'

/-- What an emission asks the counters and the clock for. -/
structure Emits (rt : Runtime) (msgId : String) (e : Emission) (w w' : World) : Prop where
  frames : w'.frames = w.frames ++ [e.frame msgId w.self.threadId
    (assign w.self.ordinals w.self.ordinal msgId).1
    (assign w.self.orderByKey w.self.orderSeq msgId).1 (rt.clockMs w.clockReads)]
  ordinals : (w'.self.ordinals, w'.self.ordinal) =
    (assign w.self.ordinals w.self.ordinal msgId).2
  orders : (w'.self.orderByKey, w'.self.orderSeq) =
    (assign w.self.orderByKey w.self.orderSeq msgId).2
  subagentOrdinal : w'.self.subagentOrdinal = w.self.subagentOrdinal
  subagentMsgOrdinal : w'.self.subagentMsgOrdinal = w.self.subagentMsgOrdinal

variable (rt) in
theorem emits_emit (h : Again msgId e e) (w : World) : Emits rt msgId e w (e.emit rt w) := by
  cases h with
  | user text attachments => exact ⟨rfl, rfl, rfl, rfl, rfl⟩
  | anchor ne named _ =>
      rw [emit, task, consumeMessage, idOr_some rt _ ne named]
      exact ⟨rfl, rfl, rfl, rfl, rfl⟩

/-- The drain emits an anchor when it takes a message it renders. -/
theorem emit_of_drain {message : ModelMessage}
    (h : rendersMessage w.self.summaryPrefix message = true) (rest : Unit → TaskCode)
    (named : message.messageId = some msgId) (ne : msgId ≠ "") :
    ((streamMessage rt message rest).block w).1 = (anchor message).emit rt w := by
  have hcode : (streamMessage rt message rest).block w =
      ((if rendersMessage w.self.summaryPrefix message then consumeMessage rt message
        else pure ()) rest : TaskCode).block w := rfl
  rw [hcode, if_pos h, emit, task, consumeMessage, idOr_some rt _ ne named]
  rfl

/-- The emission in the second state hands out the row of the one in the first, and leaves the
counters alone. -/
structure Repeats (rt : Runtime) (e e' : Emission) (w w' : World) : Prop where
  rows : newFrames w' (e'.emit rt w') = newFrames w (e.emit rt w)
  counters : SameCounters w'.self (e'.emit rt w').self

variable (rt) in
theorem newFrames_emit (h : Again msgId e e) (w : World) :
    newFrames w (e.emit rt w) = [e.frame msgId w.self.threadId
      (assign w.self.ordinals w.self.ordinal msgId).1
      (assign w.self.orderByKey w.self.orderSeq msgId).1 (rt.clockMs w.clockReads)] := by
  rw [newFrames, (emits_emit rt h w).frames, List.drop_left]

theorem createdAt_frame (e : Emission) (msgId threadId : String) (ordinal order createdAt : ℤ) :
    (e.frame msgId threadId ordinal order createdAt).intField "createdAt" = some createdAt := by
  cases e with
  | user _ text attachments =>
      apply intField_upsertFrame
      simp [userRow, OrderedDict.ofEntries, OrderedDict.get_setSome, OrderedDict.get_set]
  | anchor message =>
      apply intField_upsertFrame
      simp [messageRow, OrderedDict.ofEntries, OrderedDict.get_setSome, OrderedDict.get_set]

theorem order_frame (e : Emission) (msgId threadId : String) (ordinal order createdAt : ℤ) :
    (e.frame msgId threadId ordinal order createdAt).order = some order := by
  cases e with
  | user _ text attachments => exact intField_upsertFrame (userRow_order _ _ _ _ _ _ _) _ _ _
  | anchor message => exact intField_upsertFrame (messageRow_order _ _ _ _ _ _) _ _ _

theorem ordinal_frame (e : Emission) (msgId threadId : String) (ordinal order createdAt : ℤ) :
    (e.frame msgId threadId ordinal order createdAt).ordinal = some ordinal := by
  cases e with
  | user _ text attachments => exact intField_upsertFrame (userRow_ordinal _ _ _ _ _ _ _) _ _ _
  | anchor message => exact intField_upsertFrame (messageRow_ordinal _ _ _ _ _ _) _ _ _

theorem transcript_frame (e : Emission) (msgId threadId : String)
    (ordinal order createdAt : ℤ) :
    (e.frame msgId threadId ordinal order createdAt).transcript := by
  have huntagged : (e.frame msgId threadId ordinal order createdAt).untagged := by
    cases e with
    | user _ text attachments =>
        rw [frame, Frame.untagged, field_upsertFrame, userRow_agentId]
        rfl
    | anchor message =>
        rw [frame, Frame.untagged, field_upsertFrame, messageRow_agentId]
        rfl
  have htype : (e.frame msgId threadId ordinal order createdAt).type = .message := by
    cases e with
    | user _ text attachments => rfl
    | anchor message => rfl
  rw [Frame.transcript, huntagged, htype]
  rfl

theorem key_frame (e : Emission) (msgId threadId : String) (ordinal order createdAt : ℤ) :
    (e.frame msgId threadId ordinal order createdAt).key = msgId := by
  cases e with
  | user _ text attachments => rfl
  | anchor message => rfl

variable (rt) in
theorem emits_known (h : Again msgId e e) {ordinal order : ℤ}
    (hordinal : w.self.ordinals.get msgId = some ordinal)
    (horder : w.self.orderByKey.get msgId = some order) :
    newFrames w (e.emit rt w) =
        [e.frame msgId w.self.threadId ordinal order (rt.clockMs w.clockReads)] ∧
      SameCounters w.self (e.emit rt w).self := by
  have hemits := emits_emit rt h w
  have hordinals := hemits.ordinals
  have horders := hemits.orders
  rw [assign_of_get_some w.self.ordinal hordinal] at hordinals
  rw [assign_of_get_some w.self.orderSeq horder] at horders
  constructor
  · rw [newFrames_emit rt h, assign_of_get_some w.self.ordinal hordinal,
      assign_of_get_some w.self.orderSeq horder]
  · exact ⟨congrArg Prod.snd hordinals, congrArg Prod.fst hordinals, congrArg Prod.snd horders,
      congrArg Prod.fst horders, hemits.subagentOrdinal, hemits.subagentMsgOrdinal⟩

end Emission

variable {rt : Runtime} {threadId runId summaryPrefix : String} {s t : ℤ}
  {activities : List Activity} {c c' d : System}

/-- A row emitted again is the row that was emitted before exactly when the clock has not moved;
the counters never do. -/
theorem reemission_repeats_iff {msgId : String} {e e' : Emission}
    (hagain : Emission.Again msgId e e')
    (h : Reaches anyStep
      (startSystem rt (Translator.seeded threadId runId summaryPrefix s t) activities) c)
    {p : Pick} {name : TaskName} (hstep : c.step p = some (name, c'))
    (hemit : c'.state = e.emit rt c.state) (hlater : Reaches anyStep c' d) :
    Emission.Repeats rt e e' c.state d.state ↔
      rt.clockMs d.state.clockReads = rt.clockMs c.state.clockReads := by
  let ordinal := (assign c.state.self.ordinals c.state.self.ordinal msgId).1
  let order := (assign c.state.self.orderByKey c.state.self.orderSeq msgId).1
  let f := e.frame msgId c.state.self.threadId ordinal order (rt.clockMs c.state.clockReads)
  have h' := h.trans (.step .refl hstep trivial)
  have hf : f ∈ d.state.frames := by
    have hframes := (Emission.emits_emit rt hagain.of_left c.state).frames
    rw [← hemit] at hframes
    refine (frames_prefix_of_reaches h' hlater).subset ?_
    rw [hframes]
    exact List.mem_append_right _ List.mem_cons_self
  have htranscript : f.transcript := Emission.transcript_frame e msgId _ _ _ _
  have hcounted := counted_of_reaches (h'.trans hlater)
  have hordinal : d.state.self.ordinals.get msgId = some ordinal := by
    obtain ⟨o, ho, hget⟩ := hcounted.ordinals.stamped f hf htranscript
    rw [Emission.ordinal_frame] at ho
    rw [Emission.key_frame] at hget
    rwa [← Option.some.inj ho] at hget
  have horder : d.state.self.orderByKey.get msgId = some order := by
    obtain ⟨o, ho, hget⟩ := hcounted.orders.stamped f hf (Frame.placed_of_transcript htranscript)
    rw [Emission.order_frame] at ho
    rw [Emission.key_frame] at hget
    rwa [← Option.some.inj ho] at hget
  obtain ⟨hrows, hcounters⟩ := Emission.emits_known rt hagain.of_right hordinal horder
  have hthread : d.state.self.threadId = c.state.self.threadId :=
    (conforms_of_reaches (h'.trans hlater)).threadId.trans (conforms_of_reaches h).threadId.symm
  rw [hthread, hagain.frame_eq] at hrows
  have hfirst := Emission.newFrames_emit rt hagain.of_left c.state
  constructor
  · intro hrepeats
    have hsame := hrepeats.rows
    rw [hrows, hfirst, List.singleton_inj] at hsame
    have hcreated := congrArg (fun g => g.intField "createdAt") hsame
    simp only [Emission.createdAt_frame] at hcreated
    exact Option.some.inj hcreated
  · intro hclock
    refine ⟨?_, hcounters⟩
    rw [hrows, hfirst, hclock]

def greeting (rt : Runtime) : System :=
  startSystem rt (Translator.seeded "t" "r" "summarization-" 0 0)
    [.userMessage "u1" "hello" [], .userMessage "u2" "anyone?" []]

def greeted (rt : Runtime) : System where
  threads := (greeting rt).threads.set 0 (.userMessage, .wait (fun _ => true) .done)
  state := (Emission.user "u1" "hello" []).emit rt (greeting rt).state

theorem step_greeting (rt : Runtime) :
    (greeting rt).step (.run 0) = some (.userMessage, greeted rt) := rfl

/-- Another message has come since. -/
def greetedTwice (rt : Runtime) : System where
  threads := (greeted rt).threads.set 1 (.userMessage, .wait (fun _ => true) .done)
  state := (Emission.user "u2" "anyone?" []).emit rt (greeted rt).state

theorem step_greeted (rt : Runtime) :
    (greeted rt).step (.run 1) = some (.userMessage, greetedTwice rt) := rfl

/-- A few emissions fall into one millisecond. -/
def slowClock : Runtime := { plainRuntime with clockMs := fun reads => reads / 4 }

theorem reemission_repeats_iff_slowClock :
    (greetedTwice slowClock).state.frames.map Frame.key = ["u1", "u2"] ∧
      Emission.Repeats slowClock (.user "u1" "hello" []) (.user "u1" "hello" [])
        (greeting slowClock).state (greetedTwice slowClock).state :=
  ⟨by decide, (reemission_repeats_iff (.user "hello" []) .refl (step_greeting slowClock) rfl
    (.step .refl (step_greeted slowClock) trivial)).mpr rfl⟩

/-- A user message emitted again gets a new `createdAt`. -/
theorem not_reemission_repeats :
    ¬ ∀ (rt : Runtime) (threadId runId summaryPrefix : String) (s t : ℤ)
      (activities : List Activity) (c c' d : System) (msgId : String) (e e' : Emission) (p : Pick)
      (name : TaskName), (∀ i j, i ≤ j → rt.clockMs i ≤ rt.clockMs j) →
      Emission.Again msgId e e' →
      Reaches anyStep
        (startSystem rt (Translator.seeded threadId runId summaryPrefix s t) activities) c →
      c.step p = some (name, c') → c'.state = e.emit rt c.state → Reaches anyStep c' d →
      Emission.Repeats rt e e' c.state d.state := by
  intro h
  have hclock : ∀ i j, i ≤ j → plainRuntime.clockMs i ≤ plainRuntime.clockMs j :=
    fun i j hle => Int.ofNat_le.mpr hle
  have hrepeats := h plainRuntime "t" "r" "summarization-" 0 0 _ (greeting plainRuntime)
    (greeted plainRuntime) (greeted plainRuntime) "u1" _ _ (.run 0)
    .userMessage hclock (.user "hello" []) .refl (step_greeting plainRuntime) rfl .refl
  have hcreated := congrArg (List.filterMap fun f => f.intField "createdAt") hrepeats.rows
  cases hcreated

end StreamDB
