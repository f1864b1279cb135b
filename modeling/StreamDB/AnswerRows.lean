import StreamDB.ItemCustody
import StreamDB.MessageScript
import StreamDB.SubagentTags
import StreamDB.TurnRecord

/-!
# The answers of a run

Whatever runs next to it, the messages channel alone puts assistant rows on the main transcript: one
for each message it renders, in the order of the channel.
-/

namespace StreamDB

open Coroutine

/-! ## The part of the transcript that belongs to the channel -/

/-- The assistant rows of the main transcript. -/
def Frame.isAnswer (f : Frame) : Bool := f.transcript && !f.isUser

def answerKeys (frames : List Frame) : List String := selectedKeys Frame.isAnswer frames

theorem answerKeys_append (frames later : List Frame) :
    answerKeys (frames ++ later) = answerKeys frames ++ answerKeys later := by
  rw [answerKeys, selectedKeys, List.filter_append, List.map_append]
  rfl

theorem answerKeys_eq_nil {frames : List Frame} (h : ∀ f ∈ frames, f.isAnswer = false) :
    answerKeys frames = [] := by
  rw [answerKeys, selectedKeys, List.filter_eq_nil_iff.mpr, List.map_nil]
  exact fun f hf => Bool.eq_false_iff.mp (h f hf)

theorem answerKeys_write {f : Frame} (h : f.isAnswer) (w : World) :
    answerKeys (w.write f).frames = answerKeys w.frames ++ [f.key] := by
  rw [World.write, answerKeys_append]
  exact congrArg _ (congrArg _ (List.filter_cons_of_pos h))

theorem answerKeys_write_other {f : Frame} (h : f.isAnswer = false) (w : World) :
    answerKeys (w.write f).frames = answerKeys w.frames := by
  have hnone : answerKeys [f] = [] :=
    answerKeys_eq_nil fun g hg => by rw [List.mem_singleton.mp hg, h]
  rw [World.write, answerKeys_append, hnone, List.append_nil]

theorem isAnswer_of_user {f : Frame} (h : f.isUser) : f.isAnswer = false := by
  rw [Frame.isAnswer, h, Bool.not_true, Bool.and_false]

/-- Only the messages channel writes these rows. -/
theorem not_isAnswer {E : Setting} {name : TaskName} {f : Frame} (h : E.WrittenBy name f)
    (hsource : ∀ m, ¬ E.source .messages (.message m)) : f.isAnswer = false := by
  cases h with
  | user item own ordinal order createdAt => exact isAnswer_of_user isUser_userRow
  | anchor author ordinal order createdAt =>
      cases author with
      | top item _ _ => exact absurd item (hsource _)
      | nested item model linked id =>
          rw [Frame.isAnswer, Frame.transcript, Frame.untagged, field_upsertFrame,
            messageRow_agentId, agentField_of_ne linked.tag_ne]
          rfl
  | custom item row =>
      cases row with
      | _ => rfl
  | _ => rfl

theorem answerKeys_of_advances {E : Setting} {name : TaskName} {w w' : World}
    (hsource : ∀ m, ¬ E.source .messages (.message m)) (h : E.Advances name w w') :
    answerKeys w'.frames = answerKeys w.frames := by
  obtain ⟨frames, hframes, hrows⟩ := h.rows
  rw [hframes, answerKeys_append, answerKeys_eq_nil fun f hf => not_isAnswer (hrows f hf) hsource,
    List.append_nil]

/-! ## The script of the channel -/

/-- A message that is rendered is one answer. -/
def answerScript (summaryPrefix : String) (m : ModelMessage) : Script ModelMessage PyException :=
  if rendersMessage summaryPrefix m then speechScript (.entry m) (fun _ => .done) m else .done

def answersScript (summaryPrefix : String) (feed : Feed ModelMessage) :
    Script ModelMessage PyException :=
  (Script.forEach (answerScript summaryPrefix) feed.items).andThen ⟨[], feed.error⟩

/-- A feed in which nothing fails gives all its answers. -/
theorem answersScript_of_sound {summaryPrefix : String} {feed : Feed ModelMessage}
    (herror : feed.error = none)
    (hitems : ∀ m ∈ feed.items, rendersMessage summaryPrefix m → m.failure = none) :
    answersScript summaryPrefix feed =
      ⟨feed.items.filter (rendersMessage summaryPrefix), none⟩ := by
  obtain ⟨items, error⟩ := feed
  obtain rfl : error = none := herror
  change ∀ m ∈ items, _ at hitems
  have hall : Script.forEach (answerScript summaryPrefix) items =
      ⟨items.filter (rendersMessage summaryPrefix), none⟩ := by
    induction items with
    | nil => rfl
    | cons m items ih =>
        rw [List.forall_mem_cons] at hitems
        rw [Script.forEach, ih hitems.2, answerScript]
        split_ifs with hrenders
        · have hone : (speechScript (.entry m) (fun _ => .done) m) = ⟨[m], m.failure⟩ :=
            congrArg (Script.andThen (.entry m)) (speechScript_done m)
          rw [hone, hitems.1 hrenders, List.filter_cons_of_pos hrenders]
          rfl
        · rw [List.filter_cons_of_neg hrenders]
          rfl
  rw [answersScript, hall]
  simp [Script.andThen]

/-- The keys name the messages. -/
abbrev Names (rt : Runtime) : List ModelMessage → List String → Prop :=
  List.Forall₂ fun m key => ResolvesTo rt "msg_" m.messageId key

theorem exists_name {rt : Runtime} {messages : List ModelMessage} {keys : List String}
    (h : Names rt messages keys) {m : ModelMessage} (hm : m ∈ messages) :
    ∃ key ∈ keys, ResolvesTo rt "msg_" m.messageId key := by
  induction h with
  | nil => cases hm
  | @cons _ key _ _ hkey _ ih =>
      rcases List.mem_cons.mp hm with rfl | hm
      · exact ⟨key, List.mem_cons_self, hkey⟩
      · obtain ⟨key', hmem, hid⟩ := ih hm
        exact ⟨key', List.mem_cons_of_mem _ hmem, hid⟩

section Drain

variable {E : Setting}

def answerOwnership (E : Setting) (hallowed : ∀ name w, E.allowed name w)
    (hsource : ∀ m, ¬ E.source .messages (.message m)) (whole : Script ModelMessage PyException) :
    Ownership TaskName World PyException (List String) where
  env := E.rowProtocol
  part w := answerKeys w.frames
  mid v := ∃ es, es <+: whole.entries ∧ Names E.rt es v
  ends failure v := failure = whole.failure ∧ Names E.rt whole.entries v
  anytime := hallowed
  anyhow _ _ := trivial
  others _ _ _ h := answerKeys_of_advances hsource h

variable {hallowed : ∀ name w, E.allowed name w}
  {hsource : ∀ m, ¬ E.source .messages (.message m)} {whole : Script ModelMessage PyException}

theorem drain_answerOwnership :
    ScriptedDrain (answerOwnership E hallowed hsource whole) E (Names E.rt) whole where
  env := rfl
  frames _ _ hframes := congrArg answerKeys hframes
  logs :=
    { mid := fun es _ hes hv => ⟨es, hes, hv⟩
      ends := fun _ hv => ⟨rfl, hv⟩ }

theorem voices_answer (m : ModelMessage) :
    ScriptedDrain.Voices (answerOwnership E hallowed hsource whole) (Names E.rt) whole E.rt "msg_"
      none m (.entry m) fun _ => .done where
  anchor msgId hid ordinal createdAt := by
    refine drain_answerOwnership.performs_atomically_bind (fun _ => ⟨rfl, rfl, rfl⟩) (fun _ => rfl)
      fun w _ => ?_
    refine drain_answerOwnership.performs_readSelf_bind fun t _ _ => ?_
    refine drain_answerOwnership.performs_write fun es w hes => ?_
    change Names E.rt _ (answerKeys (w.write _).frames)
    rw [answerKeys_write]
    · exact List.rel_append hes (.cons hid .nil)
    · rw [Frame.isAnswer, transcript_messageRow, isUser_messageRow]
      rfl
  chunk msgId hid chunk := by
    refine drain_answerOwnership.performs_readSelf_bind fun t _ _ => ?_
    refine drain_answerOwnership.performs_write fun es w hes => ?_
    change Names E.rt _ (answerKeys (w.write _).frames)
    rw [answerKeys_write_other rfl, List.append_nil]
    exact hes

/-- The drain of the channel gives its answers. -/
theorem performs_streamMessages (feed : Feed ModelMessage) :
    Script.Performs (answerOwnership E hallowed hsource whole) (Names E.rt) whole
      (streamMessages E.rt feed) (answersScript E.summaryPrefix feed) :=
  drain_answerOwnership.performs_drainProjection fun m _ =>
    drain_answerOwnership.performs_streamMessage (voices_answer m)

end Drain

/-! ## Whole runs -/

namespace TranslatorRun

variable {r : TranslatorRun} {before after : List Activity} {feed : Feed ModelMessage}

/-- The answers of a run are a beginning of those of its one messages channel, and all of them
once it has ended. -/
theorem answers_of_run (hactivities : r.activities = before ++ .messages feed :: after)
    (halone : ∀ m, ¬ drains r.rt (before ++ after) .messages (.message m)) :
    ∃ answered, answered <+: (answersScript r.summaryPrefix feed).entries ∧
      Names r.rt answered (answerKeys r.final.state.frames) ∧
      (r.Ended → answered = (answersScript r.summaryPrefix feed).entries) := by
  let E := settingOf r.rt r.threadId r.summaryPrefix (before ++ after) anyStep
  let whole := answersScript r.summaryPrefix feed
  let O := answerOwnership E (fun _ _ => trivial) halone whole
  have hfollows := r.follows
  rw [hactivities] at hfollows
  have hdrain : Owned O ((Activity.messages feed).task r.rt).code (World.start
      (Translator.seeded r.threadId r.runId r.summaryPrefix r.orderStart r.ordinalStart)) :=
    Script.owned_of_performs drain_answerOwnership.logs (performs_streamMessages feed) .nil
  have hmid : O.mid [] := ⟨[], List.nil_prefix, .nil⟩
  have howned := owned_of_follow (ownedBy_start rfl hmid hdrain) (fun _ => trivial) hfollows
  by_cases hended : r.Ended
  · refine ⟨_, List.prefix_rfl, ?_, fun _ => rfl⟩
    obtain ⟨code, hthread, hcode⟩ := howned.owner
    have hend := hended.ended _ (List.mem_of_getElem? hthread)
    cases code with
    | done => exact (howned.ends (hended.uncancelled _) hthread).2
    | fail exc => exact (howned.ends_of_fail hthread).2
    | _ => exact hend.elim
  · obtain ⟨answered, hanswered, hnames⟩ := howned.rests.2
    exact ⟨answered, hanswered, hnames, fun h => absurd h hended⟩

end TranslatorRun

end StreamDB
