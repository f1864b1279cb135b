import StreamDB.AnswerRows
import StreamDB.CounterInvariant
import StreamDB.TurnSimulation

/-!
# The transcript of a turn

Whatever tools and subagents run next to it, and in any interleaving, a turn puts the message of its
user and then the answers of the graph on the main transcript, in the order of the messages
channel, numbered on from the history.
-/

namespace StreamDB

open Coroutine FirstSeen

/-- A row with the role of a user is that of a user message. -/
theorem userMessage_of_isUser {E : Setting} {name : TaskName} {f : Frame} (h : E.WrittenBy name f)
    (huser : f.isUser) : ∃ text attachments,
      E.source name (.userMessage f.key text attachments) ∧ f.textField "text" = some text := by
  cases h with
  | user item own ordinal order createdAt => exact ⟨_, _, item, textField_userRow⟩
  | anchor author ordinal order createdAt =>
      rw [isUser_messageRow] at huser
      cases huser
  | custom item row =>
      cases row with
      | _ => cases huser
  | _ => cases huser

/-- Where all user rows have one key, and the first row is one of them, the others are answers. -/
theorem firstSeen_transcript {first : Frame} {frames : List Frame} (hfirst : [first] <+: frames)
    (htranscript : first.transcript)
    (husers : ∀ f ∈ frames, f.isUser → f.key = first.key) :
    firstSeen (selectedKeys Frame.transcript frames) =
      firstSeen (first.key :: answerKeys frames) := by
  have hothers : (selectedKeys Frame.transcript frames).filter (· ≠ first.key) =
      (answerKeys frames).filter (· ≠ first.key) := by
    rw [answerKeys, selectedKeys, selectedKeys, List.filter_map, List.filter_map,
      List.filter_filter, List.filter_filter]
    refine congrArg (List.map Frame.key) (List.filter_congr fun f hf => ?_)
    by_cases hkey : f.key = first.key
    · simp [hkey]
    · have huser : f.isUser = false := Bool.eq_false_iff.mpr fun h => hkey (husers f hf h)
      simp [hkey, Frame.isAnswer, huser]
  obtain ⟨later, rfl⟩ := hfirst
  have hhead : selectedKeys Frame.transcript ([first] ++ later) =
      first.key :: selectedKeys Frame.transcript later := by
    rw [List.singleton_append, selectedKeys, List.filter_cons_of_pos htranscript]
    rfl
  rw [firstSeen_cons, ← hothers, hhead, firstSeen_cons, List.filter_cons_of_neg (by simp)]

theorem TranslatorRun.exists_place (r : TranslatorRun) {f : Frame}
    (hf : f ∈ r.final.state.frames) (htranscript : f.transcript) :
    ∃ i : ℕ, (firstSeen (selectedKeys Frame.transcript r.final.state.frames))[i]? = some f.key ∧
      f.ordinal = some (r.ordinalStart + i) := by
  have hcounted := counted_of_reaches (reaches_of_follow r.follows)
  obtain ⟨o, ho, hd⟩ := hcounted.ordinals.stamped f hf htranscript
  obtain ⟨i, hi, rfl⟩ := hcounted.ordinals.numbered.exists_place hd
  rw [hcounted.ordinals.keys_eq] at hi
  exact ⟨i, hi, ho⟩

namespace TurnRun

variable (t : TurnRun)

/-- The messages the channel shows: those that are rendered, up to one that fails. -/
def answers : List ModelMessage :=
  (answersScript summarizationMessageIdPrefix t.stream.messages).entries

def SaidByUser (f : Frame) : Prop :=
  f.isUser ∧ f.key = t.userId ∧ f.textField "text" = some t.text

structure Transcript (answered : List ModelMessage) (keys : List String) : Prop where
  names : Names t.rt answered keys
  first : [t.userFrame] <+: t.final.state.frames
  authors : ∀ f ∈ t.final.state.frames, f.transcript →
    t.SaidByUser f ∨ f.isUser = false ∧ f.key ∈ keys
  rows : firstSeen (selectedKeys Frame.transcript t.final.state.frames) =
    firstSeen (t.userId :: keys)
  ordinals : ∀ f ∈ t.final.state.frames, f.transcript →
    ∃ i : ℕ, (firstSeen (t.userId :: keys))[i]? = some f.key ∧
      f.ordinal = some (nextLiveOrdinal t.priorMessages summarizationMessageIdPrefix + i)

theorem activities_eq : t.activities =
    [.source t.stream.events, .userMessage t.userId t.text t.attachments] ++
      .messages t.stream.messages :: [.custom t.stream.custom, .toolCalls t.stream.toolCalls,
        .subgraphs t.stream.subgraphs, .values t.stream.values] := rfl

theorem not_drains_elsewhere (m : ModelMessage) :
    ¬ drains t.rt ([.source t.stream.events, .userMessage t.userId t.text t.attachments] ++
      [.custom t.stream.custom, .toolCalls t.stream.toolCalls, .subgraphs t.stream.subgraphs,
        .values t.stream.values]) .messages (.message m) := by
  intro h
  cases h with
  | message mem item => simp at mem

variable {t}

theorem saidByUser_of_isUser {f : Frame} (hf : f ∈ t.final.state.frames) (huser : f.isUser) :
    t.SaidByUser f := by
  have hreaches : Reaches anyStep (startSystem t.rt t.translator t.activities) t.asRun.final :=
    reaches_of_follow t.asRun.follows
  rw [← t.state_asRun] at hf
  obtain ⟨name, hwritten⟩ := written_of_reaches hreaches f hf
  obtain ⟨text, attachments, hsource, htext⟩ := userMessage_of_isUser hwritten huser
  cases hsource with
  | userMessage mem =>
      simp only [activities_eq, List.mem_append, List.mem_cons, reduceCtorEq, false_or, or_false,
        Activity.userMessage.injEq, List.not_mem_nil] at mem
      obtain ⟨hkey, rfl, -⟩ := mem
      exact ⟨huser, hkey, htext⟩

theorem transcript_of_names {answered : List ModelMessage}
    (hfirst : [t.userFrame] <+: t.final.state.frames)
    (hnames : Names t.rt answered (answerKeys t.final.state.frames)) :
    t.Transcript answered (answerKeys t.final.state.frames) := by
  have hrows := firstSeen_transcript hfirst transcript_userRow
    fun f hf huser => (saidByUser_of_isUser hf huser).2.1
  refine ⟨hnames, hfirst, fun f hf htranscript => ?_, hrows, fun f hf htranscript => ?_⟩
  · by_cases huser : f.isUser
    · exact .inl (saidByUser_of_isUser hf huser)
    · have hanswer : f.isAnswer := by simp [Frame.isAnswer, htranscript, huser]
      exact .inr ⟨Bool.eq_false_iff.mpr huser,
        List.mem_map_of_mem (List.mem_filter.mpr ⟨hf, hanswer⟩)⟩
  · rw [← t.state_asRun] at hf
    obtain ⟨i, hi, ho⟩ := t.asRun.exists_place hf htranscript
    rw [t.state_asRun, hrows] at hi
    exact ⟨i, hi, ho⟩

variable (t)

/-- At any moment the transcript holds a beginning of what the turn shows, at its end all of it. -/
theorem exists_transcript : t.final.state.frames = [] ∧ ¬ t.Ended ∨
    ∃ answered keys, answered <+: t.answers ∧ (t.Ended → answered = t.answers) ∧
      t.Transcript answered keys := by
  obtain ⟨answered, hanswered, hnames, hend⟩ :=
    t.asRun.answers_of_run t.activities_eq t.not_drains_elsewhere
  rw [t.state_asRun] at hnames
  rcases t.opened with hfresh | hfirst
  · exact .inl hfresh
  · exact .inr ⟨answered, _, hanswered, fun h => hend h.asRun, transcript_of_names hfirst hnames⟩

end TurnRun

/-- The transcript of a turn, which has all rendered messages if none of them fails. -/
theorem transcript_of_turn (t : TurnRun) :
    (t.final.state.frames = [] ∧ ¬ t.Ended ∨
      ∃ answered keys, answered <+: t.answers ∧ (t.Ended → answered = t.answers) ∧
        t.Transcript answered keys) ∧
    (t.stream.messages.error = none →
      (∀ m ∈ t.stream.messages.items, rendersMessage summarizationMessageIdPrefix m →
        m.failure = none) →
      t.answers =
        t.stream.messages.items.filter (rendersMessage summarizationMessageIdPrefix)) := by
  refine ⟨t.exists_transcript, fun herror hitems => ?_⟩
  rw [TurnRun.answers, answersScript_of_sound herror hitems]

def consulting : RunStream where
  events := [.custom, .messages, .subgraphs, .toolCalls, .messages]
  messages := ⟨[modelMessage "m1", textMessage "m2" ["a", "b"]], none⟩
  custom := ⟨[.dict [("content_type", .str "subagent_start"), ("subagent_id", .str "sa1"),
    ("tool_call_id", .str "c1")]], none⟩
  toolCalls := ⟨[searchCall "c1"], none⟩
  subgraphs := ⟨[.mk (some "subagent") (some "sa1") (some ⟨[modelMessage "n1"], none⟩) none none
    none], none⟩
  values := ⟨[], none⟩

def consultingSchedule : List Pick :=
  [.run 0, .run 1, .run 0, .run 1, .run 2, .run 3, .run 0, .run 2, .run 5, .run 7, .run 0, .run 4,
    .run 7, .run 8, .run 0, .run 2, .run 7, .run 8, .run 2, .run 7, .run 8, .run 2, .run 8, .run 2,
    .run 2]

def consulted : TurnRun where
  rt := plainRuntime
  threadId := "t"
  runId := "r"
  priorMessages := earlierTurn
  userId := "u1"
  text := "hi"
  attachments := []
  stream := consulting
  schedule := consultingSchedule
  final := (translateTurn plainRuntime "t" "r" earlierTurn "u1" "hi" [] consulting).after
    (fun _ _ => true) consultingSchedule (by decide)
  uncancelled := by simp [consultingSchedule]
  follows := follow_after _ _ _

def consultedAnswer : AIMessage := ⟨some "m2", .str "ab", []⟩

theorem ended_consulted : consulted.Ended := by
  change ∀ thread ∈ consulted.final.threads, thread.2.HasEnded
  decide

theorem transcript_of_turn_consulted :
    (consulted.Ended ∧ consulted.final.state.frames.map (fun f => (f.key, f.ordinal)) =
      [("u1", some 2), ("m1", some 3), ("c1", none), ("m2", some 4), ("n1", some 0),
        ("c1", none), ("m2:0", none)]) ∧
      ∃ keys, consulted.Transcript consulted.answers keys := by
  refine ⟨⟨ended_consulted, by decide⟩, ?_⟩
  rcases (transcript_of_turn consulted).1 with ⟨-, hnot⟩ | ⟨answered, keys, -, hall, htranscript⟩
  · exact absurd ended_consulted hnot
  · exact ⟨keys, hall ended_consulted ▸ htranscript⟩

end StreamDB
