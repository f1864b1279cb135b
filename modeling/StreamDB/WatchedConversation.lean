import StreamDB.ReplayNumbering
import StreamDB.ReplayRows
import StreamDB.TurnTranscript

/-!
# Watching and reloading a conversation

A client that has been there for the turns of a conversation has the same messages on its main
transcript as one that loads the conversation afterwards: by the same authors, in the same order
and under the same ordinals.
-/

namespace StreamDB

open Coroutine FirstSeen

/-! ## The lines of a transcript -/

/-- A message on the main transcript; `said` is the text of a user. -/
structure Line where
  key : String
  said : Option String
  ordinal : Option ℤ
  deriving DecidableEq

def Frame.line (f : Frame) : Line where
  key := f.key
  said := if f.isUser then f.textField "text" else none
  ordinal := f.ordinal

def lines (frames : List Frame) : List Line := (frames.filter Frame.transcript).map Frame.line

/-- The lines a client has, in the order they came in. -/
def shownLines (frames : List Frame) : List Line := firstSeen (lines frames)

theorem lines_append (frames later : List Frame) :
    lines (frames ++ later) = lines frames ++ lines later := by
  rw [lines, List.filter_append, List.map_append]
  rfl

theorem map_key_lines (frames : List Frame) :
    (lines frames).map Line.key = selectedKeys Frame.transcript frames := by
  rw [lines, List.map_map]
  rfl

/-- Lines that are numbered on from `n`. -/
def linesFrom : ℕ → List (String × Option String) → List Line
  | _, [] => []
  | n, (key, said) :: rest => ⟨key, said, some n⟩ :: linesFrom (n + 1) rest

theorem linesFrom_append (n : ℕ) (sayings later : List (String × Option String)) :
    linesFrom n (sayings ++ later) =
      linesFrom n sayings ++ linesFrom (n + sayings.length) later := by
  induction sayings generalizing n with
  | nil => rfl
  | cons saying sayings ih =>
      have hnext : n + 1 + sayings.length = n + (saying :: sayings).length := by
        rw [List.length_cons]
        omega
      rw [List.cons_append, linesFrom, linesFrom, ih, hnext, List.cons_append]

theorem getElem?_linesFrom (n : ℕ) (sayings : List (String × Option String)) (i : ℕ) :
    (linesFrom n sayings)[i]? =
      sayings[i]?.map fun saying => ⟨saying.1, saying.2, some (n + i : ℤ)⟩ := by
  induction sayings generalizing n i with
  | nil => rfl
  | cons saying sayings ih =>
      cases i with
      | zero => simp [linesFrom]
      | succ i =>
          rw [linesFrom, List.getElem?_cons_succ, List.getElem?_cons_succ, ih]
          congr 1
          funext saying
          push_cast
          ring_nf

theorem map_key_linesFrom (n : ℕ) (sayings : List (String × Option String)) :
    (linesFrom n sayings).map Line.key = sayings.map Prod.fst := by
  induction sayings generalizing n with
  | nil => rfl
  | cons saying sayings ih => rw [linesFrom, List.map_cons, List.map_cons, ih]

section Known

variable {frames : List Frame} {n : ℕ} {said : List (String × Option String)}

theorem line_mem_linesFrom {f : Frame} {i : ℕ} (hi : said[i]? = some (f.key, f.line.said))
    (hordinal : f.ordinal = some (n + i : ℤ)) : f.line ∈ linesFrom n said := by
  refine List.mem_of_getElem? (i := i) ?_
  rw [getElem?_linesFrom, hi, Option.map_some, ← hordinal]
  rfl

/-- Lines with distinct keys are known by these keys. -/
theorem shownLines_eq (hdistinct : (said.map Prod.fst).Nodup)
    (hrows : firstSeen (selectedKeys Frame.transcript frames) = said.map Prod.fst)
    (hlines : ∀ f ∈ frames, f.transcript → f.line ∈ linesFrom n said) :
    shownLines frames = linesFrom n said := by
  refine firstSeen_of_keys (fun line hline => ?_) (f := Line.key) ?_ ?_
  · obtain ⟨f, hf, rfl⟩ := List.mem_map.mp hline
    obtain ⟨hf, htranscript⟩ := List.mem_filter.mp hf
    exact hlines f hf htranscript
  · rw [map_key_linesFrom]
    exact hdistinct
  · rw [map_key_lines, map_key_linesFrom, hrows]

end Known

/-- Answers, as they are said. -/
def unsaid (keys : List String) : List (String × Option String) := keys.map fun key => (key, none)

theorem map_fst_unsaid (keys : List String) : (unsaid keys).map Prod.fst = keys := by
  rw [unsaid, List.map_map]
  exact List.map_id keys

/-! ## Reloading -/

section Reload

variable {rt : Runtime} {threadId summaryPrefix : String}

variable (rt summaryPrefix) in
/-- What a message of the history says on the transcript, and under which key. -/
def sayings : BaseMessage → List (String × Option String)
  | .human message =>
      if rendersId summaryPrefix message.id then
        [(message.id.getD "", some (contentText rt message.content))]
      else []
  | .ai message =>
      if rendersId summaryPrefix message.id then [(message.id.getD "", none)] else []
  | _ => []

variable (rt summaryPrefix) in
theorem length_sayings (messages : List BaseMessage) :
    (messages.flatMap (sayings rt summaryPrefix)).length =
      nextLiveOrdinal messages summaryPrefix := by
  induction messages with
  | nil => rfl
  | cons m messages ih =>
      rw [List.flatMap_cons, List.length_append, ih, nextLiveOrdinal, nextLiveOrdinal,
        List.countP_cons, Nat.add_comm]
      congr 1
      cases m with
      | human message =>
          rw [sayings, carriesOrdinal]
          split_ifs <;> rfl
      | ai message =>
          rw [sayings, carriesOrdinal]
          split_ifs <;> rfl
      | tool message => rfl
      | other id => rfl

theorem getD_ne_of_rendersId {id : Option String} (h : rendersId summaryPrefix id) :
    id.getD "" ≠ "" := by
  cases id with
  | none => cases h
  | some id =>
      simp only [rendersId, Bool.and_eq_true, decide_eq_true_eq] at h
      exact h.1

/-- A message that carries no ordinal is no line. -/
theorem sayings_filter (messages : List BaseMessage) :
    (messages.filter (carriesOrdinal summaryPrefix)).flatMap (sayings rt summaryPrefix) =
      messages.flatMap (sayings rt summaryPrefix) := by
  induction messages with
  | nil => rfl
  | cons m messages ih =>
      rw [List.flatMap_cons, ← ih]
      by_cases hcarries : carriesOrdinal summaryPrefix m
      · rw [List.filter_cons_of_pos hcarries, List.flatMap_cons]
      · have hnone : sayings rt summaryPrefix m = [] := by
          cases m with
          | human message => exact if_neg hcarries
          | ai message => exact if_neg hcarries
          | tool message => rfl
          | other id => rfl
        rw [List.filter_cons_of_neg hcarries, hnone, List.nil_append]

theorem lines_putMessage (st : ReplayState) {id : String} {row : Row}
    (htranscript : (upsertFrame .message id row none).transcript) :
    lines (st.putMessage id row).frames =
      lines st.frames ++ [(upsertFrame .message id row none).line] := by
  rw [ReplayState.putMessage, lines_append, lines, lines, List.filter_cons_of_pos htranscript]
  rfl

variable (rt threadId) in
theorem line_humanRow (id : String) (message : HumanMessage) (st : ReplayState) :
    (upsertFrame .message id (humanRow rt threadId id message st) none).transcript ∧
      (upsertFrame .message id (humanRow rt threadId id message st) none).line =
        ⟨id, some (contentText rt message.content), some st.ordinal⟩ := by
  constructor
  · simp [Frame.transcript, Frame.untagged, field_upsertFrame, humanRow, OrderedDict.ofEntries,
      OrderedDict.get_set, OrderedDict.get_setSome]
  · have htext : (upsertFrame .message id (humanRow rt threadId id message st) none).textField
        "text" = some (contentText rt message.content) := by
      simp [Frame.textField, field_upsertFrame, humanRow, OrderedDict.ofEntries,
        OrderedDict.get_setSome]
    rw [Frame.line, isUser_humanRow, if_pos rfl, htext, Frame.ordinal,
      intField_upsertFrame (humanRow_ordinal ..)]
    rfl

variable (rt threadId) in
theorem line_aiRow (id : String) (message : AIMessage) (st : ReplayState) :
    (upsertFrame .message id (aiRow rt threadId id message st) none).transcript ∧
      (upsertFrame .message id (aiRow rt threadId id message st) none).line =
        ⟨id, none, some st.ordinal⟩ := by
  constructor
  · simp [Frame.transcript, Frame.untagged, field_upsertFrame, aiRow, OrderedDict.ofEntries,
      OrderedDict.get_set, OrderedDict.get_setSome]
  · rw [Frame.line, isUser_aiRow, Frame.ordinal, intField_upsertFrame (aiRow_ordinal ..)]
    rfl

theorem lines_replayMessage (st : ReplayState) (m : BaseMessage) :
    lines (replayMessage rt threadId summaryPrefix st m).frames =
      lines st.frames ++ linesFrom st.ordinal (sayings rt summaryPrefix m) := by
  cases m with
  | human message =>
      rw [replayMessage, sayings]
      split_ifs
      · obtain ⟨htranscript, hline⟩ := line_humanRow rt threadId (message.id.getD "") message st
        rw [lines_putMessage st htranscript, hline]
        rfl
      · exact (List.append_nil _).symm
  | ai message =>
      rw [replayMessage, sayings]
      split_ifs
      · obtain ⟨htranscript, hline⟩ := line_aiRow rt threadId (message.id.getD "") message st
        rw [replayCalls_frames, lines_putMessage st htranscript, hline]
        rfl
      · exact (List.append_nil _).symm
  | tool message =>
      cases hrow : st.toolRows.get message.toolCallId with
      | none => simp [replayMessage, hrow, sayings, linesFrom]
      | some row => simp [replayMessage, hrow, sayings, linesFrom]
  | other id => simp [replayMessage, sayings, linesFrom]

theorem lines_foldl_replayMessage (messages : List BaseMessage) (st : ReplayState) :
    lines (messages.foldl (replayMessage rt threadId summaryPrefix) st).frames =
      lines st.frames ++
        linesFrom st.ordinal (messages.flatMap (sayings rt summaryPrefix)) := by
  induction messages generalizing st with
  | nil => exact (List.append_nil _).symm
  | cons m messages ih =>
      have hnext : (replayMessage rt threadId summaryPrefix st m).ordinal =
          st.ordinal + (sayings rt summaryPrefix m).length := by
        have hlength := length_sayings rt summaryPrefix [m]
        rw [List.flatMap_singleton, nextLiveOrdinal, List.countP_singleton] at hlength
        rw [replayMessage_ordinal, hlength]
      rw [List.foldl_cons, ih, lines_replayMessage, hnext, List.flatMap_cons, linesFrom_append,
        List.append_assoc]

/-- A history is loaded as its messages, numbered from zero. -/
theorem lines_replayHistory (messages : List BaseMessage) :
    lines (replayHistory rt threadId messages none summaryPrefix).frames =
      linesFrom 0 (messages.flatMap (sayings rt summaryPrefix)) := by
  have htools : ∀ toolRows, lines (toolFrames toolRows) = [] := by
    intro toolRows
    rw [lines, List.filter_eq_nil_iff.mpr, List.map_nil]
    intro f hf
    obtain ⟨row, _, rfl⟩ := mem_toolFrames hf
    exact Bool.false_ne_true
  rw [replayHistory, lines_append, htools, List.append_nil]
  exact lines_foldl_replayMessage messages .initial

end Reload

/-! ## Watching -/

/-- The graph keeps an answer under the id it was shown with. -/
def IsReply (m : ModelMessage) (reply : BaseMessage) : Prop :=
  ∃ answer, reply = .ai answer ∧ answer.id = m.messageId

theorem sayings_of_replies (rt : Runtime) {rt' : Runtime} {answered : List ModelMessage}
    {keys : List String} {later : List BaseMessage} (hnames : Names rt' answered keys)
    (hreplies : List.Forall₂ IsReply answered
      (later.filter (carriesOrdinal summarizationMessageIdPrefix))) :
    later.flatMap (sayings rt summarizationMessageIdPrefix) = unsaid keys := by
  rw [← sayings_filter]
  have hcarries : ∀ reply ∈ later.filter (carriesOrdinal summarizationMessageIdPrefix),
      carriesOrdinal summarizationMessageIdPrefix reply :=
    fun reply hreply => (List.mem_filter.mp hreply).2
  generalize later.filter (carriesOrdinal summarizationMessageIdPrefix) = replies
    at hreplies hcarries
  induction hnames generalizing replies with
  | nil =>
      cases hreplies
      rfl
  | @cons m key answered keys hkey _ ih =>
      cases hreplies with
      | @cons _ reply _ replies hreply hreplies =>
          obtain ⟨answer, rfl, hid⟩ := hreply
          rw [List.forall_mem_cons] at hcarries
          have hrenders : rendersId summarizationMessageIdPrefix answer.id := hcarries.1
          have hsaying : sayings rt summarizationMessageIdPrefix (.ai answer) = [(key, none)] := by
            rw [sayings, if_pos hrenders, hid]
            cases hkey with
            | given present => rfl
            | fresh absent n =>
                rw [hid] at hrenders
                exact absurd absent (getD_ne_of_rendersId hrenders)
          rw [List.flatMap_cons, hsaying, ih _ hreplies hcarries.2]
          rfl

namespace TurnRun

variable {t : TurnRun} {answered : List ModelMessage} {keys : List String}

theorem Transcript.line_mem (h : t.Transcript answered keys)
    (hdistinct : (t.userId :: keys).Nodup) {f : Frame} (hf : f ∈ t.final.state.frames)
    (htranscript : f.transcript) :
    f.line ∈ linesFrom (nextLiveOrdinal t.priorMessages summarizationMessageIdPrefix)
      ((t.userId, some t.text) :: unsaid keys) := by
  have hnew := (List.nodup_cons.mp hdistinct).1
  obtain ⟨i, hi, hordinal⟩ := h.ordinals f hf htranscript
  rw [firstSeen_of_nodup hdistinct] at hi
  refine line_mem_linesFrom (i := i) ?_ hordinal
  rcases h.authors f hf htranscript with ⟨huser, hkey, htext⟩ | ⟨huser, hkey⟩
  · cases i with
    | zero => rw [Frame.line, if_pos huser, htext, hkey, List.getElem?_cons_zero]
    | succ i => exact absurd (hkey ▸ List.mem_of_getElem? hi) hnew
  · cases i with
    | zero =>
        rw [List.getElem?_cons_zero, Option.some.injEq] at hi
        exact absurd (hi ▸ hkey) hnew
    | succ i =>
        rw [List.getElem?_cons_succ] at hi
        rw [List.getElem?_cons_succ, unsaid, List.getElem?_map, hi, Frame.line,
          if_neg (Bool.eq_false_iff.mp huser)]
        rfl

/-- What the graph has added to its history by the end of the turn: the message of the user and
the answers. -/
structure Folded (t : TurnRun) (rt : Runtime) (message : HumanMessage)
    (later : List BaseMessage) : Prop where
  id : message.id = some t.userId
  renders : rendersId summarizationMessageIdPrefix message.id
  text : contentText rt message.content = t.text
  replies : List.Forall₂ IsReply t.answers
    (later.filter (carriesOrdinal summarizationMessageIdPrefix))

/-- The lines a turn adds are those of the messages the graph adds. -/
theorem shownLines_of_folded {rt : Runtime} {message : HumanMessage} {later : List BaseMessage}
    (hended : t.Ended) (h : t.Folded rt message later)
    (hdistinct : (((.human message :: later).flatMap
      (sayings rt summarizationMessageIdPrefix)).map Prod.fst).Nodup) :
    shownLines t.final.state.frames =
      linesFrom (nextLiveOrdinal t.priorMessages summarizationMessageIdPrefix)
        ((.human message :: later).flatMap (sayings rt summarizationMessageIdPrefix)) := by
  rcases t.exists_transcript with ⟨-, hnot⟩ | ⟨answered, keys, -, hall, htranscript⟩
  · exact absurd hended hnot
  obtain rfl := hall hended
  have huser : sayings rt summarizationMessageIdPrefix (.human message) =
      [(t.userId, some t.text)] := by
    rw [sayings, if_pos h.renders, h.id, h.text]
    rfl
  have hsayings : (.human message :: later).flatMap (sayings rt summarizationMessageIdPrefix) =
      (t.userId, some t.text) :: unsaid keys := by
    rw [List.flatMap_cons, huser, sayings_of_replies rt htranscript.names h.replies,
      List.singleton_append]
  have hkeys : ((t.userId, some t.text) :: unsaid keys).map Prod.fst = t.userId :: keys := by
    rw [List.map_cons, map_fst_unsaid]
  rw [hsayings, hkeys] at hdistinct
  rw [hsayings]
  refine shownLines_eq (hkeys ▸ hdistinct) ?_ fun f hf => htranscript.line_mem hdistinct hf
  rw [htranscript.rows, hkeys, firstSeen_of_nodup hdistinct]

end TurnRun

/-! ## Resuming -/

/-- A run of the channels alone, as after an interrupt. -/
structure ResumedRun extends TranslatorRun where
  stream : RunStream
  channels : activities = .source stream.events :: stream.channels
  compacts : summaryPrefix = summarizationMessageIdPrefix

namespace ResumedRun

variable (r : ResumedRun)

def answers : List ModelMessage :=
  (answersScript summarizationMessageIdPrefix r.stream.messages).entries

theorem not_isUser {f : Frame} (hf : f ∈ r.final.state.frames) : f.isUser = false := by
  refine Bool.eq_false_iff.mpr fun huser => ?_
  obtain ⟨name, hwritten⟩ := written_of_reaches (reaches_of_follow r.follows) f hf
  obtain ⟨text, attachments, hsource, -⟩ := userMessage_of_isUser hwritten huser
  cases hsource with
  | userMessage mem => simp [r.channels, RunStream.channels] at mem

theorem transcript_eq : selectedKeys Frame.transcript r.final.state.frames =
    answerKeys r.final.state.frames := by
  refine congrArg (List.map Frame.key) (List.filter_congr fun f hf => ?_)
  rw [Frame.isAnswer, r.not_isUser hf, Bool.not_false, Bool.and_true]

variable {r}

theorem names_of_ended (hended : r.Ended) :
    Names r.rt r.answers (answerKeys r.final.state.frames) := by
  have hactivities : r.activities = [.source r.stream.events] ++ .messages r.stream.messages ::
      [.custom r.stream.custom, .toolCalls r.stream.toolCalls, .subgraphs r.stream.subgraphs,
        .values r.stream.values] := r.channels
  obtain ⟨answered, -, hnames, hall⟩ := r.answers_of_run hactivities fun m h => by
    cases h with
    | message mem item => simp at mem
  rw [hall hended, r.compacts] at hnames
  exact hnames

/-- The lines it adds are those of the messages the graph adds. -/
theorem shownLines_of_replies {rt : Runtime} {n : ℕ} {later : List BaseMessage} (hended : r.Ended)
    (hseeded : r.ordinalStart = n)
    (hreplies : List.Forall₂ IsReply r.answers
      (later.filter (carriesOrdinal summarizationMessageIdPrefix)))
    (hdistinct :
      ((later.flatMap (sayings rt summarizationMessageIdPrefix)).map Prod.fst).Nodup) :
    shownLines r.final.state.frames =
      linesFrom n (later.flatMap (sayings rt summarizationMessageIdPrefix)) := by
  have hsayings := sayings_of_replies rt (names_of_ended hended) hreplies
  rw [hsayings, map_fst_unsaid] at hdistinct
  rw [hsayings]
  have hrows : firstSeen (selectedKeys Frame.transcript r.final.state.frames) =
      answerKeys r.final.state.frames := by
    rw [r.transcript_eq, firstSeen_of_nodup hdistinct]
  refine shownLines_eq (by rwa [map_fst_unsaid]) (by rw [hrows, map_fst_unsaid])
    fun f hf htranscript => ?_
  obtain ⟨i, hi, hordinal⟩ := r.exists_place hf htranscript
  rw [hseeded] at hordinal
  refine line_mem_linesFrom (i := i) ?_ hordinal
  rw [hrows] at hi
  rw [unsaid, List.getElem?_map, hi, Frame.line, if_neg (Bool.eq_false_iff.mp (r.not_isUser hf))]
  rfl

end ResumedRun

/-! ## Conversations -/

/-- The history of a conversation, and the rows of a client that loaded it at some time and has
been there for everything since: turns, and runs that resume the graph. -/
inductive Watched (rt : Runtime) (threadId : String) : List BaseMessage → List Frame → Prop
  | loaded (history : List BaseMessage) :
      Watched rt threadId history
        (replayHistory rt threadId history none summarizationMessageIdPrefix).frames
  | turn {log : List Frame} {message : HumanMessage} {later : List BaseMessage} (t : TurnRun)
      (earlier : Watched rt threadId t.priorMessages log) (ended : t.Ended)
      (folded : t.Folded rt message later)
      (distinct : (((.human message :: later).flatMap
        (sayings rt summarizationMessageIdPrefix)).map Prod.fst).Nodup) :
      Watched rt threadId (t.priorMessages ++ .human message :: later)
        (log ++ t.final.state.frames)
  | resumed {log : List Frame} {history later : List BaseMessage} (r : ResumedRun)
      (earlier : Watched rt threadId history log) (ended : r.Ended)
      (seeded : r.ordinalStart = nextLiveOrdinal history summarizationMessageIdPrefix)
      (replies : List.Forall₂ IsReply r.answers
        (later.filter (carriesOrdinal summarizationMessageIdPrefix)))
      (distinct : ((later.flatMap (sayings rt summarizationMessageIdPrefix)).map Prod.fst).Nodup) :
      Watched rt threadId (history ++ later) (log ++ r.final.state.frames)

section Loaded

variable {rt : Runtime} {threadId : String}

/-- Rows whose lines are those of later messages keep the two clients together. -/
theorem shownLines_append {history later : List BaseMessage} {log frames : List Frame}
    (h : shownLines log = shownLines
      (replayHistory rt threadId history none summarizationMessageIdPrefix).frames)
    (hlater : shownLines frames =
      linesFrom (nextLiveOrdinal history summarizationMessageIdPrefix)
        (later.flatMap (sayings rt summarizationMessageIdPrefix))) :
    shownLines (log ++ frames) = shownLines
      (replayHistory rt threadId (history ++ later) none summarizationMessageIdPrefix).frames := by
  have hlength := length_sayings rt summarizationMessageIdPrefix history
  rw [shownLines, shownLines, lines_replayHistory] at h
  rw [shownLines, shownLines, lines_append, firstSeen_append_congr h, ← firstSeen_append_firstSeen,
    ← shownLines, hlater, lines_replayHistory, List.flatMap_append, linesFrom_append, hlength,
    Nat.zero_add]

/-- A client that loads the conversation now sees what this one sees. -/
theorem shownLines_of_watched {history : List BaseMessage} {log : List Frame}
    (h : Watched rt threadId history log) :
    shownLines log = shownLines
      (replayHistory rt threadId history none summarizationMessageIdPrefix).frames := by
  induction h with
  | loaded history => rfl
  | turn t _ ended folded distinct ih =>
      exact shownLines_append ih (t.shownLines_of_folded ended folded distinct)
  | resumed r _ ended seeded replies distinct ih =>
      exact shownLines_append ih (r.shownLines_of_replies ended seeded replies distinct)

end Loaded

def consultedReplies : List BaseMessage :=
  [.ai (answerTo "m1" "c1"), .tool ⟨"c1", .str "found", .none, .success⟩, .ai consultedAnswer]

theorem folded_consulted :
    consulted.Folded plainRuntime ⟨some "u1", .str "hi", []⟩ consultedReplies where
  id := rfl
  renders := by decide
  text := rfl
  replies := .cons ⟨_, rfl, rfl⟩ (.cons ⟨_, rfl, rfl⟩ .nil)

/-- The history after the turn. -/
def consultedHistory : List BaseMessage :=
  earlierTurn ++ .human ⟨some "u1", .str "hi", []⟩ :: consultedReplies

/-- The graph goes on with one more message. -/
def goingOn : RunStream where
  events := [.messages]
  messages := ⟨[modelMessage "m3"], none⟩
  custom := ⟨[], none⟩
  toolCalls := ⟨[], none⟩
  subgraphs := ⟨[], none⟩
  values := ⟨[], none⟩

def goneOn : ResumedRun where
  rt := plainRuntime
  threadId := "t"
  runId := "r"
  summaryPrefix := summarizationMessageIdPrefix
  orderStart := nextLiveOrder consultedHistory summarizationMessageIdPrefix
  ordinalStart := nextLiveOrdinal consultedHistory summarizationMessageIdPrefix
  activities := .source goingOn.events :: goingOn.channels
  schedule := [.run 0, .run 1, .run 1]
  final := (startSystem plainRuntime (Translator.seeded "t" "r" summarizationMessageIdPrefix
    (nextLiveOrder consultedHistory summarizationMessageIdPrefix)
    (nextLiveOrdinal consultedHistory summarizationMessageIdPrefix))
    (.source goingOn.events :: goingOn.channels)).after (fun _ _ => true)
      [.run 0, .run 1, .run 1] (by decide)
  follows := follow_after _ _ _
  stream := goingOn
  channels := rfl
  compacts := rfl

theorem ended_goneOn : goneOn.Ended := ⟨by simp [goneOn], by decide⟩

theorem shownLines_of_watched_goneOn :
    let log := (replayHistory plainRuntime "t" earlierTurn none
      summarizationMessageIdPrefix).frames ++ consulted.final.state.frames ++
        goneOn.final.state.frames
    let history := consultedHistory ++ [.ai ⟨some "m3", .str "", []⟩]
    shownLines log = [⟨"u0", some "hello", some 0⟩, ⟨"a0", none, some 1⟩,
        ⟨"u1", some "hi", some 2⟩, ⟨"m1", none, some 3⟩, ⟨"m2", none, some 4⟩,
        ⟨"m3", none, some 5⟩] ∧
      shownLines log = shownLines
        (replayHistory plainRuntime "t" history none summarizationMessageIdPrefix).frames :=
  ⟨by decide, shownLines_of_watched (.resumed goneOn
    (.turn consulted (.loaded earlierTurn) ended_consulted folded_consulted (by decide))
    ended_goneOn rfl (.cons ⟨_, rfl, rfl⟩ .nil) (by decide))⟩

end StreamDB
