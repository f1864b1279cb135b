import StreamDB.ReplayStore
import StreamDB.TurnOrder

/-!
# The user row of a turn and its replay

A turn writes the row of its user message from the live counters and hands the graph a message
with the same id and text. A replay of the history with that message writes the row again: at the
same place when the live start has counted what the replay counts, and without attachments.
-/

namespace StreamDB

open Coroutine

inductive UserMessage where
  | text (text : String)
  | message (message : HumanMessage)

def UserMessage.id : UserMessage → Option String
  | .text _ => none
  | .message human => human.id

/-- What a turn is called with. `uuid` is the text of the uuid it draws when there is no id. -/
structure UserTurn where
  threadId : String
  runId : String
  userMessage : UserMessage
  priorMessages : List BaseMessage
  userMessageId : Option String
  uuid : String
  attachments : List PyValue
  ordinalStart : Option ℤ
  orderStart : Option ℤ

def messageText (rt : Runtime) (content : PyValue) : String := contentText rt content

def coerceId (uuid : String) (messageId : Option String) : String :=
  if messageId.getD "" = "" then "msg-" ++ uuid else messageId.getD ""

namespace UserTurn

variable (rt : Runtime) (turn : UserTurn)

def text : String :=
  match turn.userMessage with
  | .text text => text
  | .message message => messageText rt message.content

def userId : String :=
  if turn.userMessageId.getD "" = "" then coerceId turn.uuid turn.userMessage.id
  else turn.userMessageId.getD ""

def translator : Translator :=
  ((Translator.init turn.threadId turn.runId summarizationMessageIdPrefix).setOrdinalStart
    (turn.ordinalStart.getD (nextLiveOrdinal turn.priorMessages
      summarizationMessageIdPrefix))).setOrderStart
    (turn.orderStart.getD (nextLiveOrder turn.priorMessages summarizationMessageIdPrefix))

def graphMessages : List BaseMessage :=
  turn.priorMessages ++ [.human ⟨some turn.userId, .str (turn.text rt), []⟩]

def opened : World :=
  ((emitUserMessage rt turn.userId (turn.text rt) turn.attachments).code.block
    (World.start turn.translator)).1

def replayed : List Frame :=
  (replayHistory rt turn.threadId (turn.graphMessages rt) none summarizationMessageIdPrefix).frames

/-- The first block of a turn puts its user row on the stream, whatever the run brings. -/
theorem opened_of_step (hordinal : turn.ordinalStart = none) (horder : turn.orderStart = none)
    (stream : RunStream) :
    ((translateTurn rt turn.threadId turn.runId turn.priorMessages turn.userId (turn.text rt)
      turn.attachments stream).step (.run 1)).map (fun r => r.2.state) = some (turn.opened rt) := by
  rw [opened, translator, hordinal, horder]
  rfl

theorem opened_frames :
    (turn.opened rt).frames =
      [upsertFrame .message turn.userId
        (userRow turn.threadId turn.userId turn.translator.ordinal turn.translator.orderSeq
          (rt.clockMs 0) (turn.text rt) turn.attachments) (some turn.userId)] := rfl

end UserTurn

def keptFields : List String := ["id", "role", "text", "ordinal", "order", "attachments"]

/-- The user row of the turn has its fields after any later rows and the replay of the messages
given to the graph. -/
def UserTurn.Survives (rt : Runtime) (turn : UserTurn) (before later : List Frame) : Prop :=
  ∃ row row',
    (collection .message (before ++ (turn.opened rt).frames)).get turn.userId = some row ∧
      (collection .message
        (before ++ (turn.opened rt).frames ++ later ++ turn.replayed rt)).get turn.userId =
          some row' ∧
        ∀ field ∈ keptFields, row'.get field = row.get field

theorem get_collection_append_replay {rt : Runtime} {threadId summaryPrefix key : String}
    {messages : List BaseMessage} {row : Row} (log : List Frame)
    (h : (replayMessages rt threadId summaryPrefix messages).row .message key = some row) :
    (collection .message
      (log ++ (replayHistory rt threadId messages none summaryPrefix).frames)).get key =
        some row := by
  rw [collection, List.filter_append, List.map_append, LastWriter.get_collect_append]
  · have hreplay : (collection .message
        (replayHistory rt threadId messages none summaryPrefix).frames).get key = some row :=
      (get_collection_replayHistory key none).trans h
    rw [collection] at hreplay
    rw [hreplay]
    rfl
  · intro write hwrite
    obtain ⟨f, hf, rfl⟩ := List.mem_map.mp hwrite
    cases replayed_of_mem none f (List.mem_filter.mp hf).1 with
    | _ => rfl

variable {rt : Runtime} {turn : UserTurn}

variable (rt) in
theorem UserTurn.row_replayed
    (hrenders : rendersId summarizationMessageIdPrefix (some turn.userId)) :
    (replayMessages rt turn.threadId summarizationMessageIdPrefix
      (turn.graphMessages rt)).row .message turn.userId =
        some (humanRow rt turn.threadId turn.userId ⟨some turn.userId, .str (turn.text rt), []⟩
          (replayMessages rt turn.threadId summarizationMessageIdPrefix turn.priorMessages)) := by
  rw [graphMessages, replayMessages, List.foldl_append, List.foldl_cons, List.foldl_nil,
    replayMessage, if_pos hrenders, ReplayState.row_putMessage, if_pos ⟨rfl, rfl⟩]
  rfl

variable (rt) in
/-- The two rows of a user message share text and role; their places are those of the counters,
and the attachments are the first one's alone. -/
theorem keptFields_agree_iff {threadId id text : String} {ordinal order createdAt : ℤ}
    {attachments : List PyValue} {st : ReplayState} :
    (∀ field ∈ keptFields, (humanRow rt threadId id ⟨some id, .str text, []⟩ st).get field =
        (userRow threadId id ordinal order createdAt text attachments).get field) ↔
      attachments = [] ∧ (st.ordinal : ℤ) = ordinal ∧ (st.order : ℤ) = order := by
  cases attachments with
  | nil =>
      simp [keptFields, humanRow, userRow, humanCreatedAt, contentText, OrderedDict.ofEntries,
        OrderedDict.get_set, OrderedDict.get_setSome, Entries.get, PyValue.nonemptyStr]
  | cons a attachments =>
      simp [keptFields, humanRow, userRow, humanCreatedAt, contentText, OrderedDict.ofEntries,
        OrderedDict.get_set, OrderedDict.get_setSome, Entries.get, PyValue.nonemptyStr]

theorem UserTurn.survives_iff_counters
    (hrenders : rendersId summarizationMessageIdPrefix (some turn.userId))
    (before later : List Frame) :
    turn.Survives rt before later ↔ turn.attachments = [] ∧
      ((replayMessages rt turn.threadId summarizationMessageIdPrefix
          turn.priorMessages).ordinal : ℤ) = turn.translator.ordinal ∧
        ((replayMessages rt turn.threadId summarizationMessageIdPrefix
          turn.priorMessages).order : ℤ) = turn.translator.orderSeq := by
  have hfirst : (collection .message (before ++ (turn.opened rt).frames)).get turn.userId =
      some (userRow turn.threadId turn.userId turn.translator.ordinal turn.translator.orderSeq
        (rt.clockMs 0) (turn.text rt) turn.attachments) := by
    rw [turn.opened_frames, collection, List.filter_append, List.map_append]
    exact (LastWriter.get_collect_concat _ _ _).trans (if_pos rfl)
  have hlast := get_collection_append_replay (before ++ (turn.opened rt).frames ++ later)
    (UserTurn.row_replayed rt hrenders)
  rw [← keptFields_agree_iff rt]
  constructor
  · rintro ⟨row, row', hrow, hrow', hkept⟩
    rw [hfirst] at hrow
    rw [UserTurn.replayed, hlast] at hrow'
    cases hrow
    cases hrow'
    exact hkept
  · exact fun hkept => ⟨_, _, hfirst, hlast, hkept⟩

/-- The user row survives the replay if and only if it has no attachments and no message of the
history that the replay skips carries a call. -/
theorem user_row_survives_iff (rt : Runtime) (turn : UserTurn)
    (hstart : turn.ordinalStart = none ∧ turn.orderStart = none)
    (hrenders : rendersId summarizationMessageIdPrefix (some turn.userId))
    (before later : List Frame) :
    turn.Survives rt before later ↔
      turn.attachments = [] ∧ ∀ m ∈ turn.priorMessages,
        carriesOrdinal summarizationMessageIdPrefix m = false → keyedCalls m = 0 := by
  have hordinal : turn.translator.ordinal =
      (replayMessages rt turn.threadId summarizationMessageIdPrefix
        turn.priorMessages).ordinal := by
    rw [replayMessages_ordinal]
    simp [UserTurn.translator, hstart.1, Translator.setOrdinalStart, Translator.setOrderStart]
  have horder : turn.translator.orderSeq =
      nextLiveOrder turn.priorMessages summarizationMessageIdPrefix := by
    simp [UserTurn.translator, hstart.2, Translator.setOrderStart]
  have hcount := nextLiveOrder_eq rt turn.threadId summarizationMessageIdPrefix turn.priorMessages
  rw [UserTurn.survives_iff_counters hrenders, ← sum_skippedCalls_eq_zero, hordinal, horder]
  constructor
  · rintro ⟨hnone, -, heq⟩
    exact ⟨hnone, by omega⟩
  · rintro ⟨hnone, hzero⟩
    exact ⟨hnone, rfl, by omega⟩

def followUp (attachments : List PyValue) : UserTurn where
  threadId := "t"
  runId := "r"
  userMessage := .text "and this?"
  priorMessages := earlierTurn
  userMessageId := some "u1"
  uuid := ""
  attachments := attachments
  ordinalStart := none
  orderStart := none

theorem user_row_survives_iff_followUp :
    ((followUp []).opened plainRuntime).frames.map Frame.order = [some 3] ∧
      ((followUp []).Survives plainRuntime [] [] ↔
        (followUp []).attachments = [] ∧ ∀ m ∈ (followUp []).priorMessages,
          carriesOrdinal summarizationMessageIdPrefix m = false → keyedCalls m = 0) :=
  ⟨rfl, user_row_survives_iff plainRuntime (followUp []) ⟨rfl, rfl⟩ (by decide) [] []⟩

/-- The chip of a file is lost, since the message handed to the graph does not carry it. -/
theorem not_user_row_survives :
    ¬ ∀ (rt : Runtime) (turn : UserTurn) (before later : List Frame),
      turn.ordinalStart = none ∧ turn.orderStart = none →
      rendersId summarizationMessageIdPrefix (some turn.userId) →
      turn.userId ∉ turn.priorMessages.flatMap (slotKeys summarizationMessageIdPrefix) →
      turn.Survives rt before later := by
  intro h
  have hrenders : rendersId summarizationMessageIdPrefix
      (some (followUp [.dict [("name", .str "notes.txt")]]).userId) := by decide
  have hsurvives := h plainRuntime (followUp [.dict [("name", .str "notes.txt")]]) [] []
    ⟨rfl, rfl⟩ hrenders (by decide)
  have hnone := ((UserTurn.survives_iff_counters hrenders [] []).mp hsurvives).1
  cases hnone

/-! ## What the graph is given -/

def isTextBlock : PyValue → Bool
  | .str _ => true
  | .dict entries => (Entries.get entries "type").isStr "text"
  | _ => false

theorem messageText_filter (rt : Runtime) (blocks : List PyValue) :
    messageText rt (.list (blocks.filter isTextBlock)) = messageText rt (.list blocks) := by
  simp only [messageText, contentText]
  induction blocks with
  | nil => rfl
  | cons block blocks ih =>
      rw [List.map_cons, String.join_cons, ← ih]
      cases hblock : isTextBlock block with
      | true => rw [List.filter_cons_of_pos hblock, List.map_cons, String.join_cons]
      | false =>
          rw [List.filter_cons_of_neg (by simp [hblock])]
          cases block with
          | str text => cases hblock
          | dict entries =>
              change (Entries.get entries "type").isStr "text" = false at hblock
              simp only [hblock, Bool.false_eq_true, if_false, String.empty_append]
          | _ => exact (String.empty_append).symm

namespace UserTurn

/-- The graph is given the earlier messages, and then `last` with the content of the message of
the turn, under the id the turn has put its row on the stream with. -/
structure Gives (rt : Runtime) (turn : UserTurn) (human last : HumanMessage) : Prop where
  messages : turn.graphMessages rt = turn.priorMessages ++ [.human last]
  content : last.content = human.content
  row : (turn.opened rt).frames.map (fun f => (f.type, some f.key)) = [(.message, last.id)]

theorem graphMessages_filter {id : Option String} {blocks : List PyValue} {kwargs : Entries}
    (h : turn.userMessage = .message ⟨id, .list blocks, kwargs⟩) :
    ({ turn with
      userMessage := .message ⟨id, .list (blocks.filter isTextBlock), kwargs⟩ }).graphMessages rt =
        turn.graphMessages rt := by
  have htext : turn.text rt = messageText rt (.list blocks) := by rw [text, h]
  have hid : turn.userMessage.id = id := by rw [h]; rfl
  rw [graphMessages, graphMessages, htext, ← messageText_filter rt blocks, userId, userId, hid]
  rfl

end UserTurn

/-- The graph is given the message of the turn if and only if its content is a string. -/
theorem message_given_iff (rt : Runtime) (turn : UserTurn) {human : HumanMessage}
    (h : turn.userMessage = .message human) :
    (∃ last, turn.Gives rt human last) ↔ ∃ text, human.content = .str text := by
  have htext : turn.text rt = messageText rt human.content := by rw [UserTurn.text, h]
  constructor
  · rintro ⟨last, hmessages, hcontent, -⟩
    rw [UserTurn.graphMessages, List.append_cancel_left_eq, List.singleton_inj,
      BaseMessage.human.injEq] at hmessages
    exact ⟨turn.text rt, by rw [← hcontent, ← hmessages]⟩
  · rintro ⟨text, hcontent⟩
    refine ⟨_, rfl, ?_, ?_⟩
    · rw [htext, hcontent]
      rfl
    · rw [turn.opened_frames]
      rfl

def asking (content : PyValue) : UserTurn :=
  { followUp [] with userMessage := .message ⟨none, content, []⟩ }

theorem message_given_iff_asking :
    (∃ last, (asking (.str "and this?")).Gives plainRuntime ⟨none, .str "and this?", []⟩ last) ↔
      ∃ text, PyValue.str "and this?" = .str text :=
  message_given_iff plainRuntime (asking (.str "and this?")) rfl

def pictured : PyValue :=
  .list [.dict [("type", .str "text"), ("text", .str "and this?")],
    .dict [("type", .str "image_url"), ("image_url", .dict [("url", .str "data:image/png")])]]

theorem not_message_given :
    ¬ ∀ (rt : Runtime) (turn : UserTurn) (human : HumanMessage),
      turn.userMessage = .message human →
      ((∃ text, human.content = .str text) ∨ ∃ blocks, human.content = .list blocks) →
      ∃ last, turn.Gives rt human last := by
  intro h
  obtain ⟨last, hmessages, hcontent, -⟩ :=
    h plainRuntime (asking pictured) ⟨none, pictured, []⟩ rfl (.inr ⟨_, rfl⟩)
  rw [UserTurn.graphMessages, List.append_cancel_left_eq, List.singleton_inj,
    BaseMessage.human.injEq] at hmessages
  rw [← hmessages] at hcontent
  cases hcontent

end StreamDB
