import StreamDB.Translator

/-!
# The messages drain

Each model message gets an anchor row and then chunk rows that carry only the new characters of
its text and of its reasoning. One message is consumed to its end before the next is taken.
-/

namespace StreamDB

open Coroutine

def modelNode : String := "model"

def reasoningFlushChars : ℕ := 24

def chunkFlushChars : ℕ := 80

/-- `agent_id` as a field of a message or chunk row, where an empty one is left out. -/
def agentField (agentId : Option String) : Option PyValue :=
  if agentId.getD "" = "" then none else agentId.map .str

def messageRow (threadId msgId : String) (ordinal order createdAt : ℤ)
    (agentId : Option String) : Row :=
  (OrderedDict.ofEntries
    [("id", .str msgId), ("threadId", .str threadId), ("role", .str "assistant"),
      ("ordinal", .int ordinal), ("order", .int order), ("createdAt", .int createdAt),
      ("text", .str "")]).setSome "agentId" (agentField agentId)

theorem messageRow_id (threadId msgId : String) (ordinal order createdAt : ℤ)
    (agentId : Option String) :
    (messageRow threadId msgId ordinal order createdAt agentId).get "id" = some (.str msgId) := by
  simp [messageRow, OrderedDict.ofEntries, OrderedDict.get_set, OrderedDict.get_setSome]

theorem messageRow_role (threadId msgId : String) (ordinal order createdAt : ℤ)
    (agentId : Option String) :
    (messageRow threadId msgId ordinal order createdAt agentId).get "role" =
      some (.str "assistant") := by
  simp [messageRow, OrderedDict.ofEntries, OrderedDict.get_set, OrderedDict.get_setSome]

theorem messageRow_order (threadId msgId : String) (ordinal order createdAt : ℤ)
    (agentId : Option String) :
    (messageRow threadId msgId ordinal order createdAt agentId).get "order" =
      some (.int order) := by
  simp [messageRow, OrderedDict.ofEntries, OrderedDict.get_set, OrderedDict.get_setSome]

theorem messageRow_ordinal (threadId msgId : String) (ordinal order createdAt : ℤ)
    (agentId : Option String) :
    (messageRow threadId msgId ordinal order createdAt agentId).get "ordinal" =
      some (.int ordinal) := by
  simp [messageRow, OrderedDict.ofEntries, OrderedDict.get_set, OrderedDict.get_setSome]

theorem messageRow_agentId (threadId msgId : String) (ordinal order createdAt : ℤ)
    (agentId : Option String) :
    (messageRow threadId msgId ordinal order createdAt agentId).get "agentId" =
      agentField agentId := by
  simp [messageRow, OrderedDict.ofEntries, OrderedDict.get_set, OrderedDict.get_setSome]

def upsertMessage (msgId : String) (ordinal createdAt : ℤ) (agentId : Option String) :
    Task Unit := do
  let order ← onSelf (Translator.renderOrder msgId)
  let t ← readSelf
  upsert .message msgId (messageRow t.threadId msgId ordinal order createdAt agentId) none

inductive ChunkChannel where
  | text
  | reasoning
  deriving DecidableEq

def chunkId (msgId : String) (channel : ChunkChannel) (seq : ℕ) : String :=
  match channel with
  | .text => msgId ++ ":" ++ toString seq
  | .reasoning => msgId ++ ":r:" ++ toString seq

def chunkRow (threadId msgId : String) (channel : ChunkChannel) (seq : ℕ) (text : String)
    (agentId : Option String) : Row :=
  ((OrderedDict.ofEntries
    [("id", .str (chunkId msgId channel seq)), ("messageId", .str msgId),
      ("threadId", .str threadId), ("seq", .int seq), ("text", .str text)]).setSome
      "channel" (if channel = .reasoning then some (.str "reasoning") else none)).setSome
    "agentId" (agentField agentId)

theorem chunkRow_id (threadId msgId : String) (channel : ChunkChannel) (seq : ℕ)
    (text : String) (agentId : Option String) :
    (chunkRow threadId msgId channel seq text agentId).get "id" =
      some (.str (chunkId msgId channel seq)) := by
  simp [chunkRow, OrderedDict.ofEntries, OrderedDict.get_set, OrderedDict.get_setSome]

theorem chunkRow_messageId (threadId msgId : String) (channel : ChunkChannel) (seq : ℕ)
    (text : String) (agentId : Option String) :
    (chunkRow threadId msgId channel seq text agentId).get "messageId" = some (.str msgId) := by
  simp [chunkRow, OrderedDict.ofEntries, OrderedDict.get_set, OrderedDict.get_setSome]

theorem chunkRow_channel (threadId msgId : String) (channel : ChunkChannel) (seq : ℕ)
    (text : String) (agentId : Option String) :
    (chunkRow threadId msgId channel seq text agentId).get "channel" =
      if channel = .reasoning then some (.str "reasoning") else none := by
  simp [chunkRow, OrderedDict.ofEntries, OrderedDict.get_set, OrderedDict.get_setSome]

def emitMessageChunk (msgId : String) (channel : ChunkChannel) (seq : ℕ) (text : String)
    (agentId : Option String) : Task Unit := do
  let t ← readSelf
  upsert .messageChunk (chunkId msgId channel seq)
    (chunkRow t.threadId msgId channel seq text agentId) none

/-- One channel of a message: everything received, how much of it is on the stream, and the
next chunk's number. -/
structure TextBuffer where
  text : String
  flushed : ℕ
  seq : ℕ

namespace TextBuffer

def empty : TextBuffer := { text := "", flushed := 0, seq := 0 }

def length (b : TextBuffer) : ℕ := b.text.toList.length

def append (b : TextBuffer) (token : String) : TextBuffer := { b with text := b.text ++ token }

def pending (b : TextBuffer) : String := String.ofList (b.text.toList.drop b.flushed)

def flush (b : TextBuffer) : TextBuffer := { b with flushed := b.length, seq := b.seq + 1 }

end TextBuffer

inductive Delta where
  | ignored
  | token (channel : ChunkChannel) (text : String)
  /-- A token that cannot be appended to a string. -/
  | invalid

def deltaToken (channel : ChunkChannel) (token : PyValue) : Delta :=
  match token with
  | .str s => if s = "" then .ignored else .token channel s
  | _ => if token.truthy then .invalid else .ignored

def readDelta (event : Entries) : Delta :=
  if (event.get "event").isStr "content-block-delta" then
    match event.get "delta" with
    | .dict delta =>
        if (Entries.get delta "type").isStr "reasoning-delta" then
          deltaToken .reasoning (Entries.getD delta "reasoning" (.str ""))
        else if (Entries.get delta "type").isStr "text-delta" then
          deltaToken .text (Entries.getD delta "text" (.str ""))
        else .ignored
    | _ => .ignored
  else .ignored

def typeError : PyException := .exception "TypeError"

/-- What is left in a channel when the stream has ended. -/
def landTail (msgId : String) (channel : ChunkChannel) (b : TextBuffer) (agentId : Option String) :
    Task Unit :=
  if b.length > b.flushed then emitMessageChunk msgId channel b.seq b.pending agentId
  else pure ()

def captureText (msgId text : String) (agentId : Option String) : Task Unit :=
  if agentId.isNone then
    updateSelf fun t => { t with emittedTexts := t.emittedTexts.set msgId text }
  else pure ()

/-- The loop of `_stream_message_text` over the remaining events. -/
def streamDeltas (msgId : String) (agentId : Option String) (error : Option PyException) :
    List Entries → TextBuffer → TextBuffer → Task Unit
  | [], text, reasoning =>
      match error with
      | some exc => Proc.raise exc
      | none => do
          landTail msgId .reasoning reasoning agentId
          landTail msgId .text text agentId
  | event :: events, text, reasoning => do
      Proc.suspend
      match readDelta event with
      | .ignored => streamDeltas msgId agentId error events text reasoning
      | .invalid => Proc.raise typeError
      | .token .reasoning token =>
          let reasoning := reasoning.append token
          if reasoning.length - reasoning.flushed ≥ reasoningFlushChars then do
            emitMessageChunk msgId .reasoning reasoning.seq reasoning.pending agentId
            streamDeltas msgId agentId error events text reasoning.flush
          else streamDeltas msgId agentId error events text reasoning
      | .token .text token =>
          let text := text.append token
          do
            captureText msgId text.text agentId
            if text.length - text.flushed ≥ chunkFlushChars then do
              emitMessageChunk msgId .text text.seq text.pending agentId
              streamDeltas msgId agentId error events text.flush reasoning
            else streamDeltas msgId agentId error events text reasoning

def streamMessageText (message : ModelMessage) (msgId : String) (agentId : Option String) :
    Task Unit :=
  streamDeltas msgId agentId message.events.error message.events.items .empty .empty

def consumeMessage (rt : Runtime) (message : ModelMessage) : Task Unit := do
  let msgId ← idOr rt "msg_" message.messageId
  let ordinal ← onSelf (Translator.nextOrdinal msgId)
  let createdAt ← nowMs rt
  updateSelf fun t => { t with emittedTexts := t.emittedTexts.setDefault msgId "" }
  upsertMessage msgId ordinal createdAt none
  streamMessageText message msgId none

/-- A message the drain of `summaryPrefix` renders. -/
def rendersMessage (summaryPrefix : String) (message : ModelMessage) : Bool :=
  message.node = some modelNode && !startsWith (message.messageId.getD "") summaryPrefix

def streamMessage (rt : Runtime) (message : ModelMessage) : Task Unit := do
  let t ← readSelf
  if rendersMessage t.summaryPrefix message then consumeMessage rt message else pure ()

def streamMessages (rt : Runtime) (messages : Feed ModelMessage) : Task Unit :=
  drainProjection .messages (streamMessage rt) messages

def userRow (threadId msgId : String) (ordinal order createdAt : ℤ) (text : String)
    (attachments : List PyValue) : Row :=
  (OrderedDict.ofEntries
    [("id", .str msgId), ("threadId", .str threadId), ("role", .str "user"),
      ("ordinal", .int ordinal), ("order", .int order), ("createdAt", .int createdAt),
      ("text", .str text)]).setSome
    "attachments" (if attachments.isEmpty then none else some (.list attachments))

theorem userRow_id (threadId msgId : String) (ordinal order createdAt : ℤ) (text : String)
    (attachments : List PyValue) :
    (userRow threadId msgId ordinal order createdAt text attachments).get "id" =
      some (.str msgId) := by
  simp [userRow, OrderedDict.ofEntries, OrderedDict.get_set, OrderedDict.get_setSome]

theorem userRow_role (threadId msgId : String) (ordinal order createdAt : ℤ) (text : String)
    (attachments : List PyValue) :
    (userRow threadId msgId ordinal order createdAt text attachments).get "role" =
      some (.str "user") := by
  simp [userRow, OrderedDict.ofEntries, OrderedDict.get_set, OrderedDict.get_setSome]

theorem userRow_order (threadId msgId : String) (ordinal order createdAt : ℤ) (text : String)
    (attachments : List PyValue) :
    (userRow threadId msgId ordinal order createdAt text attachments).get "order" =
      some (.int order) := by
  simp [userRow, OrderedDict.ofEntries, OrderedDict.get_set, OrderedDict.get_setSome]

theorem userRow_ordinal (threadId msgId : String) (ordinal order createdAt : ℤ) (text : String)
    (attachments : List PyValue) :
    (userRow threadId msgId ordinal order createdAt text attachments).get "ordinal" =
      some (.int ordinal) := by
  simp [userRow, OrderedDict.ofEntries, OrderedDict.get_set, OrderedDict.get_setSome]

theorem userRow_agentId (threadId msgId : String) (ordinal order createdAt : ℤ) (text : String)
    (attachments : List PyValue) :
    (userRow threadId msgId ordinal order createdAt text attachments).get "agentId" = none := by
  simp [userRow, OrderedDict.ofEntries, OrderedDict.get_set, OrderedDict.get_setSome]

def emitUserMessage (rt : Runtime) (msgId text : String) (attachments : List PyValue) :
    Task Unit := do
  updateSelf fun t =>
    { t with
      emittedTexts := t.emittedTexts.set msgId text
      userMessageIds := FirstSeen.insertNew t.userMessageIds msgId }
  let t ← readSelf
  let ordinal ← onSelf (Translator.nextOrdinal msgId)
  let order ← onSelf (Translator.renderOrder msgId)
  let createdAt ← nowMs rt
  upsert .message msgId (userRow t.threadId msgId ordinal order createdAt text attachments)
    (some msgId)

end StreamDB
