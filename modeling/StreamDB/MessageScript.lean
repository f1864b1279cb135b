import StreamDB.ChunkRows
import StreamDB.ScriptedDrain

/-!
# The script of a message

The stream of a message is read to its end, or to a delta that cannot be appended, or until it
breaks. Up to there it gives the chunks of the whole stream; `speechScript` says so with what a
row of the message means to the owner of the log, who may be interested in another one.
-/

namespace StreamDB

open Coroutine

/-! ## One stream -/

/-- The exception that ends the stream of a message. -/
def eventsFailure (error : Option PyException) : List Entries → Option PyException
  | [] => error
  | event :: events =>
      match readDelta event with
      | .invalid => some typeError
      | _ => eventsFailure error events

/-- The chunks that are emitted before the stream fails. -/
def sentChunks (error : Option PyException) : List Entries → TextBuffer → TextBuffer → List Chunk
  | [], text, reasoning =>
      match error with
      | none => reasoning.tail .reasoning ++ text.tail .text
      | some _ => []
  | event :: events, text, reasoning =>
      match readDelta event with
      | .ignored => sentChunks error events text reasoning
      | .invalid => []
      | .token .reasoning token =>
          let reasoning := reasoning.append token
          if reasoning.length - reasoning.flushed ≥ reasoningFlushChars then
            reasoning.chunk .reasoning :: sentChunks error events text reasoning.flush
          else sentChunks error events text reasoning
      | .token .text token =>
          let text := text.append token
          if text.length - text.flushed ≥ chunkFlushChars then
            text.chunk .text :: sentChunks error events text.flush reasoning
          else sentChunks error events text reasoning

variable {error : Option PyException} {events : List Entries} {text reasoning : TextBuffer}

/-- What is sent is the beginning of the chunks of all events, and all of them if nothing fails. -/
theorem sentChunks_chunks :
    sentChunks error events text reasoning <+: chunks events text reasoning ∧
      (eventsFailure error events = none →
        sentChunks error events text reasoning = chunks events text reasoning) := by
  induction events generalizing text reasoning with
  | nil =>
      cases error with
      | none => exact ⟨List.prefix_rfl, fun _ => rfl⟩
      | some exc => exact ⟨List.nil_prefix, fun h => by cases h⟩
  | cons event events ih =>
      cases hd : readDelta event with
      | ignored =>
          simp only [sentChunks, chunks, eventsFailure, hd]
          exact ih
      | invalid =>
          simp only [sentChunks, chunks, eventsFailure, hd]
          exact ⟨List.nil_prefix, fun h => by cases h⟩
      | token channel token =>
          cases channel with
          | reasoning =>
              simp only [sentChunks, chunks, eventsFailure, hd]
              split_ifs
              · exact ⟨(List.prefix_cons_inj _).mpr ih.1, fun h => congrArg _ (ih.2 h)⟩
              · exact ih
          | text =>
              simp only [sentChunks, chunks, eventsFailure, hd]
              split_ifs
              · exact ⟨(List.prefix_cons_inj _).mpr ih.1, fun h => congrArg _ (ih.2 h)⟩
              · exact ih

namespace ModelMessage

variable (m : ModelMessage)

def failure : Option PyException := eventsFailure m.events.error m.events.items

def sent : List Chunk := sentChunks m.events.error m.events.items .empty .empty

theorem prefix_streamChunks : m.sent <+: streamChunks m.events.items := sentChunks_chunks.1

theorem sent_eq {m : ModelMessage} (h : m.failure = none) : m.sent = streamChunks m.events.items :=
  sentChunks_chunks.2 h

end ModelMessage

variable {μ : Type}

/-- A message in a log where its anchor and its chunks stand for what is given. -/
def speechScript (anchor : Script μ PyException) (emit : Chunk → Script μ PyException)
    (m : ModelMessage) : Script μ PyException :=
  anchor.andThen ((Script.forEach emit m.sent).andThen ⟨[], m.failure⟩)

/-- To the owner of other rows a message is nothing but its failure. -/
theorem speechScript_done (m : ModelMessage) :
    (speechScript .done (fun _ => .done) m : Script μ PyException) = ⟨[], m.failure⟩ := by
  have hdone : ∀ cs : List Chunk, Script.forEach (fun _ => (.done : Script μ PyException)) cs =
      .done := by
    intro cs
    induction cs with
    | nil => rfl
    | cons c cs ih =>
        rw [Script.forEach, ih]
        rfl
  rw [speechScript, hdone]
  rfl

/-! ## The drains -/

namespace ScriptedDrain

variable {π : Type} {O : Ownership TaskName World PyException π} {E : Setting}
  {shows : List μ → π → Prop} {whole : Script μ PyException} {msgId : String}
  {agentId : Option String} {anchor : Script μ PyException} {emit : Chunk → Script μ PyException}

theorem performs_landTail
    (hemit : ∀ chunk : Chunk, Script.Performs O shows whole
      (emitMessageChunk msgId chunk.channel chunk.seq chunk.text agentId) (emit chunk))
    (channel : ChunkChannel) (b : TextBuffer) :
    Script.Performs O shows whole (landTail msgId channel b agentId)
      (Script.forEach emit (b.tail channel)) := by
  rw [landTail, TextBuffer.tail]
  split_ifs
  · rw [Script.forEach, Script.forEach, Script.andThen_done]
    exact hemit (b.chunk channel)
  · exact Script.performs_pure

variable (D : ScriptedDrain O E shows whole)

include D

theorem performs_captureText (msgId text : String) (agentId : Option String) :
    Script.Performs O shows whole (captureText msgId text agentId) .done := by
  rw [captureText]
  split_ifs
  · exact D.performs_atomically (fun _ => ⟨rfl, rfl, rfl⟩) fun _ => rfl
  · exact Script.performs_pure

/-- The loop emits what can be sent, and ends with the failure of the stream. -/
theorem performs_streamDeltas
    (hemit : ∀ chunk : Chunk, Script.Performs O shows whole
      (emitMessageChunk msgId chunk.channel chunk.seq chunk.text agentId) (emit chunk))
    (error : Option PyException) (events : List Entries) (text reasoning : TextBuffer) :
    Script.Performs O shows whole (streamDeltas msgId agentId error events text reasoning)
      ((Script.forEach emit (sentChunks error events text reasoning)).andThen
        ⟨[], eventsFailure error events⟩) := by
  induction events generalizing text reasoning with
  | nil =>
      cases error with
      | some exc => exact Script.performs_raise D.logs exc
      | none =>
          rw [eventsFailure, sentChunks, Script.forEach_append]
          change Script.Performs _ _ _ _ (Script.andThen _ Script.done)
          rw [Script.andThen_done]
          exact Script.performs_bind (performs_landTail hemit .reasoning reasoning)
            (performs_landTail hemit .text text)
  | cons event events ih =>
      refine D.performs_suspend_bind ?_
      cases hd : readDelta event with
      | ignored =>
          simp only [sentChunks, eventsFailure, hd]
          exact ih text reasoning
      | invalid =>
          simp only [sentChunks, eventsFailure, hd]
          exact Script.performs_raise D.logs typeError
      | token channel token =>
          cases channel with
          | reasoning =>
              simp only [sentChunks, eventsFailure, hd]
              split_ifs
              · rw [Script.forEach, Script.andThen_assoc]
                exact Script.performs_bind (hemit ((reasoning.append token).chunk .reasoning))
                  (ih text (reasoning.append token).flush)
              · exact ih text (reasoning.append token)
          | text =>
              simp only [sentChunks, eventsFailure, hd]
              refine Script.performs_done_bind (D.performs_captureText _ _ _) ?_
              split_ifs
              · rw [Script.forEach, Script.andThen_assoc]
                exact Script.performs_bind (hemit ((text.append token).chunk .text))
                  (ih (text.append token).flush reasoning)
              · exact ih (text.append token) reasoning

omit D

variable (O shows whole) in
/-- What the rows of a message stand for, whatever id it gets. -/
structure Voices (rt : Runtime) (tag : String) (agentId : Option String) (m : ModelMessage)
    (anchor : Script μ PyException) (emit : Chunk → Script μ PyException) : Prop where
  anchor : ∀ msgId, ResolvesTo rt tag m.messageId msgId → ∀ ordinal createdAt,
    Script.Performs O shows whole (upsertMessage msgId ordinal createdAt agentId) anchor
  chunk : ∀ msgId, ResolvesTo rt tag m.messageId msgId → ∀ chunk : Chunk,
    Script.Performs O shows whole
      (emitMessageChunk msgId chunk.channel chunk.seq chunk.text agentId) (emit chunk)

include D

variable {rt : Runtime} {tag : String} {m : ModelMessage}

theorem performs_speech (h : Voices O shows whole rt tag agentId m anchor emit)
    (hid : ResolvesTo rt tag m.messageId msgId) (ordinal createdAt : ℤ) :
    Script.Performs O shows whole (do
      upsertMessage msgId ordinal createdAt agentId
      streamMessageText m msgId agentId) (speechScript anchor emit m) :=
  Script.performs_bind (h.anchor msgId hid ordinal createdAt)
    (D.performs_streamDeltas (h.chunk msgId hid) _ _ _ _)

theorem performs_consumeMessage (h : Voices O shows whole rt "msg_" none m anchor emit) :
    Script.Performs O shows whole (consumeMessage rt m) (speechScript anchor emit m) := by
  refine D.performs_idOr_bind fun msgId hid => ?_
  refine D.performs_atomically_bind (fun _ => ⟨rfl, rfl, rfl⟩) (fun _ => rfl) fun _ _ => ?_
  refine D.performs_nowMs_bind fun createdAt => ?_
  refine Script.performs_done_bind ?_ (D.performs_speech h hid _ createdAt)
  exact D.performs_atomically (fun _ => ⟨rfl, rfl, rfl⟩) fun _ => rfl

theorem performs_streamMessage (h : Voices O shows whole rt "msg_" none m anchor emit) :
    Script.Performs O shows whole (streamMessage rt m)
      (if rendersMessage E.summaryPrefix m then speechScript anchor emit m else .done) := by
  refine D.performs_readSelf_bind fun t _ ht => ?_
  rw [ht]
  exact Script.performs_ite (fun _ => D.performs_consumeMessage h) Script.performs_pure

theorem performs_drainSubagentMessage
    (h : Voices O shows whole rt "submsg_" (some tag) m anchor emit) (subagentId : String) :
    Script.Performs O shows whole (drainSubagentMessage rt subagentId tag m)
      (if m.node = some modelNode then speechScript anchor emit m else .done) := by
  refine Script.performs_ite (fun _ => ?_) Script.performs_pure
  refine D.performs_idOr_bind fun msgId hid => ?_
  refine D.performs_atomically_bind (fun w => ?_) (fun _ => rfl) fun _ _ => ?_
  · cases hk : (w.self.msgOrdinals subagentId).get msgId with
    | some existing =>
        simp only [Translator.nextSubagentOrdinal, hk]
        exact ⟨trivial, trivial, rfl⟩
    | none =>
        simp only [Translator.nextSubagentOrdinal, hk]
        exact ⟨trivial, trivial, rfl⟩
  · exact D.performs_nowMs_bind fun createdAt => D.performs_speech h hid _ createdAt

end ScriptedDrain

end StreamDB
