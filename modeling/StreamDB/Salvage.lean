import StreamDB.ChunkRows
import StreamDB.OwnedChannel

/-!
# The cancel-salvage view

What the messages drain leaves when it has come to its end: the texts it has captured, the ids its
messages went by and their chunk rows. A client that puts the chunks of an id together reads the
captured text unless an earlier stream of the id had more of them.
-/

namespace StreamDB

open Coroutine Coalescing

def MessageStream.text (s : MessageStream) : String := streamText .text s.events

/-- What belongs to the messages drain when no other task has messages. -/
structure SalvageView where
  texts : String → Option String
  ids : List String
  chunks : List Frame

namespace SalvageView

def empty : SalvageView := ⟨fun _ => none, [], []⟩

def ofWorld (w : World) : SalvageView where
  texts := w.self.emittedTexts.get
  ids := (w.frames.filter fun f => f.type = .message).map Frame.key
  chunks := w.frames.filter fun f => f.type = .messageChunk

variable (v : SalvageView)

/-- A message has been announced. -/
def announced (msgId : String) : SalvageView :=
  { v with
    texts := fun k => if msgId = k then some ((v.texts k).getD "") else v.texts k
    ids := v.ids ++ [msgId] }

def captured (msgId text : String) : SalvageView :=
  { v with texts := fun k => if msgId = k then some text else v.texts k }

def emitted (f : Frame) : SalvageView := { v with chunks := v.chunks ++ [f] }

/-- The rest of a stream has come in after the given text. -/
def received (threadId msgId text rest : String) (cs : List Chunk) : SalvageView where
  texts := if rest = "" then v.texts else (v.captured msgId (text ++ rest)).texts
  ids := v.ids
  chunks := v.chunks ++ cs.map (chunkFrame threadId msgId)

def streamed (threadId : String) (s : MessageStream) : SalvageView :=
  (v.announced s.msgId).received threadId s.msgId "" s.text (streamChunks s.events)

theorem received_nil (threadId msgId text : String) : v.received threadId msgId text "" [] = v := by
  simp [received]

theorem received_cons (threadId msgId text rest : String) (c : Chunk) (cs : List Chunk) :
    (v.emitted (chunkFrame threadId msgId c)).received threadId msgId text rest cs =
      v.received threadId msgId text rest (c :: cs) := by
  simp [received, emitted, captured]

theorem received_append (threadId msgId text : String) (cs cs' : List Chunk) :
    (v.received threadId msgId text "" cs).received threadId msgId text "" cs' =
      v.received threadId msgId text "" (cs ++ cs') := by
  simp [received]

theorem received_token {token : String} (h : token ≠ "") (threadId msgId text rest : String)
    (cs : List Chunk) :
    (v.captured msgId (text ++ token)).received threadId msgId (text ++ token) rest cs =
      v.received threadId msgId text (token ++ rest) cs := by
  have hne : token ++ rest ≠ "" := by simp [h]
  rw [received, received, if_neg hne, SalvageView.mk.injEq]
  refine ⟨?_, rfl, rfl⟩
  split_ifs with hrest
  · rw [hrest, String.append_empty]
  · funext k
    by_cases hk : msgId = k
    · simp [captured, hk, String.append_assoc]
    · simp [captured, hk]

end SalvageView

theorem ofWorld_write_chunk {f : Frame} (h : f.type = .messageChunk) (w : World) :
    SalvageView.ofWorld (w.write f) = (SalvageView.ofWorld w).emitted f := by
  simp [SalvageView.ofWorld, SalvageView.emitted, World.write, List.filter_append, h]

theorem ofWorld_write_message {f : Frame} (h : f.type = .message) (w : World) :
    SalvageView.ofWorld (w.write f) =
      { SalvageView.ofWorld w with ids := (SalvageView.ofWorld w).ids ++ [f.key] } := by
  simp [SalvageView.ofWorld, World.write, List.filter_append, h]

/-- The frames of a task without messages. -/
theorem not_message_of_writtenBy {E : Setting} {name : TaskName} {f : Frame}
    (h : E.WrittenBy name f) (hmessage : ∀ m, ¬ E.source name (.message m))
    (huser : ∀ msgId text attachments, ¬ E.source name (.userMessage msgId text attachments)) :
    f.type ≠ .message ∧ f.type ≠ .messageChunk := by
  have hauthor : ∀ agentId msgId, ¬ E.MessageAuthor name agentId msgId := by
    intro agentId msgId author
    cases author with
    | top item _ _ => exact hmessage _ item
    | nested item _ _ _ => exact hmessage _ item
  cases h with
  | user item => exact absurd item (huser _ _ _)
  | anchor author => exact absurd author (hauthor _ _)
  | chunk author => exact absurd author (hauthor _ _)
  | custom _ row =>
      cases row with
      | _ => exact ⟨nofun, nofun⟩
  | _ => exact ⟨nofun, nofun⟩

/-- No task has messages of its own. -/
structure Wordless (source : TaskName → Item → Prop) : Prop where
  message : ∀ name m, ¬ source name (.message m)
  userMessage : ∀ name msgId text attachments,
    ¬ source name (.userMessage msgId text attachments)

theorem ofWorld_of_advances {E : Setting} (hwordless : Wordless E.source) {name : TaskName}
    {w w' : World} (h : E.Advances name w w') : SalvageView.ofWorld w' = SalvageView.ofWorld w := by
  obtain ⟨frames, hframes, hrows⟩ := h.rows
  have hnone : ∀ f ∈ frames, f.type ≠ .message ∧ f.type ≠ .messageChunk := fun f hf =>
    not_message_of_writtenBy (hrows f hf) (hwordless.message name) (hwordless.userMessage name)
  have htexts : w'.self.emittedTexts = w.self.emittedTexts := by
    refine h.texts.resolve_right fun hcaptures => ?_
    rcases hcaptures.2 with ⟨m, hm⟩ | ⟨msgId, text, attachments, hm⟩
    · exact hwordless.message _ _ hm
    · exact hwordless.userMessage _ _ _ _ hm
  have hfilter : ∀ type, (type = .message ∨ type = .messageChunk) →
      w'.frames.filter (fun f => f.type = type) = w.frames.filter fun f => f.type = type := by
    intro type htype
    rw [hframes, List.filter_append, List.append_right_eq_self, List.filter_eq_nil_iff]
    intro f hf heq
    rcases htype with rfl | rfl
    · exact (hnone f hf).1 (of_decide_eq_true heq)
    · exact (hnone f hf).2 (of_decide_eq_true heq)
  rw [SalvageView.ofWorld, SalvageView.ofWorld, htexts, hfilter _ (.inl rfl),
    hfilter _ (.inr rfl)]

/-- The messages drain owns the view when the others have no messages. -/
def salvageOwnership (E : Setting) (hallowed : ∀ name w, E.allowed name w)
    (hwordless : Wordless E.source) (final : SalvageView → Prop) :
    Ownership TaskName World PyException SalvageView where
  env := E.rowProtocol
  part := SalvageView.ofWorld
  mid _ := True
  ends exc v := exc = none → final v
  anytime := hallowed
  anyhow _ _ := trivial
  others _ _ _ h := ofWorld_of_advances hwordless h

section Drain

variable {E : Setting} {hallowed : ∀ name w, E.allowed name w} {hwordless : Wordless E.source}
  {final : SalvageView → Prop} {v : SalvageView}

/-- The drain's program takes the view from one value to another. -/
abbrev Turns (E : Setting) (hallowed : ∀ name w, E.allowed name w) (hwordless : Wordless E.source)
    (final : SalvageView → Prop) {α : Type} (v : SalvageView) (p : Task α) (v' : SalvageView) :
    Prop :=
  Runs (salvageOwnership E hallowed hwordless final)
    (Holds (salvageOwnership E hallowed hwordless final) v) p
    fun _ => Holds (salvageOwnership E hallowed hwordless final) v'

theorem turns_silent {α : Type} {f : World → α × World}
    (hself : ∀ w, (f w).2.self.threadId = w.self.threadId ∧
      (f w).2.self.summaryPrefix = w.self.summaryPrefix ∧
      (f w).2.self.linkView = w.self.linkView)
    (htexts : ∀ w, (f w).2.self.emittedTexts = w.self.emittedTexts)
    (hframes : ∀ w, (f w).2.frames = w.frames) :
    Turns E hallowed hwordless final v (Proc.atomically f) v := by
  apply runs_atomically_of (E := E) rfl hself
  intro w hw
  rw [← hw]
  change SalvageView.ofWorld _ = SalvageView.ofWorld _
  rw [SalvageView.ofWorld, SalvageView.ofWorld, htexts, hframes]

theorem turns_emitMessageChunk (msgId : String) (c : Chunk) :
    Turns E hallowed hwordless final v
      (emitMessageChunk msgId c.channel c.seq c.text none)
      (v.emitted (chunkFrame E.threadId msgId c)) := by
  apply runs_readSelf_bind (E := E) rfl
  intro t ht _
  rw [ht]
  refine runs_upsert (E := E) rfl ?_ trivial
  rintro w rfl
  exact ofWorld_write_chunk rfl w

theorem turns_landTail (msgId : String) (channel : ChunkChannel) (b : TextBuffer) :
    Turns E hallowed hwordless final v (landTail msgId channel b none)
      (v.received E.threadId msgId "" "" (b.tail channel)) := by
  rw [landTail, TextBuffer.tail]
  split_ifs
  · rw [← SalvageView.received_cons, SalvageView.received_nil]
    exact turns_emitMessageChunk msgId (b.chunk channel)
  · rw [SalvageView.received_nil]
    exact runs_pure fun _ h => h

theorem turns_captureText (msgId text : String) :
    Turns E hallowed hwordless final v (captureText msgId text none) (v.captured msgId text) := by
  apply runs_atomically_of (E := E) rfl fun _ => ⟨rfl, rfl, rfl⟩
  rintro w rfl
  change SalvageView.ofWorld _ = SalvageView.captured (SalvageView.ofWorld w) msgId text
  rw [SalvageView.ofWorld, SalvageView.captured, SalvageView.mk.injEq]
  refine ⟨?_, rfl, rfl⟩
  funext k
  exact OrderedDict.get_set _ _ _ _

/-- A stream that is read to its end has been captured and chunked. -/
theorem turns_streamDeltas (msgId : String) (error : Option PyException) (events : List Entries)
    (text reasoning : TextBuffer) :
    Turns E hallowed hwordless final v (streamDeltas msgId none error events text reasoning)
      (v.received E.threadId msgId text.text (streamText .text events)
        (chunks events text reasoning)) := by
  induction events generalizing v text reasoning with
  | nil =>
      cases error with
      | some exc => exact runs_raise trivial (by rintro ⟨⟩)
      | none =>
          have hrest : streamText .text [] = "" := rfl
          rw [hrest, chunks, ← SalvageView.received_append]
          exact runs_bind (turns_landTail msgId .reasoning reasoning) fun _ =>
            turns_landTail msgId .text text
  | cons event events ih =>
      refine runs_bind (runs_suspend trivial) fun _ => ?_
      cases hd : readDelta event with
      | ignored =>
          rw [streamText, tokens_skip (by rw [hd]; rfl)]
          simp only [chunks, hd]
          exact ih text reasoning
      | invalid => exact runs_raise trivial (by rintro ⟨⟩)
      | token channel token =>
          cases channel with
          | reasoning =>
              rw [streamText, tokens_skip (by rw [hd]; rfl)]
              simp only [chunks, hd]
              split_ifs
              · rw [← SalvageView.received_cons]
                exact runs_bind (turns_emitMessageChunk msgId
                  ((reasoning.append token).chunk .reasoning)) fun _ => ih _ _
              · exact ih _ _
          | text =>
              have htoken : (readDelta event).tokenOf .text = some token := by rw [hd]; rfl
              have hmem : token ∈ tokens .text [event] := by
                rw [tokens_token htoken]
                exact List.mem_cons_self
              have hne : token ≠ "" := tokens_ne_empty token hmem
              rw [streamText, tokens_token htoken, String.join_cons]
              simp only [chunks, hd]
              refine runs_bind (turns_captureText msgId (text.append token).text) fun _ => ?_
              change Runs _ (Holds _ (v.captured msgId (text.text ++ token))) _ _
              rw [← SalvageView.received_token v hne]
              split_ifs
              · rw [← SalvageView.received_cons]
                exact runs_bind (turns_emitMessageChunk msgId ((text.append token).chunk .text))
                  fun _ => ih _ _
              · exact ih _ _

theorem turns_idOr_bind {rt : Runtime} {tag : String} {value : Option String}
    {f : String → Task Unit} {post : Unit → World → Prop}
    (hf : ∀ id, ResolvesTo rt tag value id →
      Runs (salvageOwnership E hallowed hwordless final)
        (Holds (salvageOwnership E hallowed hwordless final) v) (f id) post) :
    Runs (salvageOwnership E hallowed hwordless final)
      (Holds (salvageOwnership E hallowed hwordless final) v) (idOr rt tag value >>= f) post := by
  rw [idOr]
  split_ifs with habsent
  · intro k w hw hk
    refine hf _ (.fresh habsent w.uuids) k _ ⟨?_, hw.2⟩ hk
    exact ⟨hw.1.threadId, hw.1.summaryPrefix, hw.1.links⟩
  · exact hf _ (.given habsent)

/-- What the drain takes a message for. -/
structure Delivers (rt : Runtime) (m : ModelMessage) (s : MessageStream) : Prop where
  id : ResolvesTo rt "msg_" m.messageId s.msgId
  events : s.events = m.events.items

theorem turns_upsertMessage (msgId : String) (ordinal createdAt : ℤ) :
    Turns E hallowed hwordless final v (upsertMessage msgId ordinal createdAt none)
      { v with ids := v.ids ++ [msgId] } := by
  refine runs_bind (turns_silent (fun _ => ⟨rfl, rfl, rfl⟩) (fun _ => rfl) fun _ => rfl)
    fun order => ?_
  apply runs_readSelf_bind (E := E) rfl
  intro t ht _
  rw [ht]
  refine runs_upsert (E := E) rfl ?_ trivial
  rintro w rfl
  exact ofWorld_write_message rfl w

theorem turns_setDefault (msgId : String) :
    Turns E hallowed hwordless final v
      (updateSelf fun t => { t with emittedTexts := t.emittedTexts.setDefault msgId "" })
      { v with texts := (v.announced msgId).texts } := by
  apply runs_atomically_of (E := E) rfl fun _ => ⟨rfl, rfl, rfl⟩
  rintro w rfl
  change SalvageView.mk _ _ _ = SalvageView.mk _ _ _
  rw [SalvageView.mk.injEq]
  refine ⟨?_, rfl, rfl⟩
  funext k
  exact OrderedDict.get_setDefault _ _ _ _

/-- One message after the other is streamed. -/
theorem runs_consumeMessage (m : ModelMessage) :
    Runs (salvageOwnership E hallowed hwordless final)
      (Holds (salvageOwnership E hallowed hwordless final) v) (consumeMessage E.rt m) fun _ w =>
        ∃ s, Delivers E.rt m s ∧
          Holds (salvageOwnership E hallowed hwordless final) (v.streamed E.threadId s) w := by
  apply turns_idOr_bind
  intro msgId hid
  refine runs_bind (turns_silent (fun _ => ⟨rfl, rfl, rfl⟩) (fun _ => rfl) fun _ => rfl)
    fun ordinal => ?_
  refine runs_bind (turns_silent (fun _ => ⟨rfl, rfl, rfl⟩) (fun _ => rfl) fun _ => rfl)
    fun createdAt => ?_
  refine runs_bind (turns_setDefault msgId) fun _ => ?_
  refine runs_bind (turns_upsertMessage msgId ordinal createdAt) fun _ => ?_
  refine (turns_streamDeltas msgId m.events.error m.events.items .empty .empty).weaken
    fun _ w hw => ?_
  exact ⟨⟨msgId, m.events.items⟩, ⟨hid, rfl⟩, hw⟩

def renderedMessages (summaryPrefix : String) (feed : Feed ModelMessage) : List ModelMessage :=
  feed.items.filter (rendersMessage summaryPrefix)

/-- The view after some messages. -/
def Streamed (E : Setting) (ms : List ModelMessage) (v v' : SalvageView) : Prop :=
  ∃ streams, List.Forall₂ (Delivers E.rt) (ms.filter (rendersMessage E.summaryPrefix)) streams ∧
    v' = streams.foldl (fun v s => v.streamed E.threadId s) v

theorem Streamed.trans {ms ms' : List ModelMessage} {v v' v'' : SalvageView}
    (h : Streamed E ms v v') (h' : Streamed E ms' v' v'') : Streamed E (ms ++ ms') v v'' := by
  obtain ⟨streams, hstreams, rfl⟩ := h
  obtain ⟨streams', hstreams', rfl⟩ := h'
  refine ⟨streams ++ streams', ?_, List.foldl_append.symm⟩
  rw [List.filter_append]
  exact List.rel_append hstreams hstreams'

theorem runs_streamMessage (m : ModelMessage) :
    Runs (salvageOwnership E hallowed hwordless final)
      (Holds (salvageOwnership E hallowed hwordless final) v) (streamMessage E.rt m)
      fun _ w => ∃ v', Streamed E [m] v v' ∧
        Holds (salvageOwnership E hallowed hwordless final) v' w := by
  apply runs_readSelf_bind (E := E) rfl
  intro t _ ht
  rw [ht]
  split_ifs with hrenders
  · refine (runs_consumeMessage m).weaken fun _ w hw => ?_
    obtain ⟨s, hs, hw⟩ := hw
    refine ⟨_, ⟨[s], ?_, rfl⟩, hw⟩
    rw [List.filter_cons_of_pos hrenders]
    exact .cons hs .nil
  · refine runs_pure fun w hw => ⟨v, ⟨[], ?_, rfl⟩, hw⟩
    rw [List.filter_cons_of_neg hrenders]
    exact .nil

theorem runs_streamItems (i : ℕ) (ms : List ModelMessage) :
    Runs (salvageOwnership E hallowed hwordless final)
      (Holds (salvageOwnership E hallowed hwordless final) v)
      (Proc.asyncFor (fun i w => decide (i < w.published .messages)) (streamMessage E.rt) i ms)
      fun _ w => ∃ v', Streamed E ms v v' ∧
        Holds (salvageOwnership E hallowed hwordless final) v' w := by
  induction ms generalizing v i with
  | nil => exact runs_pure fun w hw => ⟨v, ⟨[], .nil, rfl⟩, hw⟩
  | cons m ms ih =>
      refine runs_bind (runs_awaiting trivial) fun _ => ?_
      refine runs_bind (runs_streamMessage m) fun _ => ?_
      rintro k w ⟨v', hv', hw⟩ hk
      refine ((ih (i + 1)).weaken fun _ w' hw' => ?_) k w hw hk
      obtain ⟨v'', hv'', hw'⟩ := hw'
      exact ⟨v'', hv'.trans hv'', hw'⟩

/-- Only a feed that ends cleanly gets past its close. -/
theorem runs_streamMessages (feed : Feed ModelMessage) :
    Runs (salvageOwnership E hallowed hwordless final)
      (Holds (salvageOwnership E hallowed hwordless final) v) (streamMessages E.rt feed)
      fun _ w => ∃ v', Streamed E feed.items v v' ∧
        Holds (salvageOwnership E hallowed hwordless final) v' w := by
  refine runs_bind (runs_streamItems 0 feed.items) fun _ => ?_
  rintro k w ⟨v', hv', hw⟩ hk
  rw [Feed.close]
  cases feed.error with
  | none => exact hk () w ⟨v', hv', hw⟩
  | some exc => exact runs_raise (v := v') trivial (fun h => nomatch h) k w hw hk

end Drain

/-! ## The view of a list of streams -/

/-- The texts an id has been streamed with. -/
def textsOf (streams : List MessageStream) (msgId : String) : List String :=
  (streams.filter fun s => s.msgId = msgId).map MessageStream.text

/-- The text of the last stream. -/
def lastText (streams : List MessageStream) (msgId : String) : String :=
  (textsOf streams msgId).getLast?.getD ""

/-- The text of the last stream that has any. -/
def salvagedText (streams : List MessageStream) (msgId : String) : String :=
  ((textsOf streams msgId).filter fun text => text ≠ "").getLast?.getD ""

theorem textsOf_concat (streams : List MessageStream) (s : MessageStream) (msgId : String) :
    textsOf (streams ++ [s]) msgId =
      textsOf streams msgId ++ if s.msgId = msgId then [s.text] else [] := by
  rw [textsOf, List.filter_append, List.map_append, textsOf]
  split_ifs with h
  · simp [h]
  · simp [h]

theorem textsOf_eq_nil {streams : List MessageStream} {msgId : String} :
    textsOf streams msgId = [] ↔ msgId ∉ streams.map MessageStream.msgId := by
  simp [textsOf, List.filter_eq_nil_iff]

def viewOf (threadId : String) (streams : List MessageStream) : SalvageView :=
  streams.foldl (fun v s => v.streamed threadId s) .empty

theorem viewOf_concat (threadId : String) (streams : List MessageStream) (s : MessageStream) :
    viewOf threadId (streams ++ [s]) = (viewOf threadId streams).streamed threadId s := by
  rw [viewOf, List.foldl_append]
  rfl

theorem ids_viewOf (threadId : String) (streams : List MessageStream) :
    (viewOf threadId streams).ids = streams.map MessageStream.msgId := by
  induction streams using List.reverseRecOn with
  | nil => rfl
  | append_singleton streams s ih =>
      rw [viewOf_concat, List.map_append, ← ih]
      rfl

theorem chunks_viewOf (threadId : String) (streams : List MessageStream) :
    (viewOf threadId streams).chunks = streamLog threadId streams := by
  induction streams using List.reverseRecOn with
  | nil => rfl
  | append_singleton streams s ih =>
      rw [viewOf_concat, streamLog, List.flatMap_append, List.flatMap_singleton]
      change (viewOf threadId streams).chunks ++ _ = _
      rw [ih]
      rfl

theorem salvagedText_concat (streams : List MessageStream) (s : MessageStream) (msgId : String) :
    salvagedText (streams ++ [s]) msgId =
      if s.msgId = msgId ∧ s.text ≠ "" then s.text else salvagedText streams msgId := by
  rw [salvagedText, textsOf_concat, List.filter_append, salvagedText]
  by_cases hid : s.msgId = msgId
  · by_cases htext : s.text = ""
    · simp [hid, htext]
    · simp [hid, htext]
  · simp [hid]

theorem texts_viewOf (threadId : String) (streams : List MessageStream) (msgId : String) :
    (viewOf threadId streams).texts msgId =
      if msgId ∈ streams.map MessageStream.msgId then some (salvagedText streams msgId)
      else none := by
  induction streams using List.reverseRecOn with
  | nil => rfl
  | append_singleton streams s ih =>
      have hmem : msgId ∈ (streams ++ [s]).map MessageStream.msgId ↔
          msgId ∈ streams.map MessageStream.msgId ∨ s.msgId = msgId := by
        simp [eq_comm]
      rw [viewOf_concat, salvagedText_concat]
      simp only [hmem, SalvageView.streamed, SalvageView.received, String.empty_append]
      by_cases hid : s.msgId = msgId
      · have hold : ((viewOf threadId streams).texts msgId).getD "" =
            salvagedText streams msgId := by
          rw [ih]
          split_ifs with hm
          · rfl
          · rw [salvagedText, textsOf_eq_nil.mpr hm]
            rfl
        by_cases htext : s.text = ""
        · simp [hid, htext, SalvageView.announced, hold]
        · simp [hid, htext, SalvageView.captured]
      · by_cases htext : s.text = ""
        · simp [hid, htext, SalvageView.announced, ih]
        · simp [hid, htext, SalvageView.announced, SalvageView.captured, ih]

/-! ## Agreement -/

theorem salvagedText_eq_lastText {streams : List MessageStream} {msgId : String} :
    salvagedText streams msgId = lastText streams msgId ↔
      (lastText streams msgId = "" → ∀ text ∈ textsOf streams msgId, text = "") := by
  rw [salvagedText, lastText]
  induction textsOf streams msgId using List.reverseRecOn with
  | nil => simp
  | append_singleton texts text _ =>
      by_cases htext : text = ""
      · subst htext
        have hfilter : (texts ++ [""]).filter (fun text => text ≠ "") =
            texts.filter fun text => text ≠ "" := by simp
        rw [hfilter, List.getLast?_concat, Option.getD_some]
        cases hlast : (texts.filter fun text => text ≠ "").getLast? with
        | none =>
            have hnil := List.getLast?_eq_none_iff.mp hlast
            rw [List.filter_eq_nil_iff] at hnil
            refine iff_of_true rfl fun _ text hmem => ?_
            rcases List.mem_append.mp hmem with hmem | hmem
            · simpa using hnil text hmem
            · exact List.mem_singleton.mp hmem
        | some text =>
            have hmem := List.mem_filter.mp (List.mem_of_getLast? hlast)
            have hne : text ≠ "" := by simpa using hmem.2
            refine iff_of_false hne fun h => hne (h rfl text (List.mem_append_left _ hmem.1))
      · simp [htext]

/-- The pieces that go under an id's keys, by the channel they belong to. -/
def piecesUnder (msgId : String) (s : MessageStream) : List (ChunkChannel × String) :=
  match s.channelUnder msgId with
  | some channel => (streamPieces channel s.events).map fun piece => (channel, piece)
  | none => []

def survivingPieces (streams : List MessageStream) (msgId : String) : List String :=
  ((overlays (streams.map (piecesUnder msgId))).filter fun p => p.1 = .text).map Prod.snd

/-- A row that is held and the piece it carries. -/
def Carries (msgId : String) (row : Row) (p : ChunkChannel × String) : Prop :=
  rowText row "text" = p.2 ∧ (isChunkOf msgId .text row ↔ p.1 = .text)

theorem carries_rowsUnder (threadId msgId : String) (s : MessageStream) :
    List.Forall₂ (Carries msgId) (s.rowsUnder threadId msgId) (piecesUnder msgId s) := by
  rw [MessageStream.rowsUnder, piecesUnder]
  cases hc : s.channelUnder msgId with
  | none => exact .nil
  | some channel =>
      have hbase := MessageStream.channelUnder_eq_some.mp hc
      rw [List.forall₂_iff_get]
      refine ⟨by simp, fun i hi hi' => ?_⟩
      simp only [List.get_eq_getElem, List.getElem_mapIdx, List.getElem_map]
      refine ⟨rowText_chunkRow _ _ _ _ _, ?_⟩
      rw [isChunkOf_chunkRow]
      exact and_iff_right_of_imp fun h => by rw [← hbase, h, keyBase]

theorem joinTexts_heldUnder (threadId msgId : String) (streams : List MessageStream) :
    joinTexts ((heldUnder threadId msgId streams).filter (isChunkOf msgId .text)) =
      String.join (survivingPieces streams msgId) := by
  have hstreams : List.Forall₂ (List.Forall₂ (Carries msgId))
      (streams.map (MessageStream.rowsUnder threadId msgId)) (streams.map (piecesUnder msgId)) := by
    rw [List.forall₂_map_left_iff, List.forall₂_map_right_iff, List.forall₂_same]
    exact fun s _ => carries_rowsUnder threadId msgId s
  have hheld := forall₂_overlays hstreams
  change List.Forall₂ (Carries msgId) (heldUnder threadId msgId streams) _ at hheld
  rw [joinTexts, survivingPieces]
  congr 1
  generalize heldUnder threadId msgId streams = rows at hheld
  generalize overlays (streams.map (piecesUnder msgId)) = ps at hheld
  induction hheld with
  | nil => rfl
  | @cons row p rows ps hrow _ ih =>
      obtain ⟨htext, hown⟩ := hrow
      by_cases hp : p.1 = .text
      · have hps : (p :: ps).filter (fun p => p.1 = .text) = p :: ps.filter fun p => p.1 = .text :=
          List.filter_cons_of_pos (by simpa using hp)
        rw [List.filter_cons_of_pos (hown.mpr hp), hps, List.map_cons, List.map_cons, htext, ih]
      · have hps : (p :: ps).filter (fun p => p.1 = .text) = ps.filter fun p => p.1 = .text :=
          List.filter_cons_of_neg (by simpa using hp)
        rw [List.filter_cons_of_neg fun h => hp (hown.mp h), hps, ih]

/-- The reasoning of another message goes under the keys of this one's text. -/
def SharesKeys (streams : List MessageStream) (msgId : String) : Prop :=
  ∃ s ∈ streams, s.msgId ++ ":r" = msgId ∧ streamText .reasoning s.events ≠ ""

/-- How many chunks each stream of an id has. -/
def chunkCounts (streams : List MessageStream) (msgId : String) : List ℕ :=
  (streams.filter fun s => s.msgId = msgId).map fun s => (streamPieces .text s.events).length

structure Kept (streams : List MessageStream) (msgId : String) : Prop where
  alone : ¬ SharesKeys streams msgId →
    ∀ n ∈ chunkCounts streams msgId, n ≤ (chunkCounts streams msgId).getLast?.getD 0
  shared : SharesKeys streams msgId →
    (lastText streams msgId = "" → ∀ text ∈ textsOf streams msgId, text = "") ∧
      String.join (survivingPieces streams msgId) = lastText streams msgId

/-- The last stream of an id, when there is one. -/
theorem exists_last_stream {streams : List MessageStream} {msgId : String}
    (h : msgId ∈ streams.map MessageStream.msgId) :
    ∃ before s after, streams = before ++ s :: after ∧ s.msgId = msgId ∧
      ∀ s' ∈ after, s'.msgId ≠ msgId := by
  induction streams using List.reverseRecOn with
  | nil => cases h
  | append_singleton streams s ih =>
      by_cases hs : s.msgId = msgId
      · exact ⟨streams, s, [], rfl, hs, nofun⟩
      · have hmem : msgId ∈ streams.map MessageStream.msgId := by
          rw [List.map_append, List.mem_append] at h
          exact h.resolve_right fun h => hs (List.mem_singleton.mp h).symm
        obtain ⟨before, t, after, rfl, ht, hafter⟩ := ih hmem
        refine ⟨before, t, after ++ [s], by simp, ht, fun s' hs' => ?_⟩
        rcases List.mem_append.mp hs' with hs' | hs'
        · exact hafter s' hs'
        · rw [List.mem_singleton.mp hs']
          exact hs

theorem piecesUnder_self {msgId : String} {s : MessageStream} (h : s.msgId = msgId) :
    piecesUnder msgId s = (streamPieces .text s.events).map fun piece => (.text, piece) := by
  rw [piecesUnder, MessageStream.channelUnder, if_pos h]

theorem piecesUnder_other {streams : List MessageStream} {msgId : String}
    (halone : ¬ SharesKeys streams msgId) {s : MessageStream} (hs : s ∈ streams)
    (h : s.msgId ≠ msgId) : piecesUnder msgId s = [] := by
  rw [piecesUnder, MessageStream.channelUnder, if_neg h]
  split_ifs with hr
  · have hnone : streamText .reasoning s.events = "" := by
      by_contra hne
      exact halone ⟨s, hs, hr, hne⟩
    have hpieces := streamPieces_eq_nil.mpr hnone
    simp only [hpieces, List.map_nil]
  · rfl

section LastStream

variable {before after : List MessageStream} {s : MessageStream} {msgId : String}

theorem filter_of_last (hs : s.msgId = msgId) (hafter : ∀ s' ∈ after, s'.msgId ≠ msgId) :
    (before ++ s :: after).filter (fun s => s.msgId = msgId) =
      before.filter (fun s => s.msgId = msgId) ++ [s] := by
  have hnone : after.filter (fun s => s.msgId = msgId) = [] := by
    rw [List.filter_eq_nil_iff]
    exact fun s' hs' h => hafter s' hs' (of_decide_eq_true h)
  simp [hs, hnone]

theorem lastText_of_last (hs : s.msgId = msgId) (hafter : ∀ s' ∈ after, s'.msgId ≠ msgId) :
    lastText (before ++ s :: after) msgId = s.text := by
  rw [lastText, textsOf, filter_of_last hs hafter]
  simp

theorem overlays_of_last (hsilent : ∀ s' ∈ after, piecesUnder msgId s' = []) :
    overlays ((before ++ s :: after).map (piecesUnder msgId)) =
      overlay (overlays (before.map (piecesUnder msgId))) (piecesUnder msgId s) := by
  have hnil : ∀ pieces ∈ after.map (piecesUnder msgId), pieces = [] :=
    List.forall_mem_map.mpr hsilent
  rw [List.map_append, List.map_cons, List.append_cons, overlays_append_of_nil _ hnil,
    overlays_concat]

/-- The last stream has the most chunks when what the earlier ones hold is no longer. -/
theorem chunkCounts_le_iff (halone : ¬ SharesKeys (before ++ s :: after) msgId)
    (hs : s.msgId = msgId) (hafter : ∀ s' ∈ after, s'.msgId ≠ msgId) :
    (∀ k ∈ chunkCounts (before ++ s :: after) msgId,
        k ≤ (chunkCounts (before ++ s :: after) msgId).getLast?.getD 0) ↔
      (overlays (before.map (piecesUnder msgId))).length ≤
        (streamPieces .text s.events).length := by
  rw [chunkCounts, filter_of_last hs hafter, List.map_append, List.map_singleton,
    List.getLast?_concat, length_overlays_le, List.forall_mem_append, List.forall_mem_singleton,
    Option.getD_some, and_iff_left (Nat.le_refl _)]
  constructor
  · intro h pieces hpieces
    obtain ⟨s', hs', rfl⟩ := List.mem_map.mp hpieces
    by_cases hid : s'.msgId = msgId
    · rw [piecesUnder_self hid, List.length_map]
      exact h _ (List.mem_map.mpr ⟨s', List.mem_filter.mpr ⟨hs', decide_eq_true hid⟩, rfl⟩)
    · rw [piecesUnder_other halone (List.mem_append_left _ hs') hid]
      exact Nat.zero_le _
  · intro h k hk
    obtain ⟨s', hs', rfl⟩ := List.mem_map.mp hk
    obtain ⟨hbefore, hid⟩ := List.mem_filter.mp hs'
    have hle := h _ (List.mem_map_of_mem hbefore)
    rwa [piecesUnder_self (of_decide_eq_true hid), List.length_map] at hle

/-- A stream that is the last under its keys covers what lies there if it is long enough. -/
theorem survivingPieces_of_last (hs : s.msgId = msgId)
    (hafter : ∀ s' ∈ after, s'.channelUnder msgId = none)
    (hold : (overlays (before.map (piecesUnder msgId))).length ≤
      (streamPieces .text s.events).length) :
    survivingPieces (before ++ s :: after) msgId = streamPieces .text s.events := by
  have hsilent : ∀ s' ∈ after, piecesUnder msgId s' = [] := by
    intro s' hs'
    rw [piecesUnder, hafter s' hs']
  rw [survivingPieces, overlays_of_last hsilent, overlay, piecesUnder_self hs, List.length_map,
    List.drop_eq_nil_of_le hold, List.append_nil]
  simp [List.filter_map, Function.comp_def]

/-- A stream that is the last under its keys and has at least as many chunks as any before it is
kept, whoever else has been there. -/
theorem kept_of_longest (hs : s.msgId = msgId)
    (hafter : ∀ s' ∈ after, s'.channelUnder msgId = none)
    (hlongest : ∀ s' ∈ before,
      (piecesUnder msgId s').length ≤ (streamPieces .text s.events).length) :
    Kept (before ++ s :: after) msgId := by
  have hids : ∀ s' ∈ after, s'.msgId ≠ msgId := by
    intro s' hs' hid
    have hnone := hafter s' hs'
    rw [MessageStream.channelUnder, if_pos hid] at hnone
    cases hnone
  have hold : (overlays (before.map (piecesUnder msgId))).length ≤
      (streamPieces .text s.events).length := by
    rw [length_overlays_le]
    intro pieces hpieces
    obtain ⟨s', hs', rfl⟩ := List.mem_map.mp hpieces
    exact hlongest s' hs'
  refine ⟨fun halone => (chunkCounts_le_iff halone hs hids).mpr hold, fun _ => ⟨?_, ?_⟩⟩
  · rw [lastText_of_last hs hids, MessageStream.text, ← streamPieces_eq_nil]
    intro hempty text htext
    obtain ⟨s', hs', rfl⟩ := List.mem_map.mp htext
    rw [filter_of_last hs hids, List.mem_append, List.mem_singleton] at hs'
    rw [MessageStream.text, ← streamPieces_eq_nil]
    rcases hs' with hs' | rfl
    · obtain ⟨hbefore, hid⟩ := List.mem_filter.mp hs'
      have hle := hlongest s' hbefore
      rw [piecesUnder_self (of_decide_eq_true hid), List.length_map, hempty] at hle
      exact List.eq_nil_of_length_eq_zero (Nat.le_zero.mp hle)
    · exact hempty
  · rw [survivingPieces_of_last hs hafter hold, join_streamPieces, lastText_of_last hs hids,
      MessageStream.text]

end LastStream

theorem text_of_mem_overlays {streams : List MessageStream} {msgId : String}
    (halone : ¬ SharesKeys streams msgId) :
    ∀ p ∈ overlays (streams.map (piecesUnder msgId)), p.1 = .text ∧ p.2 ≠ "" := by
  intro p hp
  obtain ⟨pieces, hpieces, hp⟩ := mem_overlays hp
  obtain ⟨s, hs, rfl⟩ := List.mem_map.mp hpieces
  by_cases hid : s.msgId = msgId
  · rw [piecesUnder_self hid] at hp
    obtain ⟨piece, hpiece, rfl⟩ := List.mem_map.mp hp
    exact ⟨rfl, ne_empty_of_mem_streamPieces piece hpiece⟩
  · rw [piecesUnder_other halone hs hid] at hp
    cases hp

/-- Where no key is shared, the last stream of an id stands over the ends of the longer ones. -/
theorem join_survivingPieces_iff {streams : List MessageStream} {msgId : String}
    (hmem : msgId ∈ streams.map MessageStream.msgId) (halone : ¬ SharesKeys streams msgId) :
    String.join (survivingPieces streams msgId) = lastText streams msgId ↔
      ∀ n ∈ chunkCounts streams msgId, n ≤ (chunkCounts streams msgId).getLast?.getD 0 := by
  obtain ⟨before, s, after, rfl, hs, hafter⟩ := exists_last_stream hmem
  let old := overlays (before.map (piecesUnder msgId))
  let n := (streamPieces .text s.events).length
  have hall := text_of_mem_overlays halone
  have hsilent : ∀ s' ∈ after, piecesUnder msgId s' = [] := fun s' hs' =>
    piecesUnder_other halone (by simp [hs']) (hafter s' hs')
  rw [chunkCounts_le_iff halone hs hafter, lastText_of_last hs hafter, survivingPieces,
    List.filter_eq_self.mpr fun p hp => decide_eq_true (hall p hp).1]
  rw [overlays_of_last hsilent, overlay, piecesUnder_self hs, List.length_map] at hall ⊢
  have hsnd : ((streamPieces .text s.events).map fun piece => (ChunkChannel.text, piece)).map
      Prod.snd = streamPieces .text s.events := by
    rw [List.map_map]
    exact List.map_id _
  have hrest : ∀ text ∈ (old.drop n).map Prod.snd, text ≠ "" := by
    intro text htext
    obtain ⟨p, hp, rfl⟩ := List.mem_map.mp htext
    exact (hall p (List.mem_append_right _ hp)).2
  rw [List.map_append, hsnd, String.join_append, join_streamPieces]
  change s.text ++ String.join ((old.drop n).map Prod.snd) = s.text ↔ old.length ≤ n
  rw [String.append_eq_left_iff, join_eq_empty hrest, List.map_eq_nil_iff, List.drop_eq_nil_iff]

theorem getLast_chunkCounts {streams : List MessageStream} {msgId : String}
    (h : lastText streams msgId = "") : (chunkCounts streams msgId).getLast?.getD 0 = 0 := by
  rw [lastText, textsOf, List.getLast?_map] at h
  rw [chunkCounts, List.getLast?_map]
  cases hlast : (streams.filter fun s => s.msgId = msgId).getLast? with
  | none => rfl
  | some s =>
      rw [hlast] at h
      exact List.length_eq_zero_iff.mpr (streamPieces_eq_nil.mpr h)

/-- On the streams of one id the view and the store agree. -/
theorem agree_iff_kept {streams : List MessageStream} {msgId : String}
    (hmem : msgId ∈ streams.map MessageStream.msgId) :
    String.join (survivingPieces streams msgId) = salvagedText streams msgId ∧
        salvagedText streams msgId = lastText streams msgId ↔ Kept streams msgId := by
  constructor
  · rintro ⟨hjoin, hlast⟩
    exact ⟨fun halone => (join_survivingPieces_iff hmem halone).mp (hjoin.trans hlast),
      fun _ => ⟨salvagedText_eq_lastText.mp hlast, hjoin.trans hlast⟩⟩
  · intro h
    by_cases hshared : SharesKeys streams msgId
    · obtain ⟨hempty, hjoin⟩ := h.shared hshared
      have hlast := salvagedText_eq_lastText.mpr hempty
      exact ⟨hjoin.trans hlast.symm, hlast⟩
    · have hcounts := h.alone hshared
      have hjoin := (join_survivingPieces_iff hmem hshared).mpr hcounts
      have hlast : salvagedText streams msgId = lastText streams msgId := by
        apply salvagedText_eq_lastText.mpr
        intro hempty text htext
        rw [getLast_chunkCounts hempty] at hcounts
        obtain ⟨s, hs, rfl⟩ := List.mem_map.mp htext
        have hlen := hcounts _ (List.mem_map_of_mem hs)
        exact streamPieces_eq_nil.mp (List.eq_nil_of_length_eq_zero (Nat.le_zero.mp hlen))
      exact ⟨hjoin.trans hlast.symm, hlast⟩

theorem zipWith_of_delivers {rt : Runtime} {ms : List ModelMessage} {streams : List MessageStream}
    (h : List.Forall₂ (Delivers rt) ms streams) :
    List.zipWith (fun m s => ⟨s.msgId, m.events.items⟩) ms streams = streams := by
  induction h with
  | nil => rfl
  | @cons m s ms streams hd _ ih => rw [List.zipWith_cons_cons, ih, ← hd.events]

/-! ## Whole runs -/

/-- A run over the messages of a feed, next to anything that has none: the tasks of its channels
follow a schedule. -/
structure MessageRun where
  rt : Runtime
  threadId : String
  runId : String
  summaryPrefix : String
  orderStart : ℤ
  ordinalStart : ℤ
  before : List Activity
  messages : Feed ModelMessage
  after : List Activity
  schedule : List Pick
  final : System
  wordless : Wordless (drains rt (before ++ after))
  follows : (startSystem rt (Translator.seeded threadId runId summaryPrefix orderStart ordinalStart)
      (before ++ .messages messages :: after)).follow schedule = some final

namespace MessageRun

variable (r : MessageRun)

/-- The messages drain has come to its end by itself. -/
structure Drained : Prop where
  uncancelled : .cancel r.before.length ∉ r.schedule
  done : r.final.threads[r.before.length]? = some (.messages, .done)

def rendered : List ModelMessage := renderedMessages r.summaryPrefix r.messages

/-- The ids the messages went by, in the order of their anchor rows. -/
def ids : List String := (SalvageView.ofWorld r.final.state).ids

def streams : List MessageStream :=
  List.zipWith (fun m msgId => ⟨msgId, m.events.items⟩) r.rendered r.ids

/-- A client that puts the chunks of an id together reads the text of its last stream, and so does
the salvage view. -/
def SalvageAgrees : Prop :=
  ∀ msgId text, r.final.state.self.emittedTurn.texts.get msgId = some text →
    reassembled r.final.state.frames msgId .text = text ∧ text = lastText r.streams msgId

variable {r}

theorem not_userMessage {name : TaskName} {msgId text : String} {attachments : List PyValue} :
    ¬ drains r.rt (r.before ++ .messages r.messages :: r.after) name
      (.userMessage msgId text attachments) := by
  intro item
  cases item with
  | userMessage mem =>
      have hmem : Activity.userMessage msgId text attachments ∈ r.before ++ r.after := by
        simpa using mem
      exact r.wordless.userMessage _ _ _ _ (.userMessage hmem)

theorem view_of_drained (h : r.Drained) :
    List.Forall₂ (Delivers r.rt) r.rendered r.streams ∧
      SalvageView.ofWorld r.final.state = viewOf r.threadId r.streams := by
  let E := settingOf r.rt r.threadId r.summaryPrefix (r.before ++ r.after) anyStep
  let O := salvageOwnership E (fun _ _ => trivial) r.wordless (Streamed E r.messages.items .empty)
  have howned : Owned O (streamMessages r.rt r.messages).code
      (World.start (Translator.seeded r.threadId r.runId r.summaryPrefix r.orderStart
        r.ordinalStart)) := by
    refine owned_code (runs_streamMessages (v := .empty) r.messages) ?_ rfl
    rintro w ⟨v', hv', hw⟩
    exact ⟨⟨hw.1, trivial⟩, fun _ => by rwa [hw.2]⟩
  have hfinal := owned_of_follow
    (ownedBy_start (a := .messages r.messages) (O := O) rfl trivial howned)
    (fun _ => trivial) r.follows
  obtain ⟨streams, hdelivers, hview⟩ := hfinal.ends h.uncancelled h.done rfl
  change List.Forall₂ (Delivers r.rt) r.rendered streams at hdelivers
  change SalvageView.ofWorld r.final.state = viewOf r.threadId streams at hview
  have hstreams : r.streams = streams := by
    rw [MessageRun.streams, ids, hview, ids_viewOf, List.zipWith_map_right]
    exact zipWith_of_delivers hdelivers
  rw [hstreams]
  exact ⟨hdelivers, hview⟩

theorem collection_of_drained (h : r.Drained) :
    collection .messageChunk r.final.state.frames =
      collection .messageChunk (streamLog r.threadId r.streams) := by
  rw [collection_streamLog, ← chunks_viewOf, ← (view_of_drained h).2]
  rfl

end MessageRun

/-- Where the messages channel has been drained, the client reads the salvaged texts, which are
those of the last streams, if and only if no stream of an id is left with more chunks than a later
one, or with others in their place. -/
theorem salvage_agrees_iff (r : MessageRun) (h : r.Drained) :
    List.Forall₂ (fun m msgId => ResolvesTo r.rt "msg_" m.messageId msgId) r.rendered r.ids ∧
      (r.SalvageAgrees ↔ ∀ msgId ∈ r.ids, Kept r.streams msgId) := by
  obtain ⟨hdelivers, hview⟩ := MessageRun.view_of_drained h
  have hids : r.ids = r.streams.map MessageStream.msgId := by
    rw [MessageRun.ids, hview, ids_viewOf]
  constructor
  · rw [hids, List.forall₂_map_right_iff]
    exact hdelivers.imp fun _ _ hd => hd.id
  · have htexts : ∀ msgId, r.final.state.self.emittedTurn.texts.get msgId =
        if msgId ∈ r.ids then some (salvagedText r.streams msgId) else none := by
      intro msgId
      rw [hids, ← texts_viewOf r.threadId, ← hview]
      rfl
    have hread : ∀ msgId, reassembled r.final.state.frames msgId .text =
        String.join (survivingPieces r.streams msgId) := by
      intro msgId
      rw [← joinTexts_heldUnder r.threadId]
      exact reassembled_eq (MessageRun.collection_of_drained h) msgId .text
    constructor
    · intro h msgId hmem
      have hagrees := h msgId (salvagedText r.streams msgId) (by rw [htexts, if_pos hmem])
      rw [hread] at hagrees
      exact (agree_iff_kept (hids ▸ hmem)).mp hagrees
    · intro h msgId text htext
      rw [htexts] at htext
      split_ifs at htext with hmem
      obtain rfl := Option.some.inj htext
      rw [hread]
      exact (agree_iff_kept (hids ▸ hmem)).mpr (h msgId hmem)

def textDelta (token : String) : Entries :=
  [("event", .str "content-block-delta"),
    ("delta", .dict [("type", .str "text-delta"), ("text", .str token)])]

def textMessage (msgId : String) (tokens : List String) : ModelMessage where
  node := some modelNode
  messageId := some msgId
  events := ⟨tokens.map textDelta, none⟩

def reasoningDelta (token : String) : Entries :=
  [("event", .str "content-block-delta"),
    ("delta", .dict [("type", .str "reasoning-delta"), ("reasoning", .str token)])]

/-- A message that thinks before it speaks. -/
def thinkingStream : ModelMessage where
  node := some modelNode
  messageId := some "m"
  events := ⟨[reasoningDelta "why", textDelta "a", textDelta "b"], none⟩

def messageSchedule (messages : List ModelMessage) (blocks : ℕ) : List Pick :=
  messages.map (fun _ => .run 0) ++ List.replicate blocks (.run 1)

def messageSystem (messages : List ModelMessage) : System :=
  startSystem plainRuntime (Translator.seeded "t" "r" "summarization-" 0 0)
    [.source (messages.map fun _ => .messages), .messages ⟨messages, none⟩]

/-- A run that makes its messages available and then drains them in the given number of blocks. -/
def messageRun (messages : List ModelMessage) (blocks : ℕ)
    (h : ((messageSystem messages).follow (messageSchedule messages blocks)).isSome) :
    MessageRun where
  rt := plainRuntime
  threadId := "t"
  runId := "r"
  summaryPrefix := "summarization-"
  orderStart := 0
  ordinalStart := 0
  before := [.source (messages.map fun _ => .messages)]
  messages := ⟨messages, none⟩
  after := []
  schedule := messageSchedule messages blocks
  final := (messageSystem messages).after (fun _ _ => true) _ h
  wordless :=
    { message := by
        rintro name m (_ | _)
        all_goals simp_all
      userMessage := by
        rintro name msgId text attachments (_ | _)
        all_goals simp_all }
  follows := follow_after _ _ h

def repeatedRun : MessageRun := messageRun [textMessage "m" ["a"], textMessage "m" ["bc"]] 8 rfl

theorem salvage_agrees_iff_repeatedRun :
    repeatedRun.ids = ["m", "m"] ∧
      (repeatedRun.SalvageAgrees ↔ ∀ msgId ∈ repeatedRun.ids, Kept repeatedRun.streams msgId) :=
  ⟨by decide, (salvage_agrees_iff repeatedRun ⟨by decide, rfl⟩).2⟩

/-- The second stream of an id is shorter than a chunk, the first one is not. -/
def shortenedRun : MessageRun :=
  messageRun [textMessage "m" [String.ofList (List.replicate 80 'x'), "y"], textMessage "m" ["z"]]
    10 rfl

theorem not_salvage_agrees : ¬ ∀ r : MessageRun, r.Drained → r.SalvageAgrees := by
  intro h
  have hagrees := h shortenedRun ⟨by decide, rfl⟩ "m" "z" (by decide)
  exact absurd hagrees.1 (by decide)

end StreamDB
