import StreamDB.DeltaEncoding
import StreamDB.Salvage

/-!
# A consumed message

`_consume_message` among the other tasks of its translator, seen at each of its suspension points.
-/

namespace StreamDB

open Coroutine

variable {rt : Runtime}

/-- Where the task of a message is suspended: the events it has yet to take, and the channels
whose tails have landed. -/
inductive Reading (message : ModelMessage) (msgId : String) :
    List Entries → (ChunkChannel → Bool) → TaskCode → Prop
  | event (event : Entries) (later : List Entries) (text reasoning : TextBuffer) :
      Reading message msgId (event :: later) (fun _ => false)
        (streamDeltas msgId none message.events.error (event :: later) text reasoning).code
  | writer (later : List Entries) (text reasoning : TextBuffer) :
      Reading message msgId later (fun _ => false)
        (.wait (fun _ => true)
          (streamDeltas msgId none message.events.error later text reasoning).code)
  | malformed (later : List Entries) :
      Reading message msgId later (fun _ => false) (.fail typeError)
  | broken (exc : PyException) (error : message.events.error = some exc) :
      Reading message msgId [] (fun _ => false) (.fail exc)
  | landing (text : TextBuffer) :
      Reading message msgId [] (fun channel => channel = .reasoning)
        (.wait (fun _ => true) (landTail msgId .text text none).code)
  | landed : Reading message msgId [] (fun _ => true) (.wait (fun _ => true) .done)
  | ended : Reading message msgId [] (fun _ => true) .done

/-- First the anchor, then the chunks. -/
def Anchored (threadId msgId : String) (out : List Frame) (chunks : List Chunk) : Prop :=
  ∃ anchor : Frame, anchor.type = .message ∧ anchor.key = msgId ∧
    out = anchor :: chunks.map (chunkFrame threadId msgId)

/-- What a message has on the stream and for salvage when `seen` are the events it has taken. -/
structure OnStream (message : ModelMessage) (msgId : String) (seen later : List Entries)
    (landed : ChunkChannel → Bool) (blocks : List (World × World)) (rest : TaskCode)
    (w : World) : Prop where
  events : message.events.items = seen ++ later
  reading : Reading message msgId later landed rest
  texts : w.self.emittedTurn.texts.get msgId = some (streamText .text seen)
  frames : ∃ chunks, Anchored w.self.threadId msgId (Execution.frames blocks) chunks ∧
    ∀ channel, chunks.filter (fun c => c.channel = channel) =
        encoded channel (landed channel) (tokens channel seen) ∧
      DeltaEncoding channel (landed channel) (tokens channel seen)
        (chunks.filter fun c => c.channel = channel)

/-- After `seen`, the chunks in `out` are those of the landed channels and the pieces so far of
the others. -/
structure Delivered (msgId : String) (seen : List Entries) (landed : ChunkChannel → Bool)
    (out : List Frame) (w : World) : Prop where
  texts : w.self.emittedTexts.get msgId = some (streamText .text seen)
  frames : ∃ chunks, Anchored w.self.threadId msgId out chunks ∧
    ∀ channel, chunks.filter (fun c => c.channel = channel) =
      encoded channel (landed channel) (tokens channel seen)

/-- The others leave the text of this message alone. -/
structure Spares (msgId : String) (w w' : World) : Prop where
  threadId : w'.self.threadId = w.self.threadId
  texts : w'.self.emittedTexts.get msgId = w.self.emittedTexts.get msgId

/-- The text of the message is captured with every token. -/
def captured (w : World) (msgId text : String) : World :=
  { w with self := { w.self with emittedTexts := w.self.emittedTexts.set msgId text } }

theorem texts_captured (w : World) (msgId text : String) :
    (captured w msgId text).self.emittedTexts.get msgId = some text := by
  change (w.self.emittedTexts.set msgId text).get msgId = _
  rw [OrderedDict.get_set, if_pos rfl]

/-- The loop has taken `seen` and has written `out`. -/
structure Midway (msgId : String) (seen : List Entries) (text reasoning : TextBuffer)
    (out : List Frame) (w : World) : Prop where
  texts : w.self.emittedTexts.get msgId = some text.text
  frames : ∃ chunks, Anchored w.self.threadId msgId out chunks ∧
    Written .text seen text chunks ∧ Written .reasoning seen reasoning chunks

theorem Anchored.append {threadId msgId : String} {out : List Frame} {chunks : List Chunk}
    (h : Anchored threadId msgId out chunks) (later : List Chunk) :
    Anchored threadId msgId (out ++ later.map (chunkFrame threadId msgId)) (chunks ++ later) := by
  obtain ⟨anchor, htype, hkey, rfl⟩ := h
  refine ⟨anchor, htype, hkey, ?_⟩
  rw [List.map_append, List.cons_append]

def messageWatch (message : ModelMessage) (msgId : String) :
    Watch TaskName World PyException where
  env := Spares msgId
  holds h code w := h = [] ∨ ∃ seen later landed, OnStream message msgId seen later landed h code w
  env_refl w := ⟨rfl, rfl⟩
  env_trans h h' := ⟨h'.threadId.trans h.threadId, h'.texts.trans h.texts⟩
  holds_env := by
    rintro h code w w' (rfl | ⟨seen, later, landed, hon⟩) henv
    · exact .inl rfl
    · refine .inr ⟨seen, later, landed, hon.events, hon.reading, ?_, ?_⟩
      · exact henv.texts.trans hon.texts
      · rw [henv.threadId]
        exact hon.frames

theorem Delivered.of_env {msgId : String} {seen : List Entries} {landed : ChunkChannel → Bool}
    {out : List Frame} {w w' : World} (h : Delivered msgId seen landed out w)
    (henv : Spares msgId w w') : Delivered msgId seen landed out w' where
  texts := henv.texts.trans h.texts
  frames := by
    rw [henv.threadId]
    exact h.frames

theorem Delivered.onStream {message : ModelMessage} {msgId : String} {seen later : List Entries}
    {landed : ChunkChannel → Bool} {w : World} {blocks : List (World × World)} {rest : TaskCode}
    (h : Delivered msgId seen landed (Execution.frames blocks) w)
    (hevents : message.events.items = seen ++ later)
    (hreading : Reading message msgId later landed rest) :
    OnStream message msgId seen later landed blocks rest w := by
  obtain ⟨chunks, hout, hown⟩ := h.frames
  refine ⟨hevents, hreading, h.texts, chunks, hout, ?_⟩
  intro channel
  rw [hown channel]
  exact ⟨rfl, deltaEncoding_encoded channel _ _⟩

namespace Midway

variable {message : ModelMessage} {msgId : String} {seen later : List Entries}
  {text reasoning : TextBuffer} {out : List Frame} {w w' : World}

theorem of_env (h : Midway msgId seen text reasoning out w) (henv : Spares msgId w w') :
    Midway msgId seen text reasoning out w' where
  texts := henv.texts.trans h.texts
  frames := by
    rw [henv.threadId]
    exact h.frames

theorem ignore (h : Midway msgId seen text reasoning out w) {event : Entries}
    (htext : (readDelta event).tokenOf .text = none)
    (hreasoning : (readDelta event).tokenOf .reasoning = none) :
    Midway msgId (seen ++ [event]) text reasoning out w := by
  obtain ⟨chunks, hout, ht, hr⟩ := h.frames
  exact ⟨h.texts, chunks, hout, ht.skip htext, hr.skip hreasoning⟩

theorem delivered (h : Midway msgId seen text reasoning out w) :
    Delivered msgId seen (fun _ => false) out w := by
  obtain ⟨chunks, hout, ht, hr⟩ := h.frames
  refine ⟨ht.text_eq ▸ h.texts, chunks, hout, ?_⟩
  intro channel
  cases channel with
  | text => exact ht.own_eq
  | reasoning => exact hr.own_eq

end Midway

namespace Execution

theorem frames_concat (bs : List (World × World)) (b : World × World) :
    frames (bs ++ [b]) = frames bs ++ newFrames b.1 b.2 := by
  rw [frames, List.map_append, List.flatten_append, List.map_singleton, List.flatten_singleton]
  rfl

/-- A block that writes nothing. -/
theorem frames_quiet (bs : List (World × World)) {w w' : World} (h : w'.frames = w.frames) :
    frames (bs ++ [(w, w')]) = frames bs := by
  have hnone : newFrames w w' = [] := by rw [newFrames, h, List.drop_length]
  rw [frames_concat, hnone, List.append_nil]

theorem frames_write (bs : List (World × World)) {w w' : World} (h : w'.frames = w.frames)
    (f : Frame) : frames (bs ++ [(w, w'.write f)]) = frames bs ++ [f] := by
  rw [frames_concat, newFrames_write h]

end Execution

namespace Midway

variable {message : ModelMessage} {msgId : String} {seen later : List Entries}
  {text reasoning : TextBuffer} {out : List Frame} {w w' : World} {event : Entries} {token : String}

theorem keepReasoning (h : Midway msgId seen text reasoning out w)
    (hevent : readDelta event = .token .reasoning token)
    (hlen : ¬ (reasoning.append token).length - (reasoning.append token).flushed ≥
      reasoningFlushChars) :
    Midway msgId (seen ++ [event]) text (reasoning.append token) out w := by
  obtain ⟨chunks, hout, ht, hr⟩ := h.frames
  have hskip : (readDelta event).tokenOf .text = none := by rw [hevent]; rfl
  have htoken : (readDelta event).tokenOf .reasoning = some token := by rw [hevent]; rfl
  exact ⟨h.texts, chunks, hout, ht.skip hskip, hr.keep htoken hlen⟩

theorem flushReasoning (h : Midway msgId seen text reasoning out w)
    (hevent : readDelta event = .token .reasoning token)
    (hlen : (reasoning.append token).length - (reasoning.append token).flushed ≥
      reasoningFlushChars) :
    Midway msgId (seen ++ [event]) text (reasoning.append token).flush
      (out ++ [chunkFrame w.self.threadId msgId ((reasoning.append token).chunk .reasoning)])
      (w.write
        (chunkFrame w.self.threadId msgId ((reasoning.append token).chunk .reasoning))) := by
  obtain ⟨chunks, hout, ht, hr⟩ := h.frames
  have hskip : (readDelta event).tokenOf .text = none := by rw [hevent]; rfl
  have htoken : (readDelta event).tokenOf .reasoning = some token := by rw [hevent]; rfl
  exact ⟨h.texts, _, hout.append [_], (ht.skip hskip).other nofun, hr.flush htoken hlen⟩

theorem keepText (h : Midway msgId seen text reasoning out w)
    (hevent : readDelta event = .token .text token)
    (hlen : ¬ (text.append token).length - (text.append token).flushed ≥ chunkFlushChars) :
    Midway msgId (seen ++ [event]) (text.append token) reasoning out
      (captured w msgId (text.append token).text) := by
  obtain ⟨chunks, hout, ht, hr⟩ := h.frames
  have hskip : (readDelta event).tokenOf .reasoning = none := by rw [hevent]; rfl
  have htoken : (readDelta event).tokenOf .text = some token := by rw [hevent]; rfl
  exact ⟨texts_captured w msgId _, chunks, hout, ht.keep htoken hlen, hr.skip hskip⟩

theorem flushText (h : Midway msgId seen text reasoning out w)
    (hevent : readDelta event = .token .text token)
    (hlen : (text.append token).length - (text.append token).flushed ≥ chunkFlushChars) :
    Midway msgId (seen ++ [event]) (text.append token).flush reasoning
      (out ++ [chunkFrame (captured w msgId (text.append token).text).self.threadId msgId
        ((text.append token).chunk .text)])
      ((captured w msgId (text.append token).text).write
        (chunkFrame (captured w msgId (text.append token).text).self.threadId msgId
          ((text.append token).chunk .text))) := by
  obtain ⟨chunks, hout, ht, hr⟩ := h.frames
  have hskip : (readDelta event).tokenOf .reasoning = none := by rw [hevent]; rfl
  have htoken : (readDelta event).tokenOf .text = some token := by rw [hevent]; rfl
  exact ⟨texts_captured w msgId _, _, hout.append [_], ht.flush htoken hlen,
    (hr.skip hskip).other nofun⟩

end Midway

/-- The reasoning has landed, the text has not. -/
structure Closing (msgId : String) (seen : List Entries) (text : TextBuffer) (out : List Frame)
    (w : World) : Prop where
  texts : w.self.emittedTexts.get msgId = some text.text
  frames : ∃ chunks, Anchored w.self.threadId msgId out chunks ∧ Written .text seen text chunks ∧
    chunks.filter (fun c => c.channel = .reasoning) =
      encoded .reasoning true (tokens .reasoning seen)

namespace Closing

variable {msgId : String} {seen : List Entries} {text reasoning : TextBuffer} {out : List Frame}
  {w w' : World}

theorem of_env (h : Closing msgId seen text out w) (henv : Spares msgId w w') :
    Closing msgId seen text out w' where
  texts := henv.texts.trans h.texts
  frames := by
    rw [henv.threadId]
    exact h.frames

theorem of_midway (h : Midway msgId seen text reasoning out w) :
    Closing msgId seen text
      (out ++ (reasoning.tail .reasoning).map (chunkFrame w.self.threadId msgId)) w := by
  obtain ⟨chunks, hout, ht, hr⟩ := h.frames
  have hothers : ∀ chunk ∈ reasoning.tail .reasoning, chunk.channel ≠ .text :=
    fun chunk hchunk => TextBuffer.channel_of_mem_tail hchunk ▸ nofun
  exact ⟨h.texts, _, hout.append _, ht.others hothers, hr.landed⟩

theorem delivered (h : Closing msgId seen text out w) :
    Delivered msgId seen (fun channel => channel = .reasoning) out w := by
  obtain ⟨chunks, hout, ht, hr⟩ := h.frames
  refine ⟨ht.text_eq ▸ h.texts, chunks, hout, ?_⟩
  intro channel
  cases channel with
  | text => exact ht.own_eq
  | reasoning => exact hr

theorem landed (h : Closing msgId seen text out w) :
    Delivered msgId seen (fun _ => true)
      (out ++ (text.tail .text).map (chunkFrame w.self.threadId msgId)) w := by
  obtain ⟨chunks, hout, ht, hr⟩ := h.frames
  refine ⟨ht.text_eq ▸ h.texts, _, hout.append _, ?_⟩
  intro channel
  cases channel with
  | text => exact ht.landed
  | reasoning => rw [List.filter_append, hr, filter_tail, if_neg nofun, List.append_nil]

end Closing

variable {message : ModelMessage} {msgId : String}

/-- The writer takes a chunk from the loop. -/
theorem along_flush {seen later : List Entries} {text reasoning : TextBuffer}
    {h : List (World × World)} {s₀ s : World} {chunk : Chunk}
    (hevents : message.events.items = seen ++ later)
    (hmid : Midway msgId seen text reasoning
      (Execution.frames h ++ [chunkFrame s.self.threadId msgId chunk])
      (s.write (chunkFrame s.self.threadId msgId chunk)))
    (hquiet : s.frames = s₀.frames)
    (hnext : ∀ {h s}, Midway msgId seen text reasoning (Execution.frames h) s →
      (messageWatch message msgId).Along
        (streamDeltas msgId none message.events.error later text reasoning).code h s s) :
    (messageWatch message msgId).Along
      (do
        emitMessageChunk msgId chunk.channel chunk.seq chunk.text none
        streamDeltas msgId none message.events.error later text reasoning : Task Unit).code
      h s₀ s := by
  rw [← Execution.frames_write h hquiet] at hmid
  refine ⟨.inr ⟨seen, later, _, hmid.delivered.onStream hevents (.writer later text reasoning)⟩, ?_⟩
  intro s' henv _
  exact hnext (hmid.of_env henv)

/-- What is left in a buffer goes to the writer. -/
theorem along_landTail {channel : ChunkChannel} {b : TextBuffer} {k : Unit → TaskCode}
    {W : Watch TaskName World PyException} {h : List (World × World)} {s₀ s : World}
    (Q : List Frame → World → Prop)
    (htail : Q (Execution.frames h ++
      (b.tail channel).map (chunkFrame s.self.threadId msgId)) s)
    (hquiet : s.frames = s₀.frames) (hwrite : ∀ {out w f}, Q out w → Q out (w.write f))
    (hwait : ∀ {h w}, Q (Execution.frames h) w → W.holds h (.wait (fun _ => true) (k ())) w ∧
      ∀ w', W.env w w' → Q (Execution.frames h) w')
    (hrest : ∀ {h s₀ w}, Q (Execution.frames h) w → w.frames = s₀.frames →
      W.Along (k ()) h s₀ w) :
    W.Along (landTail msgId channel b none k) h s₀ s := by
  rw [landTail]
  rw [TextBuffer.tail] at htail
  split_ifs at htail ⊢ with hlt
  · have hwritten := hwrite (f := chunkFrame s.self.threadId msgId (b.chunk channel)) htail
    rw [List.map_singleton, ← Execution.frames_write h hquiet] at hwritten
    refine ⟨(hwait hwritten).1, ?_⟩
    intro s' henv _
    exact hrest ((hwait hwritten).2 s' henv) rfl
  · rw [List.map_nil, List.append_nil] at htail
    exact hrest htail hquiet

theorem along_landed {seen : List Entries} {text reasoning : TextBuffer}
    {h : List (World × World)} {s₀ s : World} (hevents : message.events.items = seen ++ [])
    (hmid : Midway msgId seen text reasoning (Execution.frames h) s)
    (hquiet : s.frames = s₀.frames) :
    (messageWatch message msgId).Along
      (streamDeltas msgId none message.events.error [] text reasoning).code h s₀ s := by
  cases herror : message.events.error with
  | some exc =>
      have hout := Execution.frames_quiet h hquiet
      exact .inr ⟨seen, [], _, (hout ▸ hmid.delivered).onStream hevents (.broken exc herror)⟩
  | none =>
      apply along_landTail (Closing msgId seen text) (.of_midway hmid) hquiet
      · exact fun hq => ⟨hq.texts, hq.frames⟩
      · intro h w hq
        refine ⟨.inr ⟨seen, [], _, hq.delivered.onStream hevents (.landing text)⟩, ?_⟩
        exact fun w' henv => hq.of_env henv
      · intro h s₀ w hq hquiet
        apply along_landTail (Delivered msgId seen fun _ => true) hq.landed hquiet
        · exact fun hq => ⟨hq.texts, hq.frames⟩
        · intro h w hq
          refine ⟨.inr ⟨seen, [], _, hq.onStream hevents .landed⟩, ?_⟩
          exact fun w' henv => hq.of_env henv
        · intro h s₀ w hq hquiet
          have hout := Execution.frames_quiet h hquiet
          exact .inr ⟨seen, [], _, (hout ▸ hq).onStream hevents .ended⟩

theorem along_streamDeltas (events : List Entries) {seen : List Entries}
    {text reasoning : TextBuffer} {h : List (World × World)} {s₀ s : World}
    (hevents : message.events.items = seen ++ events)
    (hmid : Midway msgId seen text reasoning (Execution.frames h) s)
    (hquiet : s.frames = s₀.frames) :
    (messageWatch message msgId).Along
      (streamDeltas msgId none message.events.error events text reasoning).code h s₀ s := by
  induction events generalizing seen text reasoning h s₀ s with
  | nil => exact along_landed hevents hmid hquiet
  | cons event events ih =>
      rw [← Execution.frames_quiet h hquiet] at hmid
      refine ⟨.inr ⟨seen, event :: events, _,
        hmid.delivered.onStream hevents (.event event events text reasoning)⟩, ?_⟩
      intro s' henv _
      have hmid' := hmid.of_env henv
      have hevents' : message.events.items = seen ++ [event] ++ events := by
        rw [hevents, List.append_assoc, List.singleton_append]
      cases hd : readDelta event with
      | ignored =>
          have htext : (readDelta event).tokenOf .text = none := by rw [hd]; rfl
          have hreasoning : (readDelta event).tokenOf .reasoning = none := by rw [hd]; rfl
          exact ih hevents' (hmid'.ignore htext hreasoning) rfl
      | invalid =>
          have htext : (readDelta event).tokenOf .text = none := by rw [hd]; rfl
          have hreasoning : (readDelta event).tokenOf .reasoning = none := by rw [hd]; rfl
          have hignored := (hmid'.ignore htext hreasoning).delivered
          rw [← Execution.frames_quiet _ (rfl : s'.frames = s'.frames)] at hignored
          exact .inr ⟨seen ++ [event], events, _, hignored.onStream hevents' (.malformed events)⟩
      | token channel token =>
          cases channel with
          | reasoning =>
              simp only
              split_ifs with hlen
              · exact along_flush hevents' (hmid'.flushReasoning hd hlen) rfl
                  fun hnext => ih hevents' hnext rfl
              · exact ih hevents' (hmid'.keepReasoning hd hlen) rfl
          | text =>
              simp only
              split_ifs with hlen
              · exact along_flush hevents' (hmid'.flushText hd hlen) rfl
                  fun hnext => ih hevents' hnext rfl
              · exact ih hevents' (hmid'.keepText hd hlen) rfl

theorem along_anchor {w₀ s : World} {f : Frame} (htype : f.type = .message) (hkey : f.key = msgId)
    (hquiet : s.frames = w₀.frames) (htexts : s.self.emittedTexts.get msgId = some "") :
    (messageWatch message msgId).Along
      (.act (fun w => w.write f) fun _ =>
        .wait (fun _ => true) (streamMessageText message msgId none).code) [] w₀ s := by
  have hmid : Midway msgId [] .empty .empty (Execution.frames [(w₀, s.write f)]) (s.write f) := by
    refine ⟨htexts, [], ⟨f, htype, hkey, ?_⟩, .empty .text, .empty .reasoning⟩
    exact Execution.frames_write [] hquiet f
  refine ⟨.inr ⟨[], message.events.items, _, hmid.delivered.onStream rfl (.writer _ _ _)⟩, ?_⟩
  intro s' henv _
  exact along_streamDeltas message.events.items rfl (hmid.of_env henv) rfl

/-- At every moment the chunks of a message are its anchor's, and a delta encoding of what has been
received on each channel. -/
theorem chunks_encode_deltas {message : ModelMessage} {msgId : String} {w₀ w : World}
    {blocks : List (World × World)} {rest : TaskCode} (hid : message.messageId = some msgId)
    (hne : msgId ≠ "") (hnew : w₀.self.emittedTexts.get msgId = none)
    (htrace : Trace (Spares msgId) (consumeMessage rt message).code w₀ blocks rest w)
    (hstarted : blocks ≠ []) :
    ∃ seen later landed, OnStream message msgId seen later landed blocks rest w := by
  have hwaits : (messageWatch message msgId).Waits (consumeMessage rt message).code [] w₀ := by
    rw [consumeMessage, idOr_some rt _ hne hid]
    apply Watch.waits_act
    intro s henv
    refine along_anchor rfl rfl rfl ?_
    change ((s.self.emittedTexts.setDefault msgId "").get msgId) = some ""
    rw [OrderedDict.get_setDefault, if_pos rfl, henv.texts, hnew]
    rfl
  have hstart : (messageWatch message msgId).holds [] (consumeMessage rt message).code w₀ :=
    .inl rfl
  obtain hnone | hon := (Watch.holds_of_trace hstart hwaits htrace).1
  · exact absurd hnone hstarted
  · exact hon

/-- The tail of the reasoning lands before that of the text. -/
theorem chunks_encode_deltas_thinkingStream :
    tokens .reasoning thinkingStream.events.items = ["why"] ∧
      tokens .text thinkingStream.events.items = ["a", "b"] ∧
      ∃ blocks w, (Execution.frames blocks).map (fun f => (f.key, f.field "text")) =
          [("m", some (.str "")), ("m:r:0", some (.str "why")), ("m:0", some (.str "ab"))] ∧
        ∃ seen later landed, OnStream thinkingStream "m" seen later landed blocks .done w := by
  obtain ⟨blocks, w, htrace, hframes⟩ : ∃ blocks w,
      Trace (Spares "m") (consumeMessage plainRuntime thinkingStream).code
        (.start (.init "t" "r" "summarization-")) blocks .done w ∧
      (Execution.frames blocks).map (fun f => (f.key, f.field "text")) =
        [("m", some (.str "")), ("m:r:0", some (.str "why")), ("m:0", some (.str "ab"))] :=
    ⟨_, _, (((((((Trace.start.resume rfl).resume rfl).resume rfl).resume rfl).resume rfl).resume
      rfl).resume rfl), rfl⟩
  have hstarted : blocks ≠ [] := by
    rintro rfl
    cases hframes
  exact ⟨rfl, rfl, blocks, w, hframes, chunks_encode_deltas rfl (by decide) rfl htrace hstarted⟩

end StreamDB
