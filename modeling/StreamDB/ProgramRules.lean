import StreamDB.DrainCounters

/-!
# Properties of the drains' programs

A property of programs that their constructs keep holds of a whole drain once it holds of the single
steps. `Compositional` asks for the constructs, `GoesAlong` also for the steps that have no part in
the main transcript; what puts a row there is left to the property.
-/

namespace StreamDB

open Coroutine

/-- How many items of a projection the activity takes. -/
def Activity.awaited : Activity → Projection → ℕ
  | .messages feed, .messages => feed.items.length
  | .custom feed, .custom => feed.items.length
  | .toolCalls feed, .toolCalls => feed.items.length
  | .subgraphs feed, .subgraphs => feed.items.length
  | .values feed, .values => feed.items.length
  | _, _ => 0

/-! ## Constructs -/

/-- Programs with the property may be put together, and may wait for what `W` allows. -/
structure Compositional (W : (World → Bool) → Prop) (Φ : ∀ α : Type, Task α → Prop) : Prop where
  pure : ∀ {α : Type} (a : α), Φ α (Pure.pure a)
  raise : ∀ {α : Type} (exc : PyException), Φ α (Proc.raise exc)
  bind : ∀ {α β : Type} {p : Task α} {f : α → Task β}, Φ α p → (∀ a, Φ β (f a)) → Φ β (p >>= f)
  awaiting : ∀ {ready : World → Bool}, W ready → Φ Unit (Proc.awaiting ready)
  awaitingOr : ∀ ready : World → Bool, Φ Bool (Proc.awaitingOr ready)
  always : W fun _ => true

theorem ite_of {Φ : ∀ α : Type, Task α → Prop} {α : Type} {c : Prop} [Decidable c] {p q : Task α}
    (hp : Φ α p) (hq : Φ α q) : Φ α (if c then p else q) := by
  split_ifs
  · exact hp
  · exact hq

namespace Compositional

variable {W : (World → Bool) → Prop} {Φ : ∀ α : Type, Task α → Prop} (h : Compositional W Φ)
  {α : Type}

include h

theorem suspend : Φ Unit Proc.suspend := h.awaiting h.always

theorem close (feed : Feed α) : Φ Unit feed.close := by
  unfold Feed.close
  cases feed.error with
  | none => exact h.pure ()
  | some exc => exact h.raise exc

theorem asyncFor {ready : ℕ → World → Bool} {body : α → Task Unit} {items : List α} {i : ℕ}
    (hready : ∀ j < i + items.length, W (ready j)) (hbody : ∀ item, Φ Unit (body item)) :
    Φ Unit (Proc.asyncFor ready body i items) := by
  induction items generalizing i with
  | nil => exact h.pure ()
  | cons item items ih =>
      rw [List.length_cons] at hready
      apply h.bind (h.awaiting (hready i (by omega)))
      intro _
      apply h.bind (hbody item)
      intro _
      apply ih
      intro j hj
      exact hready j (by omega)

theorem drainProjection {p : Projection} {body : α → Task Unit} {feed : Feed α}
    (hready : ∀ j < feed.items.length, W fun w => decide (j < w.published p))
    (hbody : ∀ item, Φ Unit (body item)) : Φ Unit (drainProjection p body feed) :=
  h.bind (h.asyncFor (fun j hj => hready j (by omega)) hbody) fun _ => h.close feed

theorem drainFeed {body : α → Task Unit} (hbody : ∀ item, Φ Unit (body item)) (feed : Feed α) :
    Φ Unit (drainFeed body feed) :=
  h.bind (h.asyncFor (fun _ _ => h.always) hbody) fun _ => h.close feed

theorem landTail {msgId : String} {channel : ChunkChannel} {b : TextBuffer}
    {agentId : Option String}
    (hchunk : ∀ seq text, Φ Unit (emitMessageChunk msgId channel seq text agentId)) :
    Φ Unit (landTail msgId channel b agentId) :=
  ite_of (hchunk b.seq b.pending) (h.pure ())

/-- The loop of a message captures its text and emits its chunks. -/
theorem streamDeltas {msgId : String} {agentId : Option String} (error : Option PyException)
    (hcapture : ∀ text, Φ Unit (captureText msgId text agentId))
    (hchunk : ∀ channel seq text, Φ Unit (emitMessageChunk msgId channel seq text agentId))
    (events : List Entries) (text reasoning : TextBuffer) :
    Φ Unit (streamDeltas msgId agentId error events text reasoning) := by
  induction events generalizing text reasoning with
  | nil =>
      cases error with
      | some exc => exact h.raise exc
      | none => exact h.bind (h.landTail (hchunk _)) fun _ => h.landTail (hchunk _)
  | cons event events ih =>
      apply h.bind h.suspend
      intro _
      cases readDelta event with
      | ignored => exact ih text reasoning
      | invalid => exact h.raise typeError
      | token channel token =>
          cases channel with
          | reasoning =>
              apply ite_of
              · exact h.bind (hchunk _ _ _) fun _ => ih _ _
              · exact ih _ _
          | text =>
              apply h.bind (hcapture _)
              intro _
              apply ite_of
              · exact h.bind (hchunk _ _ _) fun _ => ih _ _
              · exact ih _ _

/-- The wait for the deltas of a call may be given up. -/
theorem drainOutputDeltas (tc : ToolCallExecution) : Φ ToolSettlement (drainOutputDeltas tc) := by
  apply h.bind (h.awaitingOr _)
  intro drained
  cases drained with
  | false => exact h.pure _
  | true =>
      cases tc.deltasError with
      | none => exact h.pure _
      | some exc => exact h.raise exc

end Compositional

/-- A fact that the others do not take away goes along with the invariant. -/
theorem compositional_triple {P : Protocol TaskName World} {name : TaskName} {I : World → Prop}
    (hinv : ∀ w, I w → P.inv w) (hrely : ∀ w w', I w → P.inv w' → P.rely w w' → I w') :
    Compositional (fun _ => True) fun _ p => Triple P name I p fun _ => I where
  pure _ := triple_pure fun _ h => h
  raise _ := triple_raise hinv
  bind hp hf := triple_bind hp hf
  awaiting _ := triple_awaiting hinv fun w w' h hi hr _ _ => hrely w w' h hi hr
  awaitingOr _ := triple_awaitingOr hinv fun w w' _ h hi hr _ _ => hrely w w' h hi hr
  always := trivial

/-! ## Steps -/

/-- A step that writes nothing and concerns neither the main transcript nor a link. -/
structure Silent {α : Type} (f : World → α × World) : Prop where
  frames : ∀ w, (f w).2.frames = w.frames
  turn : ∀ w, (f w).2.self.emittedTurn = w.self.emittedTurn
  links : ∀ w, (f w).2.self.subagentToolCall = w.self.subagentToolCall
  published : ∀ w p, w.published p ≤ (f w).2.published p

/-- A row outside the main transcript: an auxiliary one, or one of a subagent. -/
def Aside (T : String → Prop) (type : RowType) (row : Row) : Prop :=
  type.auxiliary ∨ ∃ tag, T tag ∧ type ≠ .run ∧
    (row.get "agentId" = some (.str tag) ∨ row.get "agentId" = agentField (some tag))

/-- Subagents are linked to tags in `T`. -/
structure GoesAlong (W : (World → Bool) → Prop) (T : String → Prop)
    (Φ : TaskName → ∀ α : Type, Task α → Prop) : Prop where
  constructs : ∀ name, Compositional W (Φ name)
  silent : ∀ name {α : Type} {f : World → α × World}, Silent f → Φ name α (Proc.atomically f)
  link : ∀ name payload, Φ name Unit (updateSelf (Translator.recordSubagentLink payload))
  row : ∀ name {type : RowType} {key : String} {row : Row} {txid : Option String},
    Aside T type row → Φ name Unit (upsert type key row txid)
  linked : ∀ name subagentId {f : Option String → Task Unit}, Φ name Unit (f none) →
    (∀ tag, T tag → Φ name Unit (f (some tag))) →
      Φ name Unit (subagentAgentId subagentId >>= f)
  spawn : ∀ name {child : TaskName} {p : Task Unit}, Φ child Unit p →
    Φ name Unit (Proc.spawn child p)

namespace GoesAlong

variable {W : (World → Bool) → Prop} {T : String → Prop}
  {Φ : TaskName → ∀ α : Type, Task α → Prop} (h : GoesAlong W T Φ) {name : TaskName}
  {rt : Runtime} {α : Type}

include h

theorem readSelf : Φ name Translator readSelf :=
  h.silent name ⟨fun _ => rfl, fun _ => rfl, fun _ => rfl, fun _ _ => le_rfl⟩

theorem nowMs : Φ name ℤ (nowMs rt) :=
  h.silent name ⟨fun _ => rfl, fun _ => rfl, fun _ => rfl, fun _ _ => le_rfl⟩

theorem freshId (tag : String) : Φ name String (freshId rt tag) :=
  h.silent name ⟨fun _ => rfl, fun _ => rfl, fun _ => rfl, fun _ _ => le_rfl⟩

theorem idOr (tag : String) (value : Option String) : Φ name String (idOr rt tag value) :=
  ite_of (h.freshId tag) ((h.constructs name).pure _)

theorem renderOrder (key : String) : Φ name ℤ (onSelf (Translator.renderOrder key)) :=
  h.silent name ⟨fun _ => rfl, fun _ => rfl, fun _ => rfl, fun _ _ => le_rfl⟩

theorem emitMessageChunk (msgId : String) (channel : ChunkChannel) (seq : ℕ) (text : String)
    (agentId : Option String) : Φ name Unit (emitMessageChunk msgId channel seq text agentId) :=
  (h.constructs name).bind h.readSelf fun _ => h.row name (.inl rfl)

/-! ## Subagents -/

theorem nextSubagentOrdinal (subagentId msgId : String) :
    Φ name ℤ (onSelf (Translator.nextSubagentOrdinal subagentId msgId)) := by
  refine h.silent name ⟨fun _ => rfl, fun w => ?_, fun w => ?_, fun _ _ => le_rfl⟩
  · cases hk : (w.self.msgOrdinals subagentId).get msgId with
    | none => simp [Translator.nextSubagentOrdinal, hk, Translator.emittedTurn]
    | some existing => simp [Translator.nextSubagentOrdinal, hk, Translator.emittedTurn]
  · cases hk : (w.self.msgOrdinals subagentId).get msgId with
    | none => simp [Translator.nextSubagentOrdinal, hk]
    | some existing => simp [Translator.nextSubagentOrdinal, hk]

/-- The message rows of a subagent carry its tag. -/
theorem drainSubagentMessage {tag : String} (ht : T tag) (subagentId : String)
    (message : ModelMessage) : Φ name Unit (drainSubagentMessage rt subagentId tag message) := by
  have C := h.constructs name
  apply ite_of _ (C.pure ())
  apply C.bind (h.idOr _ _)
  intro msgId
  apply C.bind (h.nextSubagentOrdinal subagentId msgId)
  intro ordinal
  apply C.bind h.nowMs
  intro createdAt
  refine C.bind ?_ fun _ => ?_
  · apply C.bind (h.renderOrder msgId)
    intro order
    apply C.bind h.readSelf
    intro t
    exact h.row name (.inr ⟨tag, ht, by simp, .inr (messageRow_agentId _ _ _ _ _ _)⟩)
  · refine C.streamDeltas _ (fun text => ?_) (fun _ _ _ => h.emitMessageChunk _ _ _ _ _) _ _ _
    exact C.pure ()

theorem drainSubagentMessages (subagentId : String) (channel : Feed ModelMessage) :
    Φ name Unit (drainSubagentMessages rt subagentId channel) := by
  have C := h.constructs name
  refine h.linked name subagentId (C.pure ()) fun tag ht => ?_
  exact C.drainFeed (h.drainSubagentMessage ht subagentId) channel

theorem consumeSubagentTool (subagentId : String) (tc : ToolCallExecution) :
    Φ name Unit (consumeSubagentTool rt subagentId tc) := by
  have C := h.constructs name
  refine h.linked name subagentId (C.pure ()) fun tag ht => ?_
  apply C.bind (h.renderOrder tc.toolCallId)
  intro order
  apply C.bind h.readSelf
  intro t
  refine C.bind (h.row name (.inr ⟨tag, ht, by simp, .inl (startedRow_agentId _ _ _ _ _)⟩))
    fun _ => ?_
  apply C.bind (C.drainOutputDeltas tc)
  intro settlement
  apply ite_of (C.pure ())
  exact h.row name (.inr ⟨tag, ht, by simp, .inl (resultRow_agentId _ _ _ _ _ _)⟩)

theorem drainSubagentTools (subagentId : String) (channel : Feed ToolCallExecution) :
    Φ name Unit (drainSubagentTools rt subagentId channel) :=
  (h.constructs name).drainFeed (fun tc => h.spawn name (h.consumeSubagentTool subagentId tc))
    channel

theorem drainSubagentLifecycle (channel : Feed PyValue) :
    Φ name Unit (drainSubagentLifecycle channel) := by
  have C := h.constructs name
  refine C.drainFeed (fun payload => ?_) channel
  cases payload with
  | dict entries => exact ite_of (h.link name entries) (C.pure ())
  | _ => exact C.pure ()

theorem spawnSome {child : TaskName} {drain : α → Task Unit}
    (hdrain : ∀ channel, Φ child Unit (drain channel)) (channel : Option α) :
    Φ name Unit (spawnSome child drain channel) := by
  cases channel with
  | none => exact (h.constructs name).pure ()
  | some channel => exact h.spawn name (hdrain channel)

mutual

theorem drainSubgraphs {ready : ℕ → World → Bool} (error : Option PyException) (i : ℕ)
    (sgs : List Subgraph) (hready : ∀ j < i + sgs.length, W (ready j)) (name : TaskName) :
    Φ name Unit (drainSubgraphs rt ready error i sgs) := by
  have C := h.constructs name
  cases sgs with
  | nil => exact C.close _
  | cons sg sgs =>
      rw [List.length_cons] at hready
      apply C.bind (C.awaiting (hready i (by omega)))
      intro _
      apply C.bind (drainSubgraph sg name)
      intro _
      exact drainSubgraphs error (i + 1) sgs (fun j hj => hready j (by omega)) name

theorem drainSubgraph (sg : Subgraph) (name : TaskName) : Φ name Unit (drainSubgraph rt sg) := by
  have C := h.constructs name
  match sg with
  | .mk graphName triggerCallId messages toolCalls custom none =>
      unfold StreamDB.drainSubgraph
      apply ite_of _ (C.pure ())
      apply C.bind (h.idOr _ _)
      intro subagentId
      apply C.bind (h.spawnSome (h.drainSubagentMessages subagentId) messages)
      intro _
      apply C.bind (h.spawnSome (h.drainSubagentTools subagentId) toolCalls)
      intro _
      exact h.spawnSome h.drainSubagentLifecycle custom
  | .mk graphName triggerCallId messages toolCalls custom (some (sgs, error)) =>
      unfold StreamDB.drainSubgraph
      apply ite_of _ (C.pure ())
      apply C.bind (h.idOr _ _)
      intro subagentId
      apply C.bind (h.spawnSome (h.drainSubagentMessages subagentId) messages)
      intro _
      apply C.bind (h.spawnSome (h.drainSubagentTools subagentId) toolCalls)
      intro _
      apply C.bind (h.spawnSome h.drainSubagentLifecycle custom)
      intro _
      exact h.spawn name (drainSubgraphs error 0 sgs (fun _ _ => C.always) _)

end

/-! ## Custom payloads and state snapshots -/

theorem emitEffect (op : PyValue) : Φ name Unit (emitEffect rt op) := by
  have C := h.constructs name
  apply C.bind (h.freshId _)
  intro effectId
  cases dictOf rt op with
  | none => exact C.raise _
  | some entries => exact h.row name (.inl rfl)

theorem frontendUpdate (toolCallId : Option String) (op : PyValue) :
    Φ name Unit (frontendUpdate rt toolCallId op) := by
  have C := h.constructs name
  unfold StreamDB.frontendUpdate
  split
  · apply ite_of _ (h.emitEffect _)
    unfold emitReport
    split
    · exact C.pure ()
    · exact C.bind h.readSelf fun t => C.bind h.nowMs fun createdAt => h.row name (.inl rfl)
  · exact h.emitEffect _

theorem frontendUpdates (toolCallId : Option String) (ops : List PyValue) :
    Φ name Unit (frontendUpdates rt toolCallId ops) := by
  induction ops with
  | nil => exact (h.constructs name).pure ()
  | cons op ops ih => exact (h.constructs name).bind (h.frontendUpdate toolCallId op) fun _ => ih

theorem emitThreadEffect (kind : String) (active : Option Bool) :
    Φ name Unit (emitThreadEffect rt kind active) :=
  (h.constructs name).bind h.readSelf fun _ => h.emitEffect _

theorem handlePayload (payload : Entries) : Φ name Unit (handlePayload rt payload) := by
  have C := h.constructs name
  have hsummary : Φ name Unit (handleToolSummary payload) := by
    unfold handleToolSummary
    split
    · exact h.row name (.inl rfl)
    · exact C.pure ()
  have haction : Φ name Unit (handleToolAction payload) := by
    unfold handleToolAction
    split
    · exact C.bind h.readSelf fun _ => h.row name (.inl rfl)
    · exact C.pure ()
  have hend : Φ name Unit (handleToolEnd rt payload) := by
    unfold handleToolEnd
    split
    · exact h.frontendUpdates _ _
    · exact C.pure ()
  apply ite_of hsummary
  apply ite_of haction
  apply ite_of hend
  apply ite_of (C.raise _)
  apply ite_of (C.pure ())
  apply ite_of (h.link name payload)
  apply ite_of (C.pure ())
  apply ite_of (h.emitThreadEffect _ _)
  apply ite_of (h.emitThreadEffect _ _)
  apply ite_of (h.emitThreadEffect _ _)
  exact h.emitEffect _

theorem streamSnapshots (error : Option PyException) {snapshots : List PyValue}
    {prev : Option Entries} {i : ℕ}
    (hready : ∀ j < i + snapshots.length, W fun w => decide (j < w.published .values)) :
    Φ name Unit (streamSnapshots error i prev snapshots) := by
  have C := h.constructs name
  induction snapshots generalizing i prev with
  | nil => exact C.close _
  | cons rawState rest ih =>
      rw [List.length_cons] at hready
      have hrest : ∀ prev, Φ name Unit (StreamDB.streamSnapshots error (i + 1) prev rest) :=
        fun prev => ih fun j hj => hready j (by omega)
      apply C.bind (C.awaiting (hready i (by omega)))
      intro _
      cases rawState with
      | dict state =>
          apply ite_of (hrest _)
          exact C.bind h.readSelf fun t => C.bind (h.row name (.inl rfl)) fun _ => hrest _
      | _ => exact hrest _

/-! ## Activities -/

theorem publishAll (events : List Projection) : Φ name Unit (publishAll events) := by
  have C := h.constructs name
  induction events with
  | nil => exact C.pure ()
  | cons p ps ih =>
      apply C.bind C.suspend
      intro _
      refine C.bind (h.silent name ⟨fun _ => rfl, fun _ => rfl, fun _ => rfl, fun w q => ?_⟩)
        fun _ => ih
      simp only [World.publish]
      split_ifs
      · exact Nat.le_succ _
      · exact le_rfl

/-- The three programs that put rows on the main transcript are left to the property. -/
theorem activity {a : Activity}
    (hready : ∀ p, ∀ j < a.awaited p, W fun w => decide (j < w.published p))
    (huser : ∀ msgId text attachments,
      Φ .userMessage Unit (emitUserMessage rt msgId text attachments))
    (hmessage : ∀ message, Φ .messages Unit (consumeMessage rt message))
    (hcall : ∀ tc, Φ (.toolCall tc) Unit (consumeToolCallExecution rt tc)) :
    Φ a.name Unit (a.task rt) := by
  have C := h.constructs a.name
  cases a with
  | source events => exact h.publishAll events
  | userMessage msgId text attachments => exact huser msgId text attachments
  | messages feed =>
      refine C.drainProjection (hready .messages) fun message => ?_
      exact C.bind h.readSelf fun t => ite_of (hmessage message) (C.pure ())
  | custom feed =>
      refine C.drainProjection (hready .custom) fun payload => ?_
      cases payload with
      | dict entries => exact h.handlePayload entries
      | _ => exact C.pure ()
  | toolCalls feed =>
      exact C.drainProjection (hready .toolCalls) fun tc => h.spawn _ (hcall tc)
  | subgraphs feed =>
      refine h.drainSubgraphs _ 0 _ (fun j hj => hready .subgraphs j ?_) _
      simpa [Activity.awaited] using hj
  | values feed =>
      refine h.streamSnapshots _ fun j hj => hready .values j ?_
      simpa [Activity.awaited] using hj

end GoesAlong

end StreamDB
