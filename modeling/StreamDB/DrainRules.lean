import StreamDB.ChunkRows
import StreamDB.RelyGuarantee
import StreamDB.RowSources

/-!
# Draining under a protocol

A task that drains a stream keeps a protocol if it does so for every item of the stream; streaming
a message does if capturing its text and emitting its chunks do; and the drain of a tree of
subagents does if the three drains of each of them do.
-/

namespace StreamDB

open Coroutine

variable {rt : Runtime} {P : Protocol TaskName World} {name : TaskName} {α : Type}

theorem preserves_close (feed : Feed α) : Preserves P name feed.close := by
  unfold Feed.close
  cases feed.error with
  | none => exact preserves_pure ()
  | some exc => exact preserves_raise exc

theorem preserves_drainProjection {p : Projection} {body : α → Task Unit} {feed : Feed α}
    (hbody : ∀ item ∈ feed.items, Preserves P name (body item)) :
    Preserves P name (drainProjection p body feed) :=
  preserves_bind (preserves_asyncFor hbody 0) fun _ => preserves_close feed

theorem preserves_drainFeed {body : α → Task Unit} {feed : Feed α}
    (hbody : ∀ item ∈ feed.items, Preserves P name (body item)) :
    Preserves P name (drainFeed body feed) :=
  preserves_bind (preserves_asyncFor hbody 0) fun _ => preserves_close feed

/-! ## Streaming a message -/

section Message

variable {msgId : String} {agentId : Option String}

theorem preserves_landTail {channel : ChunkChannel} {b : TextBuffer}
    (htail : ∀ chunk ∈ b.tail channel,
      Preserves P name (emitMessageChunk msgId chunk.channel chunk.seq chunk.text agentId)) :
    Preserves P name (landTail msgId channel b agentId) := by
  apply preserves_ite_of
  · intro hlen
    rw [TextBuffer.tail, if_pos hlen, List.forall_mem_singleton] at htail
    exact htail
  · exact fun _ => preserves_pure ()

/-- The loop emits the chunks that are left. -/
theorem preserves_streamDeltas (error : Option PyException)
    (hcapture : ∀ text, Preserves P name (captureText msgId text agentId))
    {events : List Entries} {text reasoning : TextBuffer}
    (hchunks : ∀ chunk ∈ chunks events text reasoning,
      Preserves P name (emitMessageChunk msgId chunk.channel chunk.seq chunk.text agentId)) :
    Preserves P name (streamDeltas msgId agentId error events text reasoning) := by
  induction events generalizing text reasoning with
  | nil =>
      rw [chunks, List.forall_mem_append] at hchunks
      cases error with
      | some exc => exact preserves_raise exc
      | none =>
          exact preserves_bind (preserves_landTail hchunks.1)
            fun _ => preserves_landTail hchunks.2
  | cons event events ih =>
      apply preserves_bind preserves_suspend
      intro _
      cases hd : readDelta event with
      | ignored =>
          simp only [chunks, hd] at hchunks
          exact ih hchunks
      | invalid => exact preserves_raise typeError
      | token channel token =>
          cases channel with
          | reasoning =>
              simp only [chunks, hd] at hchunks
              apply preserves_ite_of
              · intro hlen
                rw [if_pos hlen, List.forall_mem_cons] at hchunks
                exact preserves_bind hchunks.1 fun _ => ih hchunks.2
              · intro hlen
                rw [if_neg hlen] at hchunks
                exact ih hchunks
          | text =>
              simp only [chunks, hd] at hchunks
              apply preserves_bind (hcapture _)
              intro _
              apply preserves_ite_of
              · intro hlen
                rw [if_pos hlen, List.forall_mem_cons] at hchunks
                exact preserves_bind hchunks.1 fun _ => ih hchunks.2
              · intro hlen
                rw [if_neg hlen] at hchunks
                exact ih hchunks

end Message

/-! ## Subagents -/

theorem preserves_spawnSome {child : TaskName} {drain : α → Task Unit} {channel : Option α}
    (hdrain : ∀ c, channel = some c → ∀ w, Stable P (child, (drain c).code) w) :
    Preserves P name (spawnSome child drain channel) := by
  cases channel with
  | none => exact preserves_pure ()
  | some c => exact preserves_spawn_of_stable (hdrain c rfl)

/-- The drains of a subagent's own projections keep the protocol. -/
structure DrainsKeep (rt : Runtime) (P : Protocol TaskName World) (sg : Subgraph)
    (subagentId : String) : Prop where
  messages : ∀ channel, sg.messages = some channel → ∀ w, Stable P
    (.subagentMessages subagentId, (drainSubagentMessages rt subagentId channel).code) w
  toolCalls : ∀ channel, sg.toolCalls = some channel → ∀ w, Stable P
    (.subagentTools subagentId, (drainSubagentTools rt subagentId channel).code) w
  custom : ∀ channel, sg.custom = some channel → ∀ w, Stable P
    (.subagentLifecycle subagentId, (drainSubagentLifecycle channel).code) w

/-- A uuid may be drawn at any time. -/
def DrawsIds (P : Protocol TaskName World) : Prop :=
  ∀ (name : TaskName) (w : World), P.inv w →
    P.guarantee name w { w with uuids := w.uuids + 1 } ∧ P.inv { w with uuids := w.uuids + 1 }

/-- The id a message or a subagent goes by. -/
theorem preserves_idOr_bind (hids : DrawsIds P) {tag : String} {value : Option String}
    {f : String → Task α}
    (hf : ∀ id, ResolvesTo rt tag value id → Preserves P name (f id)) :
    Preserves P name (idOr rt tag value >>= f) := by
  unfold idOr
  split_ifs with habsent
  · refine preserves_bind_of (Q := ResolvesTo rt tag value) ?_ hf
    exact triple_atomically fun w hw =>
      ⟨(hids name w hw).1, (hids name w hw).2, .fresh habsent w.uuids⟩
  · exact hf _ (.given habsent)

theorem preserves_spawnDrains {sg : Subgraph} {subagentId : String}
    (hdrains : DrainsKeep rt P sg subagentId) {rest : Task Unit} (hrest : Preserves P name rest) :
    Preserves P name (do
      spawnSome (.subagentMessages subagentId) (drainSubagentMessages rt subagentId) sg.messages
      spawnSome (.subagentTools subagentId) (drainSubagentTools rt subagentId) sg.toolCalls
      spawnSome (.subagentLifecycle subagentId) drainSubagentLifecycle sg.custom
      rest) := by
  apply preserves_bind (preserves_spawnSome hdrains.messages)
  intro _
  apply preserves_bind (preserves_spawnSome hdrains.toolCalls)
  intro _
  apply preserves_bind (preserves_spawnSome hdrains.custom)
  intro _
  exact hrest

mutual

theorem preserves_drainSubgraphs (hids : DrawsIds P) (ready : ℕ → World → Bool)
    (error : Option PyException) (i : ℕ) (sgs : List Subgraph)
    (hdrains : ∀ sg, sg.Within sgs → sg.isSubagent → ∀ subagentId,
      ResolvesTo rt "sa_" sg.triggerCallId subagentId → DrainsKeep rt P sg subagentId)
    (name : TaskName) : Preserves P name (drainSubgraphs rt ready error i sgs) := by
  cases sgs with
  | nil => exact preserves_close _
  | cons sg sgs =>
      apply preserves_bind (preserves_awaiting _)
      intro _
      apply preserves_bind (preserves_drainSubgraph hids sg
        (fun sg' hw => hdrains sg' (hw.elim (fun he => he ▸ .here List.mem_cons_self)
          fun ⟨_, _, ha, hn, hi⟩ => .deeper List.mem_cons_self ha hn hi)) name)
      intro _
      exact preserves_drainSubgraphs hids ready error (i + 1) sgs
        (fun sg' hw => hdrains sg' hw.cons) name

theorem preserves_drainSubgraph (hids : DrawsIds P) (sg : Subgraph)
    (hdrains : ∀ sg', (sg' = sg ∨ ∃ inner error, sg.isSubagent ∧
        sg.nested = some (inner, error) ∧ sg'.Within inner) → sg'.isSubagent → ∀ subagentId,
      ResolvesTo rt "sa_" sg'.triggerCallId subagentId → DrainsKeep rt P sg' subagentId)
    (name : TaskName) : Preserves P name (drainSubgraph rt sg) := by
  match sg with
  | .mk graphName triggerCallId messages toolCalls custom none =>
      unfold drainSubgraph
      apply preserves_ite_of
      · intro agent
        apply preserves_idOr_bind hids
        intro subagentId hid
        have hown := hdrains _ (.inl rfl) agent subagentId hid
        have hspawned : Preserves P name _ := preserves_spawnDrains hown (preserves_pure ())
        exact hspawned
      · exact fun _ => preserves_pure ()
  | .mk graphName triggerCallId messages toolCalls custom (some (sgs, error)) =>
      unfold drainSubgraph
      apply preserves_ite_of
      · intro agent
        apply preserves_idOr_bind hids
        intro subagentId hid
        have hown := hdrains _ (.inl rfl) agent subagentId hid
        exact preserves_spawnDrains hown (preserves_spawn (preserves_drainSubgraphs hids _ error 0
          sgs (fun sg' hw => hdrains sg' (.inr ⟨sgs, error, agent, rfl, hw⟩)) _))
      · exact fun _ => preserves_pure ()

end

theorem preserves_streamSubgraphs (hids : DrawsIds P) {subgraphs : Feed Subgraph}
    (hdrains : ∀ sg, sg.Within subgraphs.items → sg.isSubagent → ∀ subagentId,
      ResolvesTo rt "sa_" sg.triggerCallId subagentId → DrainsKeep rt P sg subagentId) :
    Preserves P name (streamSubgraphs rt subgraphs) :=
  preserves_drainSubgraphs hids _ _ _ _ hdrains name

end StreamDB
