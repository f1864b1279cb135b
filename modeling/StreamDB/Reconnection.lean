import StreamDB.Rereading
import StreamDB.Salvage

/-!
# Clients that read the stream again

A client that joins again reads frames it has applied before. A frame carries the whole row of its
key, and a chunk has a key of its own, so that nothing is shown twice: as soon as the client has
come as far as it had been, its rows and its texts are those of a client that never went away.
-/

namespace StreamDB

open Coroutine LastWriter

/-- A frame as the store sees it. -/
def Frame.post (f : Frame) : RowType × String × Option Row := (f.type, f.change)

theorem collectAll_post (frames : List Frame) (type : RowType) :
    collectAll (frames.map Frame.post) type = collection type frames := by
  rw [collectAll_eq, List.filter_map, List.map_map]
  rfl

def readBack (held : OrderedDict String Row) (msgId : String) (channel : ChunkChannel) : String :=
  joinTexts (inOrder rowSeq (held.values.filter (isChunkOf msgId channel)))

/-! ## Chunks of a run -/

section ChunkRow

variable {threadId msgId : String} {channel : ChunkChannel} {n : ℕ} {text : String}
  {agentId : Option String}

theorem chunkRow_seq : (chunkRow threadId msgId channel n text agentId).get "seq" =
    some (.int n) := by
  simp [chunkRow, OrderedDict.ofEntries, OrderedDict.get_set, OrderedDict.get_setSome]

theorem rowChannel_chunkRow :
    rowChannel (chunkRow threadId msgId channel n text agentId) = channel := by
  rw [rowChannel, chunkRow_channel]
  cases channel with
  | text => rfl
  | reasoning => rfl

theorem key_of_isChunkOf {msgId' : String} {channel' : ChunkChannel}
    (h : isChunkOf msgId' channel' (chunkRow threadId msgId channel n text agentId)) :
    chunkId msgId channel n = chunkId msgId' channel'
      (rowSeq (chunkRow threadId msgId channel n text agentId)).toNat := by
  rw [isChunkOf, chunkRow_messageId, rowChannel_chunkRow, Bool.and_eq_true,
    decide_eq_true_iff] at h
  have hid : msgId = msgId' := of_decide_eq_true h.1
  rw [rowSeq, chunkRow_seq, hid, h.2]
  rfl

end ChunkRow

variable {rt : Runtime} {threadId runId summaryPrefix : String} {s t : ℤ}
  {activities : List Activity} {c : System} {allowed : TaskName → World → Prop}

theorem chunkRow_of_written {E : Setting} {name : TaskName} {f : Frame} (h : E.WrittenBy name f)
    (hchunk : f.type = .messageChunk) : ∃ msgId channel seq text agentId,
      f = upsertFrame .messageChunk (chunkId msgId channel seq)
        (chunkRow E.threadId msgId channel seq text agentId) none := by
  cases h with
  | chunk _ channel seq text => exact ⟨_, channel, seq, text, _, rfl⟩
  | custom _ row =>
      cases row with
      | _ => cases hchunk
  | _ => cases hchunk

/-- Of a message and a channel, the store holds one chunk of each number. -/
theorem chunk_number_unique {frames : List Frame} {E : Setting}
    (hwritten : ∀ f ∈ frames, ∃ name, E.WrittenBy name f) {msgId : String}
    {channel : ChunkChannel} :
    ∀ v ∈ (collection .messageChunk frames).values,
      ∀ w ∈ (collection .messageChunk frames).values, isChunkOf msgId channel v →
        isChunkOf msgId channel w → rowSeq v = rowSeq w → v = w := by
  have hkey : ∀ k v, (collection .messageChunk frames).get k = some v → isChunkOf msgId channel v →
      k = chunkId msgId channel (rowSeq v).toNat := by
    intro k v hk hv
    obtain ⟨f, hf, hchange⟩ := List.mem_map.mp (mem_of_get_collect hk)
    obtain ⟨hf, hchunk⟩ := List.mem_filter.mp hf
    obtain ⟨name, hname⟩ := hwritten f hf
    obtain ⟨_, _, _, _, _, rfl⟩ := chunkRow_of_written hname (of_decide_eq_true hchunk)
    cases hchange
    exact key_of_isChunkOf hv
  intro v hv w hw hvsel hwsel hseq
  obtain ⟨k, hk⟩ := OrderedDict.mem_values_iff.mp hv
  obtain ⟨k', hk'⟩ := OrderedDict.mem_values_iff.mp hw
  rw [hkey k v hk hvsel, hseq, ← hkey k' w hk' hwsel, hk'] at hk
  exact (Option.some.inj hk).symm

/-! ## Readers -/

/-- What a client that has read the stream in pieces holds: every row that is not written again
between its place and the furthest it has been at, and, once it is there again, every text. -/
structure UpToDate (frames : List Frame) (r : Reader RowType String Row) : Prop where
  row : ∀ type key,
    (∀ f ∈ (frames.take r.furthest).drop r.offset, ¬ (f.type = type ∧ f.key = key)) →
      (r.held type).get key = (collection type (frames.take r.offset)).get key
  text : r.furthest ≤ r.offset → ∀ msgId channel,
    readBack (r.held .messageChunk) msgId channel =
      reassembled (frames.take r.offset) msgId channel

theorem Frame.mem_ahead {frames : List Frame} {r : Reader RowType String Row}
    {write : RowType × String × Option Row} (h : write ∈ r.ahead (frames.map Frame.post)) :
    ∃ f ∈ (frames.take r.furthest).drop r.offset, f.post = write := by
  rw [Reader.ahead, ← List.map_take, ← List.map_drop] at h
  exact List.mem_map.mp h

/-- However often a client goes back, it is up to date with what the run has written. -/
theorem upToDate_of_reaches
    (h : Reaches allowed
      (startSystem rt (Translator.seeded threadId runId summaryPrefix s t) activities) c)
    {r : Reader RowType String Row} (hr : r.Reads (c.state.frames.map Frame.post)) :
    UpToDate c.state.frames r := by
  have hsound := hr.sound
  have hcollect : ∀ type, collectAll ((c.state.frames.map Frame.post).take r.offset) type =
      collection type (c.state.frames.take r.offset) := by
    intro type
    rw [← List.map_take, collectAll_post]
  constructor
  · intro type key hahead
    rw [← hcollect]
    apply hsound.current
    intro write hwrite hkey
    obtain ⟨f, hf, rfl⟩ := Frame.mem_ahead hwrite
    exact hahead f hf ⟨congrArg Prod.fst hkey, congrArg Prod.snd hkey⟩
  · intro hfar msgId channel
    have hwritten : ∀ f ∈ c.state.frames.take r.offset, ∃ name,
        (settingOf rt threadId summaryPrefix activities allowed).WrittenBy name f :=
      fun f hf => written_of_reaches h f (List.mem_of_mem_take hf)
    have hget : ∀ k, (collection .messageChunk (c.state.frames.take r.offset)).get k =
        (r.held .messageChunk).get k := by
      intro k
      rw [hsound.caught_up hfar, hcollect]
    exact congrArg joinTexts
      (inOrder_congr hget (chunk_number_unique hwritten)).symm

def rejoined : Reader RowType String Row :=
  ((Reader.start.follow (shortenedRun.final.state.frames.map Frame.post)
    [.read, .read, .rejoin 0, .read, .read, .read]).get (by decide))

theorem upToDate_of_reaches_rejoined :
    readBack (rejoined.held .messageChunk) "m" .text =
        String.ofList (List.replicate 80 'x') ++ "y" ∧
      UpToDate shortenedRun.final.state.frames rejoined := by
  have hreads : rejoined.Reads (shortenedRun.final.state.frames.map Frame.post) :=
    Reader.Reads.start.follow (Option.some_get _).symm
  exact ⟨by decide, upToDate_of_reaches (reaches_of_follow shortenedRun.follows) hreads⟩

end StreamDB
