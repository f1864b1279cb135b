import StreamDB.ChunkRows
import StreamDB.LandedResults
import StreamDB.Traces

/-!
# Delta encoding

What a message has on the stream at any moment while it is consumed: its anchor, and on each of
the two channels the pieces into which the tokens of that channel have been cut so far. What is
still pending is shorter than a piece, and is landed when the stream ends.
-/

namespace StreamDB

open Coroutine Coalescing

/-! ## Encoded tokens -/

/-- The chunks of one channel, before or after its tail has landed. -/
def encoded (channel : ChunkChannel) (landed : Bool) (tokens : List String) : List Chunk :=
  numbered channel 0 (sent (flushChars channel) landed (tokens.map String.toList))

/-- The chunks are a delta encoding of the tokens, a short rest of which may be pending. -/
structure DeltaEncoding (channel : ChunkChannel) (landed : Bool) (tokens : List String)
    (chunks : List Chunk) : Prop where
  seqs : chunks.map Chunk.seq = List.range chunks.length
  lossless : ∃ pending, String.join tokens = String.join (chunks.map Chunk.text) ++ pending ∧
    pending.toList.length < flushChars channel ∧ (landed = true → pending = "")
  nonempty : ∀ chunk ∈ chunks, chunk.text ≠ ""
  long : ∀ chunk ∈ chunks.dropLast, flushChars channel ≤ chunk.text.toList.length

theorem numbered_concat (channel : ChunkChannel) (n : ℕ) (ps : List (List Char))
    (piece : List Char) :
    numbered channel n (ps ++ [piece]) =
      numbered channel n ps ++ [⟨channel, n + ps.length, String.ofList piece⟩] := by
  induction ps generalizing n with
  | nil => rfl
  | cons p ps ih =>
      rw [List.cons_append, numbered, ih, numbered, List.length_cons, List.cons_append,
        Nat.add_assoc, Nat.add_comm 1]

theorem map_text_numbered (channel : ChunkChannel) (n : ℕ) (ps : List (List Char)) :
    (numbered channel n ps).map Chunk.text = ps.map String.ofList := by
  induction ps generalizing n with
  | nil => rfl
  | cons p ps ih => rw [numbered, List.map_cons, ih, List.map_cons]

theorem map_seq_numbered (channel : ChunkChannel) (n : ℕ) (ps : List (List Char)) :
    (numbered channel n ps).map Chunk.seq = List.range' n ps.length := by
  induction ps generalizing n with
  | nil => rfl
  | cons p ps ih => rw [numbered, List.map_cons, ih, List.length_cons, List.range'_succ]

theorem length_numbered (channel : ChunkChannel) (n : ℕ) (ps : List (List Char)) :
    (numbered channel n ps).length = ps.length := by
  rw [← List.length_map Chunk.text, map_text_numbered, List.length_map]

theorem dropLast_numbered (channel : ChunkChannel) (n : ℕ) (ps : List (List Char)) :
    (numbered channel n ps).dropLast = numbered channel n ps.dropLast := by
  induction ps using List.reverseRecOn with
  | nil => rfl
  | append_singleton ps piece _ => rw [numbered_concat, List.dropLast_concat, List.dropLast_concat]

theorem join_map_ofList (ps : List (List Char)) :
    String.join (ps.map String.ofList) = String.ofList ps.flatten := by
  rw [← String.toList_inj, String.toList_join, String.toList_ofList, List.flatMap_map]
  simp only [String.toList_ofList]
  exact List.flatMap_id'

theorem join_eq_ofList (tokens : List String) :
    String.join tokens = String.ofList (tokens.map String.toList).flatten := by
  have hid : String.ofList ∘ String.toList = id := funext fun _ => String.ofList_toList
  rw [← join_map_ofList, List.map_map, hid, List.map_id]

/-- Cut into pieces, the tokens are neither lost nor held back for long. -/
theorem deltaEncoding_encoded (channel : ChunkChannel) (landed : Bool) (tokens : List String) :
    DeltaEncoding channel landed tokens (encoded channel landed tokens) := by
  have hpos := flushChars_pos channel
  constructor
  · rw [encoded, map_seq_numbered, length_numbered, List.range_eq_range']
  · obtain ⟨pending, hflatten, hlength, hlanded⟩ :=
      flatten_sent hpos landed (tokens.map String.toList)
    refine ⟨String.ofList pending, ?_, ?_, fun h => ?_⟩
    · rw [encoded, map_text_numbered, join_map_ofList, join_eq_ofList, hflatten,
        String.ofList_append]
    · rw [String.toList_ofList]
      exact hlength
    · rw [hlanded h, String.ofList_nil]
  · intro chunk hchunk
    obtain ⟨i, piece, hpiece, rfl⟩ := mem_numbered.mp hchunk
    rw [ne_eq, ← String.toList_inj, String.toList_ofList]
    exact ne_nil_of_mem_sent hpos landed _ piece (List.mem_of_getElem? hpiece)
  · intro chunk hchunk
    rw [encoded, dropLast_numbered] at hchunk
    obtain ⟨i, piece, hpiece, rfl⟩ := mem_numbered.mp hchunk
    rw [String.toList_ofList]
    exact le_length_of_mem_dropLast_sent landed _ piece (List.mem_of_getElem? hpiece)

/-! ## One channel of the loop -/

def received (channel : ChunkChannel) (events : List Entries) : List (List Char) :=
  (tokens channel events).map String.toList

theorem received_concat (channel : ChunkChannel) (events : List Entries) (event : Entries) :
    received channel (events ++ [event]) =
      received channel events ++ received channel [event] := by
  rw [received, tokens, List.filterMap_append, List.map_append]
  rfl

theorem received_skip {channel : ChunkChannel} {event : Entries}
    (h : (readDelta event).tokenOf channel = none) (events : List Entries) :
    received channel (events ++ [event]) = received channel events := by
  have hnone : received channel [event] = [] :=
    congrArg (List.map String.toList) (tokens_skip h [])
  rw [received_concat, hnone, List.append_nil]

theorem received_token {channel : ChunkChannel} {event : Entries} {token : String}
    (h : (readDelta event).tokenOf channel = some token) (events : List Entries) :
    received channel (events ++ [event]) = received channel events ++ [token.toList] := by
  have hone : received channel [event] = [token.toList] :=
    congrArg (List.map String.toList) (tokens_token h [])
  rw [received_concat, hone]

theorem TextBuffer.channel_of_mem_tail {b : TextBuffer} {channel : ChunkChannel} {chunk : Chunk}
    (h : chunk ∈ b.tail channel) : chunk.channel = channel := by
  rw [tail] at h
  split_ifs at h
  · rw [List.mem_singleton.mp h]
    rfl
  · cases h

/-- A buffer and the chunks written so far, after some events. -/
structure Written (channel : ChunkChannel) (seen : List Entries) (b : TextBuffer)
    (chunks : List Chunk) : Prop where
  text : b.text.toList = (received channel seen).flatten
  flushes : b.Flushes
  pending : b.pendingChars = (cut (flushChars channel) (received channel seen)).2
  seq : b.seq = (cut (flushChars channel) (received channel seen)).1.length
  own : chunks.filter (fun c => c.channel = channel) =
    numbered channel 0 (cut (flushChars channel) (received channel seen)).1

namespace Written

variable {channel : ChunkChannel} {seen : List Entries} {b : TextBuffer} {chunks : List Chunk}

theorem empty (channel : ChunkChannel) : Written channel [] .empty [] where
  text := rfl
  flushes := Nat.zero_le _
  pending := rfl
  seq := rfl
  own := rfl

theorem skip (h : Written channel seen b chunks) {event : Entries}
    (hevent : (readDelta event).tokenOf channel = none) :
    Written channel (seen ++ [event]) b chunks := by
  have hsame := received_skip hevent seen
  exact ⟨hsame ▸ h.text, h.flushes, hsame ▸ h.pending, hsame ▸ h.seq, hsame ▸ h.own⟩

/-- Chunks of the other channel. -/
theorem others (h : Written channel seen b chunks) {later : List Chunk}
    (hlater : ∀ chunk ∈ later, chunk.channel ≠ channel) :
    Written channel seen b (chunks ++ later) where
  text := h.text
  flushes := h.flushes
  pending := h.pending
  seq := h.seq
  own := by
    have hnone : later.filter (fun c => c.channel = channel) = [] := by
      rw [List.filter_eq_nil_iff]
      exact fun chunk hchunk hc => hlater chunk hchunk (of_decide_eq_true hc)
    rw [List.filter_append, hnone, List.append_nil, h.own]

theorem other (h : Written channel seen b chunks) {chunk : Chunk} (hc : chunk.channel ≠ channel) :
    Written channel seen b (chunks ++ [chunk]) :=
  h.others fun _ hchunk => List.mem_singleton.mp hchunk ▸ hc

theorem text_append (h : Written channel seen b chunks) {event : Entries} {token : String}
    (hevent : (readDelta event).tokenOf channel = some token) :
    (b.append token).text.toList = (received channel (seen ++ [event])).flatten := by
  rw [received_token hevent, List.flatten_append, List.flatten_singleton, ← h.text]
  exact String.toList_append

theorem cut_append (h : Written channel seen b chunks) {event : Entries} {token : String}
    (hevent : (readDelta event).tokenOf channel = some token) :
    cut (flushChars channel) (received channel (seen ++ [event])) =
      if flushChars channel ≤ (b.append token).pendingChars.length then
        ((cut (flushChars channel) (received channel seen)).1 ++ [(b.append token).pendingChars],
          [])
      else
        ((cut (flushChars channel) (received channel seen)).1, (b.append token).pendingChars) := by
  rw [received_token hevent, cut_concat, push, ← h.pending,
    TextBuffer.pendingChars_append h.flushes]

/-- A token that leaves the buffer short of a chunk. -/
theorem keep (h : Written channel seen b chunks) {event : Entries} {token : String}
    (hevent : (readDelta event).tokenOf channel = some token)
    (hlen : ¬ (b.append token).length - (b.append token).flushed ≥ flushChars channel) :
    Written channel (seen ++ [event]) (b.append token) chunks := by
  have hcut := h.cut_append hevent
  rw [TextBuffer.length_pendingChars, if_neg hlen] at hcut
  refine ⟨h.text_append hevent, h.flushes.append token, ?_, ?_, ?_⟩
  · rw [hcut]
  · rw [hcut]
    exact h.seq
  · rw [hcut]
    exact h.own

/-- A token with which the buffer goes out. -/
theorem flush (h : Written channel seen b chunks) {event : Entries} {token : String}
    (hevent : (readDelta event).tokenOf channel = some token)
    (hlen : (b.append token).length - (b.append token).flushed ≥ flushChars channel) :
    Written channel (seen ++ [event]) (b.append token).flush
      (chunks ++ [(b.append token).chunk channel]) := by
  have hcut := h.cut_append hevent
  rw [TextBuffer.length_pendingChars, if_pos hlen] at hcut
  refine ⟨h.text_append hevent, TextBuffer.flushes_flush, ?_, ?_, ?_⟩
  · rw [hcut, TextBuffer.pendingChars_flush]
  · rw [hcut, List.length_append, ← h.seq]
    rfl
  · have hown : [(b.append token).chunk channel].filter (fun c => c.channel = channel) =
        [(b.append token).chunk channel] := List.filter_cons_of_pos (decide_eq_true rfl)
    rw [hcut, numbered_concat, List.filter_append, hown, h.own, Nat.zero_add, ← h.seq]
    rfl

theorem own_eq (h : Written channel seen b chunks) :
    chunks.filter (fun c => c.channel = channel) = encoded channel false (tokens channel seen) :=
  h.own

/-- The rest of the buffer at the end of the stream. -/
theorem landed (h : Written channel seen b chunks) :
    (chunks ++ b.tail channel).filter (fun c => c.channel = channel) =
      encoded channel true (tokens channel seen) := by
  have hlen := b.length_pendingChars
  rw [List.filter_append, filter_tail, if_pos rfl, h.own, encoded, sent, if_pos rfl,
    ← received, pieces_eq_cut, ← h.pending, pieces, TextBuffer.tail]
  split_ifs with hlt hnil hnil
  · rw [List.isEmpty_iff.mp hnil, List.length_nil] at hlen
    omega
  · rw [numbered_concat, Nat.zero_add, ← h.seq]
    rfl
  · rw [List.append_nil, List.append_nil]
  · rw [List.isEmpty_iff, ← List.length_eq_zero_iff] at hnil
    omega

theorem text_eq (h : Written channel seen b chunks) : b.text = streamText channel seen := by
  rw [streamText, join_eq_ofList, ← received, ← h.text, String.ofList_toList]

end Written

end StreamDB
