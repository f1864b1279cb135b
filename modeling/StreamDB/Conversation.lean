import StreamDB.SeededHistory

/-!
# A conversation of many turns

Each turn numbers its rows from beyond everything the stream has carried so far, be it replayed
or live. Then one number never stands on rows with different keys, and the client may sort the
transcript by `order` or by `ordinal`.
-/

namespace StreamDB

open Coroutine FirstSeen

/-- Two rows of the transcript sort alike by both numbers, and share one only under one key. -/
def Alike (f g : Frame) : Prop :=
  ∃ o o' n n' : ℤ, f.order = some o ∧ g.order = some o' ∧ f.ordinal = some n ∧
    g.ordinal = some n' ∧ (o < o' ↔ n < n') ∧ (o' < o ↔ n' < n) ∧ (o = o' → f.key = g.key)

theorem Alike.symm {f g : Frame} (h : Alike f g) : Alike g f := by
  obtain ⟨o, o', n, n', ho, ho', hn, hn', hlt, hgt, hkey⟩ := h
  exact ⟨o', o, n', n, ho', ho, hn', hn, hgt, hlt, fun heq => (hkey heq.symm).symm⟩

theorem alike_of_lt {f g : Frame} {o o' n n' : ℤ} (ho : f.order = some o) (ho' : g.order = some o')
    (hn : f.ordinal = some n) (hn' : g.ordinal = some n') (hlt : o < o') (hlt' : n < n') :
    Alike f g :=
  ⟨o, o', n, n', ho, ho', hn, hn', by omega, by omega, by omega⟩

/-- No message of the transcript shares its id with another row. -/
def Apart (frames : List Frame) : Prop :=
  ∀ f ∈ frames, ∀ g ∈ frames, f.transcript → g.placed → f.key = g.key → g.transcript

theorem Apart.subset {frames frames' : List Frame} (h : Apart frames) (hsub : frames' ⊆ frames) :
    Apart frames' :=
  fun f hf g hg => h f (hsub hf) g (hsub hg)

/-- The numbers of a log, all below the next ones to be given. -/
structure Transcribed (log : List Frame) (nextOrder nextOrdinal : ℤ) : Prop where
  orders : ∀ f ∈ log, f.placed → ∃ o, f.order = some o ∧ o < nextOrder
  ordinals : ∀ f ∈ log, f.transcript → ∃ n, f.ordinal = some n ∧ n < nextOrdinal
  distinct : ∀ f ∈ log, ∀ g ∈ log, f.placed → g.placed → f.order = g.order → f.key = g.key
  alike : Apart log → ∀ f ∈ log, ∀ g ∈ log, f.transcript → g.transcript → Alike f g

/-! ## One turn -/

section Turn

variable {s t : ℤ} {w : World}

theorem selectedKeys_transcript (hapart : Apart w.frames) :
    selectedKeys Frame.transcript w.frames = (selectedKeys Frame.placed w.frames).filter
      fun k => k ∈ selectedKeys Frame.transcript w.frames := by
  rw [selectedKeys, selectedKeys, List.filter_map, List.filter_filter]
  congr 1
  refine List.filter_congr fun g hg => ?_
  by_cases htranscript : g.transcript
  · have hmem : g.key ∈ selectedKeys Frame.transcript w.frames :=
      List.mem_map_of_mem (List.mem_filter.mpr ⟨hg, htranscript⟩)
    rw [selectedKeys] at hmem
    simp [htranscript, Frame.placed_of_transcript htranscript, hmem]
  · by_cases hplaced : g.placed
    · have hmem : g.key ∉ (w.frames.filter Frame.transcript).map Frame.key := by
        intro hmem
        obtain ⟨f, hf, hkey⟩ := List.mem_map.mp hmem
        obtain ⟨hf, hftranscript⟩ := List.mem_filter.mp hf
        exact htranscript (hapart f hf g hg hftranscript hplaced hkey)
      simp [htranscript, hmem]
    · simp [htranscript, hplaced]

theorem transcribed_of_counted (h : Counted anyStep s t w.ledger) :
    Transcribed w.frames w.self.orderSeq w.self.ordinal where
  orders f hf hplaced := by
    obtain ⟨o, ho, _, hlt⟩ := h.orders.number_bounds hf hplaced
    exact ⟨o, ho, hlt⟩
  ordinals f hf htranscript := by
    obtain ⟨n, hn, _, hlt⟩ := h.ordinals.number_bounds hf htranscript
    exact ⟨n, hn, hlt⟩
  distinct f hf g hg hfplaced hgplaced heq := by
    obtain ⟨o, ho, hd⟩ := h.orders.stamped f hf hfplaced
    obtain ⟨o', ho', hd'⟩ := h.orders.stamped g hg hgplaced
    rw [ho, ho', Option.some.injEq] at heq
    subst heq
    exact h.orders.numbered.injective f.key g.key o hd hd'
  alike hapart f hf g hg hftranscript hgtranscript := by
    obtain ⟨o, ho, hd⟩ := h.orders.stamped f hf (Frame.placed_of_transcript hftranscript)
    obtain ⟨o', ho', hd'⟩ := h.orders.stamped g hg (Frame.placed_of_transcript hgtranscript)
    obtain ⟨n, hn, he⟩ := h.ordinals.stamped f hf hftranscript
    obtain ⟨n', hn', he'⟩ := h.ordinals.stamped g hg hgtranscript
    have hkeys : w.ledger.ordinals.keys = w.ledger.orderByKey.keys.filter
        fun k => k ∈ selectedKeys Frame.transcript w.frames := by
      rw [h.ordinals.keys_eq, h.orders.keys_eq, ← firstSeen_filter]
      exact congrArg firstSeen (selectedKeys_transcript hapart)
    have hlt := h.orders.numbered.lt_iff h.ordinals.numbered hkeys hd hd' he he'
    have hgt := h.orders.numbered.lt_iff h.ordinals.numbered hkeys hd' hd he' he
    refine ⟨o, o', n, n', ho, ho', hn, hn', hlt, hgt, fun heq => ?_⟩
    subst heq
    exact h.orders.numbered.injective f.key g.key o hd hd'

end Turn

theorem Transcribed.of_filter {frames later : List Frame} {o n : ℤ} (h : Transcribed frames o n)
    (hrows : later.filter Frame.placed = frames.filter Frame.placed) : Transcribed later o n := by
  have hmem : ∀ f ∈ later, f.placed → f ∈ frames := by
    intro f hf hplaced
    have hf' := List.mem_filter.mpr ⟨hf, hplaced⟩
    rw [hrows] at hf'
    exact (List.mem_filter.mp hf').1
  have hback : ∀ f ∈ frames, f.placed → f ∈ later := by
    intro f hf hplaced
    have hf' := List.mem_filter.mpr ⟨hf, hplaced⟩
    rw [← hrows] at hf'
    exact (List.mem_filter.mp hf').1
  refine ⟨fun f hf hplaced => h.orders f (hmem f hf hplaced) hplaced, fun f hf htranscript => ?_,
    fun f hf g hg hfplaced hgplaced => ?_, fun hapart f hf g hg hft hgt => ?_⟩
  · exact h.ordinals f (hmem f hf (Frame.placed_of_transcript htranscript)) htranscript
  · exact h.distinct f (hmem f hf hfplaced) g (hmem g hg hgplaced) hfplaced hgplaced
  · refine h.alike ?_ f (hmem f hf (Frame.placed_of_transcript hft)) g
      (hmem g hg (Frame.placed_of_transcript hgt)) hft hgt
    intro f' hf' g' hg' hft' hgplaced
    exact hapart f' (hback f' hf' (Frame.placed_of_transcript hft')) g' (hback g' hg' hgplaced)
      hft' hgplaced

/-- The later rows are numbered from `orderStart` and `ordinalStart` on. -/
structure NumberedFrom (orderStart ordinalStart : ℤ) (later : List Frame) : Prop where
  orders : ∀ f ∈ later, f.placed → ∃ o, f.order = some o ∧ orderStart ≤ o
  ordinals : ∀ f ∈ later, f.transcript → ∃ n, f.ordinal = some n ∧ ordinalStart ≤ n

theorem Transcribed.append {log later : List Frame} {o n o' n' : ℤ} (h : Transcribed log o n)
    (hlater : Transcribed later o' n') (hfrom : NumberedFrom o n later) (ho : o ≤ o')
    (hn : n ≤ n') : Transcribed (log ++ later) o' n' where
  orders f hf hplaced := by
    rcases List.mem_append.mp hf with hf | hf
    · obtain ⟨a, ha, hlt⟩ := h.orders f hf hplaced
      exact ⟨a, ha, by omega⟩
    · exact hlater.orders f hf hplaced
  ordinals f hf htranscript := by
    rcases List.mem_append.mp hf with hf | hf
    · obtain ⟨a, ha, hlt⟩ := h.ordinals f hf htranscript
      exact ⟨a, ha, by omega⟩
    · exact hlater.ordinals f hf htranscript
  distinct f hf g hg hfplaced hgplaced heq := by
    have hapart : ∀ f ∈ log, f.placed → ∀ g ∈ later, g.placed → f.order ≠ g.order := by
      intro f hf hfplaced g hg hgplaced heq
      obtain ⟨a, ha, hlt⟩ := h.orders f hf hfplaced
      obtain ⟨b, hb, hle⟩ := hfrom.orders g hg hgplaced
      rw [ha, hb, Option.some.injEq] at heq
      omega
    rcases List.mem_append.mp hf with hf | hf
    · rcases List.mem_append.mp hg with hg | hg
      · exact h.distinct f hf g hg hfplaced hgplaced heq
      · exact absurd heq (hapart f hf hfplaced g hg hgplaced)
    · rcases List.mem_append.mp hg with hg | hg
      · exact absurd heq.symm (hapart g hg hgplaced f hf hfplaced)
      · exact hlater.distinct f hf g hg hfplaced hgplaced heq
  alike hapart f hf g hg hft hgt := by
    have hcross : ∀ f ∈ log, f.transcript → ∀ g ∈ later, g.transcript → Alike f g := by
      intro f hf hft g hg hgt
      obtain ⟨a, ha, hlt⟩ := h.orders f hf (Frame.placed_of_transcript hft)
      obtain ⟨b, hb, hle⟩ := hfrom.orders g hg (Frame.placed_of_transcript hgt)
      obtain ⟨a', ha', hlt'⟩ := h.ordinals f hf hft
      obtain ⟨b', hb', hle'⟩ := hfrom.ordinals g hg hgt
      exact alike_of_lt ha hb ha' hb' (by omega) (by omega)
    rcases List.mem_append.mp hf with hf | hf
    · rcases List.mem_append.mp hg with hg | hg
      · exact h.alike (hapart.subset (List.subset_append_left _ _)) f hf g hg hft hgt
      · exact hcross f hf hft g hg hgt
    · rcases List.mem_append.mp hg with hg | hg
      · exact (hcross g hg hgt f hf hft).symm
      · exact hlater.alike (hapart.subset (List.subset_append_right _ _)) f hf g hg hft hgt

/-! ## A replay -/

structure Spread (st : ReplayState) : Prop where
  below : RowsBelow st
  messages : st.frames.Pairwise fun f g => ∃ o o' n n' : ℤ, f.order = some o ∧ g.order = some o' ∧
    f.ordinal = some n ∧ g.ordinal = some n' ∧ o < o' ∧ n < n'
  tools : ∀ k k' row row', st.toolRows.get k = some row → st.toolRows.get k' = some row' →
    row.get "order" = row'.get "order" → k = k'
  mixed : ∀ f ∈ st.frames, ∀ k row o, st.toolRows.get k = some row →
    row.get "order" = some (.int o) → f.order ≠ some o

namespace Spread

variable {st : ReplayState}

theorem initial : Spread .initial where
  below := .initial
  messages := .nil
  tools _ _ _ _ h := nomatch h
  mixed _ h := nomatch h

theorem order_lt (h : Spread st) {k : String} {row : Row} (hrow : st.toolRows.get k = some row) :
    ∃ o : ℕ, row.get "order" = some (.int o) ∧ o < st.order :=
  h.below.tools row (OrderedDict.mem_values_iff.mpr ⟨k, hrow⟩)

theorem putMessage (h : Spread st) (id : String) {row : Row}
    (ho : row.get "order" = some (.int st.order))
    (hn : row.get "ordinal" = some (.int st.ordinal)) : Spread (st.putMessage id row) where
  below := h.below.putMessage id ho hn
  messages := by
    refine List.pairwise_append.mpr ⟨h.messages, List.pairwise_singleton _ _, ?_⟩
    intro f hf g hg
    rw [List.mem_singleton.mp hg]
    obtain ⟨_, ⟨o, hfo, hlt⟩, n, hfn, hnlt⟩ := h.below.messages f hf
    exact ⟨o, st.order, n, st.ordinal, hfo, intField_upsertFrame ho _ _ _, hfn,
      intField_upsertFrame hn _ _ _, by omega, by omega⟩
  tools := h.tools
  mixed f hf k row' o hrow hget := by
    rcases List.mem_append.mp hf with hf | hf
    · exact h.mixed f hf k row' o hrow hget
    · rw [List.mem_singleton.mp hf]
      obtain ⟨o', ho', hlt⟩ := h.order_lt hrow
      rw [hget, Option.some.injEq, PyValue.int.injEq] at ho'
      rw [Frame.order, intField_upsertFrame ho]
      intro heq
      rw [Option.some.injEq] at heq
      omega

/-- A call takes the next number, whatever row it had before. -/
theorem replayCall (h : Spread st) (rt : Runtime) (threadId : String) (call : ToolCall) :
    Spread (replayCall rt threadId st call) := by
  have hbelow := h.below.replayCall rt threadId call
  by_cases hk : call.keyed
  · simp only [StreamDB.replayCall, hk, if_true] at hbelow ⊢
    have hnew : ∀ id, (callRow rt threadId id call st.order).get "order" =
        some (.int st.order) := by
      intro id
      simp [callRow, OrderedDict.ofEntries]
    have hold : ∀ k row (o : ℤ), st.toolRows.get k = some row →
        row.get "order" = some (.int o) → o ≠ st.order := by
      intro k row o hrow ho
      obtain ⟨o', ho', hlt⟩ := h.order_lt hrow
      rw [ho, Option.some.injEq, PyValue.int.injEq] at ho'
      omega
    refine ⟨hbelow, h.messages, ?_, ?_⟩
    · intro k k' row row' hrow hrow' heq
      rw [OrderedDict.get_set] at hrow hrow'
      split_ifs at hrow hrow' with hk hk' hk'
      · rw [← hk, ← hk']
      · cases hrow
        rw [hnew] at heq
        exact absurd rfl (hold k' row' _ hrow' heq.symm)
      · cases hrow'
        rw [hnew] at heq
        exact absurd rfl (hold k row _ hrow heq)
      · exact h.tools k k' row row' hrow hrow' heq
    · intro f hf k row o hrow ho heq
      rw [OrderedDict.get_set] at hrow
      split_ifs at hrow
      · cases hrow
        rw [hnew, Option.some.injEq, PyValue.int.injEq] at ho
        obtain ⟨_, ⟨o', hfo, hlt⟩, _⟩ := h.below.messages f hf
        rw [heq, Option.some.injEq] at hfo
        omega
      · exact h.mixed f hf k row o hrow ho heq
  · simpa only [StreamDB.replayCall, hk, Bool.false_eq_true, if_false] using h

theorem replayCalls (h : Spread st) (rt : Runtime) (threadId : String) (calls : List ToolCall) :
    Spread (calls.foldl (StreamDB.replayCall rt threadId) st) := by
  induction calls generalizing st with
  | nil => exact h
  | cons call calls ih => exact ih (h.replayCall rt threadId call)

/-- A result stays in the place of its call. -/
theorem settle (h : Spread st) (rt : Runtime) {message : ToolMessage} {row : Row}
    (hrow : st.toolRows.get message.toolCallId = some row) (hbelow : RowsBelow { st with
      toolRows := st.toolRows.set message.toolCallId (settledRow rt row message) }) :
    Spread { st with
      toolRows := st.toolRows.set message.toolCallId (settledRow rt row message) } := by
  have hplace : ∀ k row', (st.toolRows.set message.toolCallId (settledRow rt row message)).get k =
      some row' → ∃ old, st.toolRows.get k = some old ∧ row'.get "order" = old.get "order" := by
    intro k row' hget
    rw [OrderedDict.get_set] at hget
    split_ifs at hget with hk
    · cases hget
      exact ⟨row, by rw [← hk]; exact hrow, settledRow_order rt row message⟩
    · exact ⟨row', hget, rfl⟩
  refine ⟨hbelow, h.messages, ?_, ?_⟩
  · intro k k' r r' hr hr' heq
    obtain ⟨old, hold, ho⟩ := hplace k r hr
    obtain ⟨old', hold', ho'⟩ := hplace k' r' hr'
    exact h.tools k k' old old' hold hold' (by rw [← ho, ← ho', heq])
  · intro f hf k r o hr ho
    obtain ⟨old, hold, hsame⟩ := hplace k r hr
    exact h.mixed f hf k old o hold (by rw [← hsame, ho])

theorem replayMessage (h : Spread st) (rt : Runtime) (threadId summaryPrefix : String)
    (m : BaseMessage) : Spread (replayMessage rt threadId summaryPrefix st m) := by
  have hbelow := rowsBelow_replayMessage rt threadId summaryPrefix h.below m
  cases m with
  | human message =>
      by_cases hr : rendersId summaryPrefix message.id
      · simp only [StreamDB.replayMessage, hr, if_true]
        exact h.putMessage _ (humanRow_order _ _ _ _ _) (humanRow_ordinal _ _ _ _ _)
      · simpa only [StreamDB.replayMessage, hr, Bool.false_eq_true, if_false] using h
  | ai message =>
      by_cases hr : rendersId summaryPrefix message.id
      · simp only [StreamDB.replayMessage, hr, if_true]
        apply Spread.replayCalls
        exact h.putMessage _ (aiRow_order _ _ _ _ _) (aiRow_ordinal _ _ _ _ _)
      · simpa only [StreamDB.replayMessage, hr, Bool.false_eq_true, if_false] using h
  | tool message =>
      cases hrow : st.toolRows.get message.toolCallId with
      | none => simpa only [StreamDB.replayMessage, hrow] using h
      | some row =>
          simp only [StreamDB.replayMessage, hrow] at hbelow ⊢
          exact h.settle rt hrow hbelow
  | other id => exact h

theorem replayMessages (rt : Runtime) (threadId summaryPrefix : String)
    (messages : List BaseMessage) : Spread (replayMessages rt threadId summaryPrefix messages) := by
  have hfold : ∀ st, Spread st →
      Spread (messages.foldl (StreamDB.replayMessage rt threadId summaryPrefix) st) := by
    induction messages with
    | nil => exact fun _ h => h
    | cons m messages ih => exact fun st h => ih _ (h.replayMessage rt threadId summaryPrefix m)
  exact hfold _ initial

theorem exists_row (h : Spread st) {f : Frame} (hf : f ∈ toolFrames st.toolRows) :
    ∃ k row, ∃ o : ℕ, st.toolRows.get k = some row ∧ row.get "order" = some (.int o) ∧
      f = upsertFrame .tool (rowText row "id") row none ∧ f.order = some (o : ℤ) := by
  obtain ⟨row, hmem, rfl⟩ := mem_toolFrames hf
  obtain ⟨k, hrow⟩ := OrderedDict.mem_values_iff.mp hmem
  obtain ⟨o, ho, _⟩ := h.order_lt hrow
  exact ⟨k, row, o, hrow, ho, rfl, intField_upsertFrame ho _ _ _⟩

theorem order_ne (h : Spread st) {f g : Frame} (hf : f ∈ st.frames)
    (hg : g ∈ toolFrames st.toolRows) : f.order ≠ g.order := by
  obtain ⟨k, row, o, hrow, ho, _, hgo⟩ := h.exists_row hg
  rw [hgo]
  exact h.mixed f hf k row o hrow ho

theorem tool_eq (h : Spread st) {f g : Frame} (hf : f ∈ toolFrames st.toolRows)
    (hg : g ∈ toolFrames st.toolRows) (heq : f.order = g.order) : f.key = g.key := by
  obtain ⟨k, row, o, hrow, ho, hframe, hfo⟩ := h.exists_row hf
  obtain ⟨k', row', o', hrow', ho', hframe', hgo⟩ := h.exists_row hg
  rw [hfo, hgo, Option.some.injEq] at heq
  have hk := h.tools k k' row row' hrow hrow' (by rw [ho, ho', heq])
  rw [hk, hrow'] at hrow
  cases hrow
  rw [hframe, hframe']

end Spread

/-- The rows of a replay, windowed or not, below the live start of the full history. -/
theorem transcribed_of_replay (rt : Runtime) (threadId summaryPrefix : String)
    (messages : List BaseMessage) (maxTurns : Option ℤ) :
    Transcribed (replayHistory rt threadId messages maxTurns summaryPrefix).frames
      (nextLiveOrder messages summaryPrefix) (nextLiveOrdinal messages summaryPrefix) := by
  have hbelow := replayHistory_below rt threadId summaryPrefix messages maxTurns
  obtain ⟨k, hframes⟩ := replayHistory_eq_drop rt threadId summaryPrefix messages maxTurns
  have hspread := Spread.replayMessages rt threadId summaryPrefix (messages.drop k)
  have hmessage : ∀ f ∈ (replayHistory rt threadId messages maxTurns summaryPrefix).frames,
      f.transcript →
        f ∈ (replayMessages rt threadId summaryPrefix (messages.drop k)).frames := by
    intro f hf htranscript
    rw [hframes] at hf
    refine (List.mem_append.mp hf).resolve_right fun hf => ?_
    obtain ⟨row, _, rfl⟩ := mem_toolFrames hf
    cases htranscript
  have halike : ∀ f ∈ (replayMessages rt threadId summaryPrefix (messages.drop k)).frames,
      ∀ g ∈ (replayMessages rt threadId summaryPrefix (messages.drop k)).frames, Alike f g := by
    refine List.Pairwise.forall_of_forall_of_flip ?_ ?_ ?_
    · intro f hf
      obtain ⟨_, ⟨o, ho, _⟩, n, hn, _⟩ := hspread.below.messages f hf
      exact ⟨o, o, n, n, ho, ho, hn, hn, by omega, by omega, fun _ => rfl⟩
    · refine hspread.messages.imp ?_
      rintro f g ⟨o, o', n, n', ho, ho', hn, hn', hlt, hlt'⟩
      exact alike_of_lt ho ho' hn hn' hlt hlt'
    · refine hspread.messages.imp ?_
      rintro f g ⟨o, o', n, n', ho, ho', hn, hn', hlt, hlt'⟩
      exact (alike_of_lt ho ho' hn hn' hlt hlt').symm
  refine ⟨fun f hf _ => ?_, fun f hf htranscript => ?_, ?_, ?_⟩
  · obtain ⟨o, ho, hlt⟩ := (hbelow f hf).1
    exact ⟨o, ho, by omega⟩
  · have htype : f.type = .message := (hspread.below.messages f (hmessage f hf htranscript)).1
    obtain ⟨n, hn, hlt⟩ := (hbelow f hf).2 htype
    exact ⟨n, hn, by omega⟩
  · intro f hf g hg _ _ heq
    rw [hframes] at hf hg
    rcases List.mem_append.mp hf with hf | hf
    · rcases List.mem_append.mp hg with hg | hg
      · obtain ⟨o, o', _, _, ho, ho', _, _, _, _, hkey⟩ := halike f hf g hg
        rw [ho, ho', Option.some.injEq] at heq
        exact hkey heq
      · exact absurd heq (hspread.order_ne hf hg)
    · rcases List.mem_append.mp hg with hg | hg
      · exact absurd heq.symm (hspread.order_ne hg hf)
      · exact hspread.tool_eq hf hg heq
  · exact fun _ f hf g hg hft hgt => halike f (hmessage f hf hft) g (hmessage g hg hgt)

/-! ## All turns -/

/-- The rows of a conversation, with the next numbers that are free. A turn writes its message and
tool rows in any interleaving of its tasks, between any other rows. -/
inductive Conversation (rt : Runtime) (threadId summaryPrefix : String) :
    List Frame → ℤ → ℤ → Prop
  | fresh (nextOrder nextOrdinal : ℤ) :
      Conversation rt threadId summaryPrefix [] nextOrder nextOrdinal
  | seeded (messages : List BaseMessage) (maxTurns : Option ℤ) :
      Conversation rt threadId summaryPrefix
        (replayHistory rt threadId messages maxTurns summaryPrefix).frames
        (nextLiveOrder messages summaryPrefix) (nextLiveOrdinal messages summaryPrefix)
  | turn {log later : List Frame} {nextOrder nextOrdinal orderStart ordinalStart : ℤ}
      {runId : String} {activities : List Activity} {c : System}
      (earlier : Conversation rt threadId summaryPrefix log nextOrder nextOrdinal)
      (order : nextOrder ≤ orderStart) (ordinal : nextOrdinal ≤ ordinalStart)
      (run : Reaches anyStep (startSystem rt
        (Translator.seeded threadId runId summaryPrefix orderStart ordinalStart) activities) c)
      (rows : later.filter Frame.placed = c.state.frames.filter Frame.placed) :
      Conversation rt threadId summaryPrefix (log ++ later) c.state.self.orderSeq
        c.state.self.ordinal

theorem transcribed_of_conversation {rt : Runtime} {threadId summaryPrefix : String}
    {log : List Frame} {nextOrder nextOrdinal : ℤ}
    (h : Conversation rt threadId summaryPrefix log nextOrder nextOrdinal) :
    Transcribed log nextOrder nextOrdinal := by
  induction h with
  | fresh nextOrder nextOrdinal =>
      exact ⟨List.forall_mem_nil _, List.forall_mem_nil _, List.forall_mem_nil _,
        fun _ => List.forall_mem_nil _⟩
  | seeded messages maxTurns =>
      exact transcribed_of_replay rt threadId summaryPrefix messages maxTurns
  | @turn log later o n s t runId activities c _ order ordinal run rows ih =>
      have hcounted := counted_of_reaches run
      have hturn := (transcribed_of_counted hcounted).of_filter rows
      have hlive := live_rows_from_seed run
      have hmem : ∀ f ∈ later, f.placed → f ∈ c.state.frames := by
        intro f hf hplaced
        have hf' := List.mem_filter.mpr ⟨hf, hplaced⟩
        rw [rows] at hf'
        exact (List.mem_filter.mp hf').1
      refine ih.append hturn ⟨fun f hf hplaced => ?_, fun f hf htranscript => ?_⟩ ?_ ?_
      · obtain ⟨a, ha, hle⟩ := (hlive f (hmem f hf hplaced)).1 hplaced
        exact ⟨a, ha, by omega⟩
      · have hplaced := Frame.placed_of_transcript htranscript
        obtain ⟨a, ha, hle⟩ := (hlive f (hmem f hf hplaced)).2 htranscript
        exact ⟨a, ha, by omega⟩
      · have hnext := hcounted.orders.next_eq
        change c.state.self.orderSeq = _ at hnext
        omega
      · have hnext := hcounted.ordinals.next_eq
        change c.state.self.ordinal = _ at hnext
        omega

theorem transcribed_of_conversation_earlierTurn :
    let replayed := replayHistory plainRuntime "t" earlierTurn none "summarization-"
    let c := (askAndSearch 3 2).after (fun _ _ => true) askThenSearch (by decide)
    (replayed.frames ++ c.state.frames).map Frame.order =
        [some 0, some 1, some 2, some 3, some 4, some 4] ∧
      Transcribed (replayed.frames ++ c.state.frames) c.state.self.orderSeq
        c.state.self.ordinal :=
  ⟨by decide, transcribed_of_conversation (.turn (.seeded earlierTurn none) (by decide) (by decide)
    (reaches_after (fun _ _ _ => trivial) _ _ _) rfl)⟩

end StreamDB
