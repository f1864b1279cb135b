import StreamDB.DrainCounters

/-!
# The counters of a whole run

However the tasks of a seeded translator interleave, its maps number the keys they have met
without a gap, every row carries the number of its key, and the steps of the subagents stay off
the top-level ordinals.
-/

namespace StreamDB

open Coroutine FirstSeen

variable (rt : Runtime) (threadId runId summaryPrefix : String) (s t : ℤ)

theorem stable_startSystem (allowed : TaskName → World → Prop) (activities : List Activity) :
    ∀ thread ∈ (startSystem rt (Translator.seeded threadId runId summaryPrefix s t)
        activities).threads,
      Stable (counterProtocol allowed s t) thread
        (startSystem rt (Translator.seeded threadId runId summaryPrefix s t) activities).state := by
  intro thread hm
  obtain ⟨a, _, rfl⟩ := List.mem_map.mp hm
  exact stable_of_preserves (keeps_activity rt a) _

variable {rt threadId runId summaryPrefix s t}

theorem counted_of_reaches {allowed : TaskName → World → Prop} {activities : List Activity}
    {c : System}
    (h : Reaches allowed
      (startSystem rt (Translator.seeded threadId runId summaryPrefix s t) activities) c) :
    Counted allowed s t c.state.ledger :=
  run_inv (P := counterProtocol allowed s t) h (counted_start _ _ _ _ _ _)
    (stable_startSystem rt threadId runId summaryPrefix s t allowed activities)

/-! ## Who has written what -/

/-- The rows that the drain of a subagent's messages has written. -/
def spoken (subagentId : String) (log : List (TaskName × Frame)) : List Frame :=
  (log.filter fun e => e.1.speaksFor subagentId).map Prod.snd

/-- The rows with the tasks that have written them, and the subagents' counters behind them. -/
structure Signed (log : List (TaskName × Frame)) (w : World) : Prop where
  frames : log.map Prod.snd = w.frames
  numbers : ∀ subagentId, w.ledger.Numbers subagentId (spoken subagentId log)
  tagged : ∀ e ∈ log, e.2.isMessage →
    (e.2.untagged = false ↔ ∃ subagentId, e.1.speaksFor subagentId)

theorem speaksFor_iff {name : TaskName} {subagentId : String} :
    name.speaksFor subagentId ↔ name = .subagentMessages subagentId := by
  cases name with
  | subagentMessages other => simp [TaskName.speaksFor]
  | _ => simp [TaskName.speaksFor]

theorem spoken_append (subagentId : String) (log later : List (TaskName × Frame)) :
    spoken subagentId (log ++ later) = spoken subagentId log ++ spoken subagentId later := by
  rw [spoken, List.filter_append, List.map_append]
  rfl

theorem spoken_map (subagentId : String) (name : TaskName) (frames : List Frame) :
    spoken subagentId (frames.map (Prod.mk name)) =
      if name.speaksFor subagentId then frames else [] := by
  have hconst : (fun e : TaskName × Frame => e.1.speaksFor subagentId) ∘ Prod.mk name =
      fun _ => name.speaksFor subagentId := rfl
  rw [spoken, List.filter_map, List.map_map, hconst]
  split_ifs with hspeaks
  · rw [hspeaks, List.filter_true]
    exact List.map_id frames
  · rw [Bool.eq_false_iff.mpr hspeaks, List.filter_false]
    rfl

theorem Signed.step {log : List (TaskName × Frame)} {name : TaskName} {w w' : World}
    {added : List Frame} (h : Signed log w) (hadds : Adds name w.ledger w'.ledger added) :
    Signed (log ++ (w'.frames.drop w.frames.length).map (Prod.mk name)) w' := by
  have hframes : w'.frames = w.frames ++ added := hadds.frames
  have hadded : w'.frames.drop w.frames.length = added := by
    rw [hframes, List.drop_left]
  rw [hadded]
  constructor
  · rw [List.map_append, h.frames, hframes, List.map_map]
    exact congrArg (w.frames ++ ·) (List.map_id added)
  · intro subagentId
    rw [spoken_append, spoken_map]
    exact hadds.numbers subagentId _ (h.numbers subagentId)
  · refine List.forall_mem_append.mpr ⟨h.tagged, fun e he => ?_⟩
    obtain ⟨f, hf, rfl⟩ := List.mem_map.mp he
    exact hadds.tagged f hf

theorem signed_of_follow {activities : List Activity} {ps : List Pick} {c : System}
    (h : (startSystem rt (Translator.seeded threadId runId summaryPrefix s t) activities).follow
      ps = some c) :
    Signed ((startSystem rt (Translator.seeded threadId runId summaryPrefix s t)
      activities).signed World.frames ps) c.state := by
  refine run_signed (P := counterProtocol anyStep s t) (K := Signed) (fun _ _ => trivial) h
    (counted_start _ _ _ _ _ _)
    (stable_startSystem rt threadId runId summaryPrefix s t anyStep activities)
    ⟨rfl, fun _ => Stamps.nil 0, fun _ he => by cases he⟩ ?_
  rintro name w w' log ⟨-, -, added, hadds⟩ hsigned
  exact hsigned.step hadds

/-! ## The counters -/

/-- What holds of the three families of counters in a state of the translator, the rows up to there
having been written by the tasks in `log`. -/
structure CountersAgree (s t : ℤ) (log : List (TaskName × Frame)) (w : World) : Prop where
  order_injective : w.self.orderByKey.Injective
  order_values : w.self.orderByKey.values =
    (List.range (firstSeen (selectedKeys Frame.placed w.frames)).length).map fun i : ℕ => s + i
  order_next :
    w.self.orderSeq = s + ((firstSeen (selectedKeys Frame.placed w.frames)).length : ℤ)
  order_row : ∀ f ∈ w.frames, f.placed →
    ∃ o, f.order = some o ∧ w.self.orderByKey.get f.key = some o
  order_unique : ∀ f ∈ w.frames, ∀ g ∈ w.frames, f.placed → g.placed → f.key = g.key →
    f.order = g.order
  ordinal_injective : w.self.ordinals.Injective
  ordinal_values : w.self.ordinals.values =
    (List.range (firstSeen (selectedKeys Frame.transcript w.frames)).length).map
      fun i : ℕ => t + i
  ordinal_next :
    w.self.ordinal = t + ((firstSeen (selectedKeys Frame.transcript w.frames)).length : ℤ)
  logged : log.map Prod.snd = w.frames
  nested_author : ∀ e ∈ log, e.2.isMessage →
    (e.2.untagged = false ↔ ∃ subagentId, e.1 = .subagentMessages subagentId)
  nested_keys : ∀ subagentId, (w.self.msgOrdinals subagentId).keys =
    firstSeen (selectedKeys Frame.isMessage (spoken subagentId log))
  nested_values : ∀ subagentId, (w.self.msgOrdinals subagentId).values =
    (List.range (w.self.msgOrdinals subagentId).size).map fun i : ℕ => (i : ℤ)
  nested_row : ∀ subagentId, ∀ f ∈ spoken subagentId log, f.isMessage →
    ∃ o, f.ordinal = some o ∧ (w.self.msgOrdinals subagentId).get f.key = some o

theorem Counted.agree {allowed : TaskName → World → Prop} {log : List (TaskName × Frame)}
    {w : World} (h : Counted allowed s t w.ledger) (hsigned : Signed log w) :
    CountersAgree s t log w where
  order_injective := h.orders.numbered.injective
  order_values := h.orders.values_eq
  order_next := h.orders.next_eq
  order_row := h.orders.stamped
  order_unique _ hf _ hg hfp hgp hk := h.orders.number_unique hf hg hfp hgp hk
  ordinal_injective := h.ordinals.numbered.injective
  ordinal_values := h.ordinals.values_eq
  ordinal_next := h.ordinals.next_eq
  logged := hsigned.frames
  nested_author e he hmessage := by
    rw [hsigned.tagged e he hmessage]
    exact exists_congr fun _ => speaksFor_iff
  nested_keys subagentId := (hsigned.numbers subagentId).keys_eq
  nested_values subagentId := by
    have hv := (hsigned.numbers subagentId).numbered.values_eq
    simp only [zero_add] at hv
    exact hv
  nested_row subagentId := (hsigned.numbers subagentId).stamped

/-- In every state of a run the counters agree with the rows, those of each subagent with its own
rows; the next step leaves the top-level ordinals alone when a subagent takes it, and meets the
messages of a subagent in order. -/
theorem counters_agree_of_follow {activities : List Activity} {ps : List Pick} {c : System}
    (h : (startSystem rt (Translator.seeded threadId runId summaryPrefix s t) activities).follow
      ps = some c) :
    CountersAgree s t ((startSystem rt (Translator.seeded threadId runId summaryPrefix s t)
        activities).signed World.frames ps) c.state ∧
      ∀ p name c', c.step p = some (name, c') →
        (name.isSubagent → c'.state.self.ordinals = c.state.self.ordinals) ∧
        ∀ subagentId, (c.state.self.msgOrdinals subagentId).keys <+:
          (c'.state.self.msgOrdinals subagentId).keys := by
  have hreaches := reaches_of_follow h
  have hsigned := signed_of_follow h
  refine ⟨(counted_of_reaches hreaches).agree hsigned, ?_⟩
  intro p name c' hstep
  obtain ⟨-, hown, added, hadds⟩ := run_step_guarantee (P := counterProtocol anyStep s t) hreaches
    (counted_start _ _ _ _ _ _)
    (stable_startSystem rt threadId runId summaryPrefix s t anyStep activities) hstep trivial
  refine ⟨hown, fun subagentId => ?_⟩
  have hkeys : (c.state.self.msgOrdinals subagentId).keys = _ :=
    (hsigned.numbers subagentId).keys_eq
  have hkeys' : (c'.state.self.msgOrdinals subagentId).keys = _ :=
    ((hsigned.step hadds).numbers subagentId).keys_eq
  rw [hkeys, hkeys', spoken_append, selectedKeys_append]
  exact prefix_firstSeen_append _ _

def modelMessage (messageId : String) : ModelMessage where
  node := some modelNode
  messageId := some messageId
  events := ⟨[], none⟩

def searchCall (toolCallId : String) : ToolCallExecution where
  toolCallId := toolCallId
  toolName := .str "search"
  input := .dict [("q", .str "x")]
  deltasError := none
  settled := ⟨⟨none, some (.str "found"), .none⟩, .none⟩
  unsettled := ⟨⟨none, none, .none⟩, .none⟩

/-- A user message, and a call that is written twice. -/
def askAndSearch (s t : ℤ) : System :=
  startSystem plainRuntime (Translator.seeded "t" "r" "summarization-" s t)
    [.userMessage "u1" "hi" [], .toolCalls ⟨[searchCall "c1"], none⟩, .source [.toolCalls]]

def askThenSearch : List Pick := [.run 0, .run 2, .run 1, .run 3, .run 3, .run 3]

def startPayload (subagentId toolCallId : String) : PyValue :=
  .dict [("content_type", .str "subagent_start"), ("subagent_id", .str subagentId),
    ("tool_call_id", .str toolCallId)]

/-- The second of two subagents repeats a message of the first. -/
def delegateTwice : List Activity :=
  [.userMessage "u1" "hi" [], .source [.custom, .custom, .subgraphs, .subgraphs],
    .custom ⟨[startPayload "sa1" "c1", startPayload "sa2" "c2"], none⟩,
    .subgraphs ⟨[.mk (some "subagent") (some "sa1")
        (some ⟨[modelMessage "m1", modelMessage "m2"], none⟩) none none none,
      .mk (some "subagent") (some "sa2")
        (some ⟨[modelMessage "m3", modelMessage "m1"], none⟩) none none none], none⟩]

def speakInTurn : List Pick :=
  [.run 0, .run 1, .run 1, .run 1, .run 1, .run 2, .run 2, .run 3, .run 3, .run 4, .run 5, .run 4,
    .run 5, .run 4, .run 5, .run 4, .run 5, .run 4, .run 5]

theorem counters_agree_of_follow_delegateTwice :
    let start := startSystem plainRuntime (Translator.seeded "t" "r" "summarization-" 4 2)
      delegateTwice
    let c := start.after (fun _ _ => true) speakInTurn (by decide)
    (c.state.frames.map (fun f => (f.key, f.order, f.ordinal)) =
        [("u1", some 4, some 2), ("m1", some 5, some 0), ("m3", some 6, some 0),
          ("m2", some 7, some 1), ("m1", some 5, some 1)] ∧
      (c.state.self.msgOrdinals "sa2").entries = [("m3", 0), ("m1", 1)]) ∧
      CountersAgree 4 2 (start.signed World.frames speakInTurn) c.state ∧
      ∀ p name c', c.step p = some (name, c') →
        (name.isSubagent → c'.state.self.ordinals = c.state.self.ordinals) ∧
        ∀ subagentId, (c.state.self.msgOrdinals subagentId).keys <+:
          (c'.state.self.msgOrdinals subagentId).keys :=
  ⟨by decide, counters_agree_of_follow (follow_after _ _ _)⟩

end StreamDB
