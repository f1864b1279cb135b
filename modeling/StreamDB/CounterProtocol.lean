import StreamDB.Channels
import StreamDB.RelyGuarantee
import StreamDB.Stamps

/-!
# The counters as a protocol of the translator's tasks

`Counted` ties two families of counters to the rows handed to the writer: `order` to the message
and tool rows, the top-level ordinals to the message rows without a tag. It also remembers from
where the first untagged row of each call was drawn, and that a tagged row takes a task of a
subagent. Every task keeps it at every suspension point, and a task of a subagent leaves the
top-level ordinals alone. The counters of the subagents are tied to rows of their own: `Adds` says
how a task goes on with the rows that the drain of each subagent's messages has written so far.
-/

namespace StreamDB

open Coroutine FirstSeen

/-- The fields the counters live in. -/
structure Ledger where
  orderByKey : OrderedDict String ℤ
  orderSeq : ℤ
  ordinals : OrderedDict String ℤ
  ordinal : ℤ
  subagentOrdinal : OrderedDict String ℤ
  subagentMsgOrdinal : OrderedDict String (OrderedDict String ℤ)
  subagentToolCall : OrderedDict String String
  frames : List Frame

def World.ledger (w : World) : Ledger where
  orderByKey := w.self.orderByKey
  orderSeq := w.self.orderSeq
  ordinals := w.self.ordinals
  ordinal := w.self.ordinal
  subagentOrdinal := w.self.subagentOrdinal
  subagentMsgOrdinal := w.self.subagentMsgOrdinal
  subagentToolCall := w.self.subagentToolCall
  frames := w.frames

def Ledger.msgOrdinals (l : Ledger) (subagentId : String) : OrderedDict String ℤ :=
  l.subagentMsgOrdinal.getD subagentId .empty

/-- The counter of a subagent has numbered these message rows. -/
def Ledger.Numbers (l : Ledger) (subagentId : String) (frames : List Frame) : Prop :=
  Stamps Frame.isMessage Frame.ordinal 0 (l.msgOrdinals subagentId)
    (l.subagentOrdinal.getD subagentId 0) frames

def TaskName.speaksFor : TaskName → String → Bool
  | .subagentMessages subagentId, other => subagentId = other
  | _, _ => false

/-- What a task has added to the stream. The message rows of a subagent are numbered by the counter
of that subagent alone. -/
structure Adds (name : TaskName) (l l' : Ledger) (added : List Frame) : Prop where
  frames : l'.frames = l.frames ++ added
  numbers : ∀ subagentId mine, l.Numbers subagentId mine →
    l'.Numbers subagentId (mine ++ if name.speaksFor subagentId then added else [])
  tagged : ∀ f ∈ added, f.isMessage →
    (f.untagged = false ↔ ∃ subagentId, name.speaksFor subagentId)

def Unwritten (toolCallId : String) (frames : List Frame) : Prop :=
  ∀ f ∈ frames, f.type = .tool → f.untagged → f.key ≠ toolCallId

/-- A state some tool-call task for `key` was picked in that had written nothing, with the `order`
map it started from. -/
def DrawnFrom (allowed : TaskName → World → Prop) (start : ℤ) (key : String)
    (orderByKey : OrderedDict String ℤ) : Prop :=
  ∃ (tc : ToolCallExecution) (w : World), tc.toolCallId = key ∧ allowed (.toolCall tc) w ∧
    Unwritten key w.frames ∧ Numbered start w.self.orderByKey w.self.orderSeq ∧
    w.self.orderByKey.Extends orderByKey

/-- Some task that writes rows of a subagent may have been picked. -/
def NestedStep (allowed : TaskName → World → Prop) : Prop :=
  ∃ name w, TaskName.writesNested name ∧ allowed name w

structure Counted (allowed : TaskName → World → Prop) (orderStart ordinalStart : ℤ)
    (l : Ledger) : Prop where
  orders : Stamps Frame.placed Frame.order orderStart l.orderByKey l.orderSeq l.frames
  ordinals : Stamps Frame.transcript Frame.ordinal ordinalStart l.ordinals l.ordinal l.frames
  links : ∀ subagentId tag, l.subagentToolCall.get subagentId = some tag → tag ≠ ""
  drawn : ∀ f ∈ l.frames, f.type = .tool → f.untagged →
    DrawnFrom allowed orderStart f.key l.orderByKey
  writer : ∀ f ∈ l.frames, f.placed → f.untagged = false → NestedStep allowed
  notRun : ∀ f ∈ l.frames, f.type ≠ .run

namespace Adds

variable {name : TaskName} {l l' l'' : Ledger} {added added' : List Frame} {f : Frame}

theorem refl (name : TaskName) (l : Ledger) : Adds name l l [] where
  frames := (List.append_nil _).symm
  numbers subagentId mine h := by
    rw [ite_self, List.append_nil]
    exact h
  tagged _ h := by cases h

theorem trans (h : Adds name l l' added) (h' : Adds name l' l'' added') :
    Adds name l l'' (added ++ added') where
  frames := by rw [h'.frames, h.frames, List.append_assoc]
  numbers subagentId mine hmine := by
    have hnumbers := h'.numbers subagentId _ (h.numbers subagentId mine hmine)
    by_cases hspeaks : name.speaksFor subagentId
    · simp only [hspeaks, if_true] at hnumbers ⊢
      rwa [← List.append_assoc]
    · simpa [hspeaks] using hnumbers
  tagged := List.forall_mem_append.mpr ⟨h.tagged, h'.tagged⟩

/-- The counters of the subagents do not matter to what else a task changes. -/
theorem same (h : Adds name l l' added) (hordinals : l''.subagentMsgOrdinal = l'.subagentMsgOrdinal)
    (hnext : l''.subagentOrdinal = l'.subagentOrdinal) (hframes : l''.frames = l'.frames) :
    Adds name l l'' added where
  frames := hframes.trans h.frames
  numbers subagentId mine hmine := by
    have hnumbers := h.numbers subagentId mine hmine
    rw [Ledger.Numbers, Ledger.msgOrdinals] at hnumbers ⊢
    rwa [hordinals, hnext]
  tagged := h.tagged

theorem write (h : Adds name l l' added)
    (hordinals : l''.subagentMsgOrdinal = l'.subagentMsgOrdinal)
    (hnext : l''.subagentOrdinal = l'.subagentOrdinal) (hframes : l''.frames = l'.frames ++ [f])
    (hother : f.isMessage → f.untagged ∧ ∀ subagentId, name.speaksFor subagentId = false) :
    Adds name l l'' (added ++ [f]) where
  frames := by rw [hframes, h.frames, List.append_assoc]
  numbers subagentId mine hmine := by
    have hnumbers := h.numbers subagentId mine hmine
    rw [Ledger.Numbers, Ledger.msgOrdinals] at hnumbers ⊢
    rw [hordinals, hnext]
    by_cases hspeaks : name.speaksFor subagentId
    · have hskip : f.isMessage = false := by
        refine Bool.eq_false_iff.mpr fun hmessage => ?_
        rw [(hother hmessage).2 subagentId] at hspeaks
        cases hspeaks
      simp only [hspeaks, if_true] at hnumbers ⊢
      rw [← List.append_assoc]
      exact hnumbers.skip hskip
    · simpa [hspeaks] using hnumbers
  tagged := by
    refine List.forall_mem_append.mpr ⟨h.tagged, List.forall_mem_singleton.mpr fun hmessage => ?_⟩
    obtain ⟨huntagged, hnone⟩ := hother hmessage
    simp [huntagged, hnone]

theorem speak {subagentId : String} (h : Adds (.subagentMessages subagentId) l l' added)
    (hordinals : l''.msgOrdinals subagentId = (assign (l'.msgOrdinals subagentId)
      (l'.subagentOrdinal.getD subagentId 0) f.key).2.1)
    (hnext : l''.subagentOrdinal.getD subagentId 0 = (assign (l'.msgOrdinals subagentId)
      (l'.subagentOrdinal.getD subagentId 0) f.key).2.2)
    (hothers : ∀ other, other ≠ subagentId → l''.msgOrdinals other = l'.msgOrdinals other ∧
      l''.subagentOrdinal.getD other 0 = l'.subagentOrdinal.getD other 0)
    (hframes : l''.frames = l'.frames ++ [f]) (hmessage : f.isMessage)
    (hordinal : f.ordinal = some (assign (l'.msgOrdinals subagentId)
      (l'.subagentOrdinal.getD subagentId 0) f.key).1) (htagged : f.untagged = false) :
    Adds (.subagentMessages subagentId) l l'' (added ++ [f]) where
  frames := by rw [hframes, h.frames, List.append_assoc]
  numbers other mine hmine := by
    have hnumbers := h.numbers other mine hmine
    rw [Ledger.Numbers] at hnumbers ⊢
    by_cases hother : other = subagentId
    · subst hother
      simp only [TaskName.speaksFor, decide_true, if_true] at hnumbers ⊢
      rw [hordinals, hnext, ← List.append_assoc]
      exact hnumbers.write hmessage hordinal
    · have hspeaks : TaskName.speaksFor (.subagentMessages subagentId) other = false :=
        decide_eq_false fun h => hother h.symm
      rw [hspeaks, (hothers other hother).1, (hothers other hother).2]
      simpa [hspeaks] using hnumbers
  tagged := by
    refine List.forall_mem_append.mpr ⟨h.tagged, List.forall_mem_singleton.mpr fun _ => ?_⟩
    exact iff_of_true htagged ⟨subagentId, decide_eq_true rfl⟩

end Adds

theorem TaskName.speaksFor_of_own {name : TaskName} (h : name.isSubagent = false)
    (subagentId : String) : name.speaksFor subagentId = false := by
  cases name with
  | subagentMessages other => cases h
  | _ => rfl

def counterProtocol (allowed : TaskName → World → Prop) (orderStart ordinalStart : ℤ) :
    Protocol TaskName World where
  inv w := Counted allowed orderStart ordinalStart w.ledger
  allowed := allowed
  rely w w' := w.self.orderByKey.Extends w'.self.orderByKey
  guarantee name w w' := w.self.orderByKey.Extends w'.self.orderByKey ∧
    (name.isSubagent → w'.self.ordinals = w.self.ordinals) ∧
    ∃ added, Adds name w.ledger w'.ledger added
  rely_refl _ := OrderedDict.Extends.refl _
  rely_trans := OrderedDict.Extends.trans
  guarantee_refl name w := ⟨OrderedDict.Extends.refl _, fun _ => rfl, [], Adds.refl name w.ledger⟩
  guarantee_trans := by
    rintro name w w' w'' ⟨he, hn, added, ha⟩ ⟨he', hn', added', ha'⟩
    exact ⟨he.trans he', fun h => (hn' h).trans (hn h), _, ha.trans ha'⟩
  rely_of_guarantee h := h.1

theorem DrawnFrom.extend {allowed : TaskName → World → Prop} {start : ℤ} {key : String}
    {d e : OrderedDict String ℤ} (h : DrawnFrom allowed start key d) (he : d.Extends e) :
    DrawnFrom allowed start key e := by
  obtain ⟨tc, w, hk, ha, hw, hn, hd⟩ := h
  exact ⟨tc, w, hk, ha, hw, hn, hd.trans he⟩

theorem counted_start (allowed : TaskName → World → Prop)
    (threadId runId summaryPrefix : String) (s n : ℤ) :
    Counted allowed s n
      (World.start (Translator.seeded threadId runId summaryPrefix s n)).ledger where
  orders := Stamps.nil s
  ordinals := Stamps.nil n
  links := fun _ _ h => nomatch h
  drawn := fun _ h => nomatch h
  writer := fun _ h => nomatch h
  notRun := fun _ h => nomatch h

namespace Counted

variable {allowed : TaskName → World → Prop} {s n : ℤ} {l : Ledger}

theorem forall_mem_concat {p : Frame → Prop} {frames : List Frame} {f : Frame}
    (h : ∀ g ∈ frames, p g) (hf : p f) : ∀ g ∈ frames ++ [f], p g := by
  intro g hg
  rcases List.mem_append.mp hg with hg | hg
  · exact h g hg
  · rw [List.mem_singleton.mp hg]
    exact hf

theorem write_other (h : Counted allowed s n l) {f : Frame} (haux : f.type.auxiliary) :
    Counted allowed s n { l with frames := l.frames ++ [f] } := by
  obtain ⟨hm, ht, hr⟩ := RowType.ne_of_auxiliary haux
  have hplaced : f.placed = false := by simp [Frame.placed, hm, ht]
  exact
    { orders := h.orders.skip hplaced
      ordinals := h.ordinals.skip (by simp [Frame.transcript, hm])
      links := h.links
      drawn := forall_mem_concat h.drawn fun htype _ => absurd htype ht
      writer := forall_mem_concat h.writer fun hp _ => by simp [hplaced] at hp
      notRun := forall_mem_concat h.notRun hr }

theorem drawn_assign (h : Counted allowed s n l) (key : String) :
    ∀ f ∈ l.frames, f.type = .tool → f.untagged →
      DrawnFrom allowed s f.key (assign l.orderByKey l.orderSeq key).2.1 :=
  fun f hf htype hun => (h.drawn f hf htype hun).extend (assign_extends _ _ _)

/-- A message row of the main transcript: both counters are asked for its key. -/
theorem write_transcript (h : Counted allowed s n l) {f : Frame} (hm : f.type = .message)
    (hun : f.untagged) (ho : f.order = some (assign l.orderByKey l.orderSeq f.key).1)
    (hn : f.ordinal = some (assign l.ordinals l.ordinal f.key).1) :
    Counted allowed s n
      { l with
        orderByKey := (assign l.orderByKey l.orderSeq f.key).2.1
        orderSeq := (assign l.orderByKey l.orderSeq f.key).2.2
        ordinals := (assign l.ordinals l.ordinal f.key).2.1
        ordinal := (assign l.ordinals l.ordinal f.key).2.2
        frames := l.frames ++ [f] } where
  orders := h.orders.write (by simp [Frame.placed, hm]) ho
  ordinals := h.ordinals.write (by simp [Frame.transcript, hm, hun]) hn
  links := h.links
  drawn := forall_mem_concat (h.drawn_assign _) fun htype _ => by simp [hm] at htype
  writer := forall_mem_concat h.writer fun _ htag => by simp [hun] at htag
  notRun := forall_mem_concat h.notRun (by simp [hm])

theorem write_nested (h : Counted allowed s n l) {f : Frame} (hm : f.type = .message)
    (hun : f.untagged = false) (ho : f.order = some (assign l.orderByKey l.orderSeq f.key).1)
    (hstep : NestedStep allowed) :
    Counted allowed s n
      { l with
        orderByKey := (assign l.orderByKey l.orderSeq f.key).2.1
        orderSeq := (assign l.orderByKey l.orderSeq f.key).2.2
        frames := l.frames ++ [f] } where
  orders := h.orders.write (by simp [Frame.placed, hm]) ho
  ordinals := h.ordinals.skip (by simp [Frame.transcript, hun])
  links := h.links
  drawn := forall_mem_concat (h.drawn_assign _) fun htype _ => by simp [hm] at htype
  writer := forall_mem_concat h.writer fun _ _ => hstep
  notRun := forall_mem_concat h.notRun (by simp [hm])

theorem write_tool (h : Counted allowed s n l) {f : Frame} (ht : f.type = .tool)
    (ho : f.order = some (assign l.orderByKey l.orderSeq f.key).1)
    (hdrawn : f.untagged → DrawnFrom allowed s f.key l.orderByKey)
    (hstep : f.untagged = false → NestedStep allowed) :
    Counted allowed s n
      { l with
        orderByKey := (assign l.orderByKey l.orderSeq f.key).2.1
        orderSeq := (assign l.orderByKey l.orderSeq f.key).2.2
        frames := l.frames ++ [f] } where
  orders := h.orders.write (by simp [Frame.placed, ht]) ho
  ordinals := h.ordinals.skip (by simp [Frame.transcript, ht])
  links := h.links
  drawn := forall_mem_concat (h.drawn_assign _) fun _ hun =>
    (hdrawn hun).extend (assign_extends _ _ _)
  writer := forall_mem_concat h.writer fun _ htag => hstep htag
  notRun := forall_mem_concat h.notRun (by simp [ht])

/-- A later row of a call that has its number. -/
theorem rewrite_tool (h : Counted allowed s n l) {f : Frame} {o : ℤ} (ht : f.type = .tool)
    (hk : l.orderByKey.get f.key = some o) (ho : f.order = some o)
    (hdrawn : f.untagged → DrawnFrom allowed s f.key l.orderByKey)
    (hstep : f.untagged = false → NestedStep allowed) :
    Counted allowed s n { l with frames := l.frames ++ [f] } := by
  have hsame := assign_of_get_some l.orderSeq hk
  have hw := h.write_tool ht (by rw [ho, hsame]) hdrawn hstep
  rw [hsame] at hw
  exact hw

end Counted

namespace Translator

theorem msgOrdinals_nextSubagentOrdinal (t : Translator) (subagentId msgId other : String) :
    (t.nextSubagentOrdinal subagentId msgId).2.msgOrdinals other =
      if subagentId = other ∧ (t.msgOrdinals subagentId).get msgId = none then
        (t.msgOrdinals subagentId).set msgId (t.subagentOrdinal.getD subagentId 0)
      else t.msgOrdinals other := by
  cases hk : (t.msgOrdinals subagentId).get msgId with
  | some existing =>
      simp only [nextSubagentOrdinal, hk, reduceCtorEq, and_false, if_false]
      apply (OrderedDict.getD_set _ _ _ _ _).trans
      split_ifs with ho
      · rw [ho]
      · rfl
  | none =>
      simp only [nextSubagentOrdinal, hk, and_true]
      exact OrderedDict.getD_set _ _ _ _ _

theorem getD_nextSubagentOrdinal (t : Translator) (subagentId msgId other : String) :
    (t.nextSubagentOrdinal subagentId msgId).2.subagentOrdinal.getD other 0 =
      if subagentId = other ∧ (t.msgOrdinals subagentId).get msgId = none then
        t.subagentOrdinal.getD subagentId 0 + 1
      else t.subagentOrdinal.getD other 0 := by
  cases hk : (t.msgOrdinals subagentId).get msgId with
  | some existing => simp [nextSubagentOrdinal, hk]
  | none =>
      simp only [nextSubagentOrdinal, hk, and_true]
      exact OrderedDict.getD_set _ _ _ _ _

theorem nextSubagentOrdinal_eq_assign (t : Translator) (subagentId msgId : String) :
    (t.nextSubagentOrdinal subagentId msgId).1 = (assign (t.msgOrdinals subagentId)
        (t.subagentOrdinal.getD subagentId 0) msgId).1 ∧
      (t.nextSubagentOrdinal subagentId msgId).2.msgOrdinals subagentId =
        (assign (t.msgOrdinals subagentId) (t.subagentOrdinal.getD subagentId 0) msgId).2.1 ∧
      (t.nextSubagentOrdinal subagentId msgId).2.subagentOrdinal.getD subagentId 0 =
        (assign (t.msgOrdinals subagentId) (t.subagentOrdinal.getD subagentId 0) msgId).2.2 := by
  rw [msgOrdinals_nextSubagentOrdinal, getD_nextSubagentOrdinal]
  cases hk : (t.msgOrdinals subagentId).get msgId with
  | some existing => simp [nextSubagentOrdinal, assign, hk]
  | none => simp [nextSubagentOrdinal, assign, hk]

end Translator

end StreamDB
