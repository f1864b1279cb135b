import StreamDB.DrainRules

/-!
# The rows as a protocol of the translator's tasks

A block of a task adds nothing but rows of that task, a task that drains no message leaves the
captured texts alone, and a task of a subagent leaves the whole salvage view alone.
-/

namespace StreamDB

open Coroutine

/-- Frames with the property have been put behind the others. -/
def World.Adds (Q : Frame → Prop) (w w' : World) : Prop :=
  ∃ frames, w'.frames = w.frames ++ frames ∧ ∀ f ∈ frames, Q f

namespace World.Adds

variable {Q : Frame → Prop} {w w' w'' : World}

theorem of_frames_eq (h : w'.frames = w.frames) : Adds Q w w' :=
  ⟨[], by rw [h, List.append_nil], fun _ hf => nomatch hf⟩

theorem trans (h : Adds Q w w') (h' : Adds Q w' w'') : Adds Q w w'' := by
  obtain ⟨frames, hframes, hnew⟩ := h
  obtain ⟨frames', hframes', hnew'⟩ := h'
  refine ⟨frames ++ frames', ?_, List.forall_mem_append.mpr ⟨hnew, hnew'⟩⟩
  rw [hframes', hframes, List.append_assoc]

theorem of_write {f : Frame} (h : Q f) : Adds Q w (w.write f) :=
  ⟨[f], rfl, List.forall_mem_singleton.mpr h⟩

/-- A property of all new frames is one of all frames. -/
theorem forall_mem (h : Adds Q w w') (hw : ∀ f ∈ w.frames, Q f) : ∀ f ∈ w'.frames, Q f := by
  obtain ⟨frames, hframes, hnew⟩ := h
  rw [hframes]
  exact List.forall_mem_append.mpr ⟨hw, hnew⟩

end World.Adds

/-- The tags of the subagents, and which of them their drains may go on with. -/
structure LinkView where
  tags : OrderedDict String String
  ready : String → Bool

def Translator.linkView (t : Translator) : LinkView := ⟨t.subagentToolCall, t.subagentLinked⟩

/-- An event that is created lets no drain go on. -/
theorem Translator.linkView_subagentEvent (subagentId : String) (t : Translator) :
    (t.subagentEvent subagentId).linkView = t.linkView := by
  have hready : (t.subagentEvent subagentId).subagentLinked = t.subagentLinked := by
    funext other
    change ((t.subagentReady.setDefault subagentId false).get other).getD false =
      (t.subagentReady.get other).getD false
    rw [OrderedDict.get_setDefault]
    split_ifs
    · rfl
    · rfl
  rw [linkView, hready]
  rfl

/-- A link concerns nothing but the two fields. -/
theorem Translator.recordSubagentLink_eq (payload : Entries) (t : Translator) :
    ∃ tags ready, t.recordSubagentLink payload =
      { t with subagentToolCall := tags, subagentReady := ready } := by
  unfold recordSubagentLink
  split
  · exact ⟨_, _, rfl⟩
  · exact ⟨t.subagentToolCall, t.subagentReady, rfl⟩

namespace Setting

variable (E : Setting)

/-- A drain that may go on finds a tag, one that a payload has started its subagent with. -/
structure Linking (v : LinkView) : Prop where
  started : ∀ subagentId tag, v.tags.get subagentId = some tag → E.Started subagentId tag
  ready : ∀ subagentId, v.ready subagentId → v.tags.get subagentId ≠ none

structure Conforms (w : World) : Prop where
  threadId : w.self.threadId = E.threadId
  summaryPrefix : w.self.summaryPrefix = E.summaryPrefix
  links : E.Linking w.self.linkView

structure Advances (name : TaskName) (w w' : World) : Prop where
  rows : ∃ frames, w'.frames = w.frames ++ frames ∧ ∀ f ∈ frames, E.WrittenBy name f
  texts : w'.self.emittedTexts = w.self.emittedTexts ∨ E.Captures name
  turn : name.isSubagent → w'.self.emittedTurn = w.self.emittedTurn

theorem Advances.refl (name : TaskName) (w : World) : E.Advances name w w :=
  ⟨World.Adds.of_frames_eq rfl, .inl rfl, fun _ => rfl⟩

variable {E} in
theorem Advances.trans {name : TaskName} {w w' w'' : World} (h : E.Advances name w w')
    (h' : E.Advances name w' w'') : E.Advances name w w'' := by
  refine ⟨World.Adds.trans h.rows h'.rows, ?_, fun hn => (h'.turn hn).trans (h.turn hn)⟩
  rcases h.texts with ht | hc
  · rcases h'.texts with ht' | hc
    · exact .inl (ht'.trans ht)
    · exact .inr hc
  · exact .inr hc

def rowProtocol : Protocol TaskName World where
  inv := E.Conforms
  allowed := E.allowed
  rely _ _ := True
  guarantee := E.Advances
  rely_refl _ := trivial
  rely_trans _ _ := trivial
  guarantee_refl := Advances.refl E
  guarantee_trans := Advances.trans
  rely_of_guarantee _ := trivial

/-- A change of the instance fields that concerns no row. -/
structure Benign (name : TaskName) (t t' : Translator) : Prop where
  threadId : t'.threadId = t.threadId
  summaryPrefix : t'.summaryPrefix = t.summaryPrefix
  links : t'.linkView = t.linkView
  texts : t'.emittedTexts = t.emittedTexts ∨ E.Captures name
  turn : name.isSubagent → t'.emittedTurn = t.emittedTurn

variable {E} {name : TaskName} {α β : Type}

/-- Rows of the given task, and of the tasks it creates. -/
abbrev Writes (E : Setting) (name : TaskName) (p : Task α) : Prop := Preserves E.rowProtocol name p

theorem conforms_start (rt : Runtime) (source : TaskName → Item → Prop)
    (allowed : TaskName → World → Prop) (threadId runId summaryPrefix : String) (s n : ℤ) :
    Conforms ⟨rt, threadId, summaryPrefix, source, allowed⟩
      (World.start (Translator.seeded threadId runId summaryPrefix s n)) where
  threadId := rfl
  summaryPrefix := rfl
  links := ⟨nofun, nofun⟩

theorem conforms_of_benign {w : World} (h : E.Conforms w) {t : Translator}
    (ht : E.Benign name w.self t) : E.Conforms { w with self := t } where
  threadId := ht.threadId.trans h.threadId
  summaryPrefix := ht.summaryPrefix.trans h.summaryPrefix
  links := by
    change E.Linking t.linkView
    rw [ht.links]
    exact h.links

theorem advances_of_benign {w : World} {t : Translator} (ht : E.Benign name w.self t) :
    E.Advances name w { w with self := t } :=
  ⟨World.Adds.of_frames_eq rfl, ht.texts, ht.turn⟩

theorem writes_onSelf {f : Translator → α × Translator}
    (hf : ∀ t, E.Benign name t (f t).2) : E.Writes name (onSelf f) :=
  preserves_atomically fun w hw =>
    ⟨advances_of_benign (hf w.self), conforms_of_benign hw (hf w.self)⟩

theorem writes_updateSelf {f : Translator → Translator} (hf : ∀ t, E.Benign name t (f t)) :
    E.Writes name (updateSelf f) :=
  preserves_atomically fun w hw =>
    ⟨advances_of_benign (hf w.self), conforms_of_benign hw (hf w.self)⟩

/-- A step outside the translator that writes nothing. -/
theorem writes_atomically {f : World → α × World} (hself : ∀ w, (f w).2.self = w.self)
    (hframes : ∀ w, (f w).2.frames = w.frames) : E.Writes name (Proc.atomically f) := by
  apply preserves_atomically
  intro w hw
  have hs := hself w
  refine ⟨⟨World.Adds.of_frames_eq (hframes w), .inl (by rw [hs]), fun _ => by rw [hs]⟩,
    ⟨?_, ?_, ?_⟩⟩
  · rw [hs]
    exact hw.threadId
  · rw [hs]
    exact hw.summaryPrefix
  · rw [hs]
    exact hw.links

theorem writes_nowMs (rt : Runtime) : E.Writes name (nowMs rt) :=
  writes_atomically (fun _ => rfl) fun _ => rfl

theorem writes_upsert {type : RowType} {key : String} {row : Row} {txid : Option String}
    (h : E.WrittenBy name (upsertFrame type key row txid)) :
    E.Writes name (upsert type key row txid) := by
  refine preserves_bind (preserves_atomically fun w hw => ⟨?_, ?_⟩) fun _ => preserves_suspend
  · exact ⟨World.Adds.of_write h, .inl rfl, fun _ => rfl⟩
  · exact ⟨hw.threadId, hw.summaryPrefix, hw.links⟩

/-- What is read from the instance is what the setting says. -/
theorem writes_readSelf_bind {f : Translator → Task β}
    (hf : ∀ t, t.threadId = E.threadId → t.summaryPrefix = E.summaryPrefix → E.Writes name (f t)) :
    E.Writes name (readSelf >>= f) := by
  refine preserves_bind_of
    (Q := fun t => t.threadId = E.threadId ∧ t.summaryPrefix = E.summaryPrefix) ?_
    fun t ht => hf t ht.1 ht.2
  exact triple_atomically fun w hw => ⟨Advances.refl E name w, hw, hw.threadId, hw.summaryPrefix⟩

/-- A payload that starts a subagent sets its tag and its event. -/
theorem linking_recordSubagentLink {payload : Entries} {t : Translator}
    (hstarts : ∀ subagentId tag, StartsSubagent payload subagentId tag → E.Started subagentId tag)
    (htype : (payload.get "content_type").isStr "subagent_start") (h : E.Linking t.linkView) :
    E.Linking (t.recordSubagentLink payload).linkView := by
  cases hid : payload.get "subagent_id" with
  | str subagentId =>
      cases htag : (payload.get "tool_call_id").nonemptyStr with
      | none =>
          simp only [Translator.recordSubagentLink, hid, htag]
          exact h
      | some tag =>
          simp only [Translator.recordSubagentLink, hid, htag]
          refine ⟨fun other tag' hget => ?_, fun other hready => ?_⟩
          · change (t.subagentToolCall.set subagentId tag).get other = some tag' at hget
            rw [OrderedDict.get_set] at hget
            split_ifs at hget with ho
            · rw [← ho, ← Option.some.inj hget]
              exact hstarts subagentId tag ⟨htype, hid, htag⟩
            · exact h.started other tag' hget
          · change (t.subagentReady.set subagentId true).getD other false at hready
            change (t.subagentToolCall.set subagentId tag).get other ≠ none
            rw [OrderedDict.getD_set] at hready
            rw [OrderedDict.get_set]
            split_ifs at hready ⊢
            · exact Option.some_ne_none tag
            · exact h.ready other hready
  | _ =>
      simp only [Translator.recordSubagentLink, hid]
      exact h

theorem conforms_recordSubagentLink {payload : Entries} {w : World}
    (hstarts : ∀ subagentId tag, StartsSubagent payload subagentId tag → E.Started subagentId tag)
    (htype : (payload.get "content_type").isStr "subagent_start") (h : E.Conforms w) :
    E.Conforms { w with self := w.self.recordSubagentLink payload } := by
  have hlinks := linking_recordSubagentLink hstarts htype h.links
  obtain ⟨tags, ready, heq⟩ := w.self.recordSubagentLink_eq payload
  rw [heq] at hlinks ⊢
  exact ⟨h.threadId, h.summaryPrefix, hlinks⟩

/-- A fresh id draws a uuid. -/
theorem writes_freshId_bind {tag : String} {f : String → Task β}
    (hf : ∀ n, E.Writes name (f (tag ++ E.rt.uuidHex n))) :
    E.Writes name (freshId E.rt tag >>= f) := by
  refine preserves_bind_of (Q := fun id => ∃ n, id = tag ++ E.rt.uuidHex n) ?_ ?_
  · refine triple_atomically fun w hw =>
      ⟨?_, ⟨hw.threadId, hw.summaryPrefix, hw.links⟩, w.uuids, rfl⟩
    exact ⟨World.Adds.of_frames_eq rfl, .inl rfl, fun _ => rfl⟩
  · rintro _ ⟨n, rfl⟩
    exact hf n

theorem drawsIds_rowProtocol : DrawsIds E.rowProtocol := fun _ _ hw =>
  ⟨⟨World.Adds.of_frames_eq rfl, .inl rfl, fun _ => rfl⟩, hw.threadId, hw.summaryPrefix, hw.links⟩

theorem writes_idOr_bind {tag : String} {value : Option String} {f : String → Task β}
    (hf : ∀ id, ResolvesTo E.rt tag value id → E.Writes name (f id)) :
    E.Writes name (idOr E.rt tag value >>= f) :=
  preserves_idOr_bind drawsIds_rowProtocol hf

end Setting

end StreamDB
