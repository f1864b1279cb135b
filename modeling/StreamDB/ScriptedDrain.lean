import StreamDB.OwnedChannel
import StreamDB.Script

/-!
# The script of a drain

Rules for an owner among the tasks of a translator, whose part is read off the frames: the steps
that write no frame add nothing to its script, and a row it writes is one entry.
-/

namespace StreamDB

open Coroutine

variable {π μ α : Type} {O : Ownership TaskName World PyException π} {E : Setting}
  {shows : List μ → π → Prop} {whole : Script μ PyException}

variable (O E shows whole) in
/-- The owner keeps its rows in the script, next to tasks that keep to their own. -/
structure ScriptedDrain : Prop where
  env : O.env = E.rowProtocol
  frames : ∀ w w', w.frames = w'.frames → O.part w = O.part w'
  logs : Script.Logs O shows whole

namespace ScriptedDrain

variable (D : ScriptedDrain O E shows whole)

include D

theorem conforms {es : List μ} {w : World} (h : Script.At O shows es w) : E.Conforms w := by
  have hi := h.1
  rwa [D.env] at hi

/-- A step that leaves the links, the thread and the frames alone. -/
theorem performs_atomically_bind {f : World → α × World} {g : α → Task Unit}
    {r : Script μ PyException}
    (hself : ∀ w, (f w).2.self.threadId = w.self.threadId ∧
      (f w).2.self.summaryPrefix = w.self.summaryPrefix ∧
      (f w).2.self.linkView = w.self.linkView)
    (hframes : ∀ w, (f w).2.frames = w.frames)
    (hg : ∀ w, E.Conforms w → Script.Performs O shows whole (g (f w).1) r) :
    Script.Performs O shows whole (Proc.atomically f >>= g) r := by
  intro es later hwhole k w hw hk
  have hi := D.conforms hw
  refine hg w hi es later hwhole k (f w).2 ⟨?_, ?_⟩ hk
  · obtain ⟨hthread, hsummary, hlinks⟩ := hself w
    rw [D.env]
    exact ⟨hthread.trans hi.threadId, hsummary.trans hi.summaryPrefix,
      by rw [hlinks]; exact hi.links⟩
  · rw [D.frames _ _ (hframes w)]
    exact hw.2

theorem performs_atomically {f : World → Unit × World}
    (hself : ∀ w, (f w).2.self.threadId = w.self.threadId ∧
      (f w).2.self.summaryPrefix = w.self.summaryPrefix ∧
      (f w).2.self.linkView = w.self.linkView)
    (hframes : ∀ w, (f w).2.frames = w.frames) :
    Script.Performs O shows whole (Proc.atomically f) .done :=
  D.performs_atomically_bind (g := pure) hself hframes fun _ _ => Script.performs_pure

theorem performs_readSelf_bind {f : Translator → Task Unit} {r : Script μ PyException}
    (hf : ∀ t, t.threadId = E.threadId → t.summaryPrefix = E.summaryPrefix →
      Script.Performs O shows whole (f t) r) :
    Script.Performs O shows whole (readSelf >>= f) r :=
  D.performs_atomically_bind (fun _ => ⟨rfl, rfl, rfl⟩) (fun _ => rfl)
    fun w hw => hf w.self hw.threadId hw.summaryPrefix

theorem performs_freshId_bind {rt : Runtime} {tag : String} {f : String → Task Unit}
    {r : Script μ PyException}
    (hf : ∀ n, Script.Performs O shows whole (f (tag ++ rt.uuidHex n)) r) :
    Script.Performs O shows whole (freshId rt tag >>= f) r :=
  D.performs_atomically_bind (fun _ => ⟨rfl, rfl, rfl⟩) (fun _ => rfl) fun w _ => hf w.uuids

theorem performs_idOr_bind {rt : Runtime} {tag : String} {value : Option String}
    {f : String → Task Unit} {r : Script μ PyException}
    (hf : ∀ id, ResolvesTo rt tag value id → Script.Performs O shows whole (f id) r) :
    Script.Performs O shows whole (idOr rt tag value >>= f) r := by
  rw [idOr]
  split_ifs with habsent
  · exact D.performs_freshId_bind fun n => hf _ (.fresh habsent n)
  · exact hf _ (.given habsent)

theorem performs_nowMs_bind {rt : Runtime} {f : ℤ → Task Unit} {r : Script μ PyException}
    (hf : ∀ now, Script.Performs O shows whole (f now) r) :
    Script.Performs O shows whole (nowMs rt >>= f) r :=
  D.performs_atomically_bind (fun _ => ⟨rfl, rfl, rfl⟩) (fun _ => rfl) fun _ _ => hf _

theorem performs_suspend_bind {f : Unit → Task Unit} {r : Script μ PyException}
    (hf : Script.Performs O shows whole (f ()) r) :
    Script.Performs O shows whole (Proc.suspend >>= f) r :=
  fun es later hwhole => runs_bind
    (Script.runs_awaiting_at D.logs (Script.prefix_entries hwhole) _) fun _ => hf es later hwhole

theorem performs_close {β : Type} (feed : Feed β) :
    Script.Performs O shows whole feed.close ⟨[], feed.error⟩ := by
  rw [Feed.close]
  cases feed.error with
  | none => exact Script.performs_pure
  | some exc => exact Script.performs_raise D.logs exc

theorem performs_drainProjection {β : Type} {p : Projection} {body : β → Task Unit} {feed : Feed β}
    {f : β → Script μ PyException}
    (hbody : ∀ item ∈ feed.items, Script.Performs O shows whole (body item) (f item)) :
    Script.Performs O shows whole (drainProjection p body feed)
      ((Script.forEach f feed.items).andThen ⟨[], feed.error⟩) :=
  Script.performs_bind (Script.performs_asyncFor D.logs 0 hbody) (D.performs_close feed)

theorem performs_drainFeed {β : Type} {body : β → Task Unit} {feed : Feed β}
    {f : β → Script μ PyException}
    (hbody : ∀ item ∈ feed.items, Script.Performs O shows whole (body item) (f item)) :
    Script.Performs O shows whole (drainFeed body feed)
      ((Script.forEach f feed.items).andThen ⟨[], feed.error⟩) :=
  Script.performs_bind (Script.performs_asyncFor D.logs 0 hbody) (D.performs_close feed)

/-- A row that leaves the log of the owner with the given entries. -/
theorem performs_write {type : RowType} {key : String} {row : Row} {txid : Option String}
    {written : List μ}
    (hshown : ∀ es w, shows es (O.part w) →
      shows (es ++ written) (O.part (w.write (upsertFrame type key row txid)))) :
    Script.Performs O shows whole (upsert type key row txid) ⟨written, none⟩ := by
  intro es later hwhole
  have hnext : whole = (⟨es ++ written, none⟩ : Script μ PyException).andThen later := by
    rw [hwhole, ← Script.andThen_assoc]
    rfl
  have hsuspend : Runs O (Script.At O shows (es ++ written)) Proc.suspend fun _ =>
      Script.At O shows (es ++ written) :=
    Script.runs_awaiting_at D.logs (Script.prefix_entries hnext) _
  refine (runs_bind (runs_atomically fun w hw => ⟨?_, hshown es w hw.2⟩)
    fun _ => hsuspend).weaken fun _ w hw => ⟨rfl, hw⟩
  have hi := D.conforms hw
  rw [D.env]
  exact ⟨hi.threadId, hi.summaryPrefix, hi.links⟩

end ScriptedDrain

end StreamDB
