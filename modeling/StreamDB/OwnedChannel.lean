import StreamDB.DrainRows
import StreamDB.Ownership

/-!
# A channel and the rows it alone writes

A translator with one activity singled out: the others write rows of their own items only, so a
part of the state that no such row touches belongs to the one.
-/

namespace StreamDB

open Coroutine

variable {π : Type} {rt : Runtime} {threadId runId summaryPrefix : String} {s t : ℤ}
  {before after : List Activity} {a : Activity}

theorem thread_of_other {j : ℕ} {thread : TaskName × TaskCode} (hj : j ≠ before.length)
    (h : (startSystem rt (Translator.seeded threadId runId summaryPrefix s t)
      (before ++ a :: after)).threads[j]? = some thread) :
    ∃ other ∈ before ++ after, thread = other.thread rt := by
  simp only [startSystem, List.getElem?_map, Option.map_eq_some_iff] at h
  obtain ⟨other, hother, rfl⟩ := h
  refine ⟨other, ?_, rfl⟩
  rw [List.getElem?_append] at hother
  split_ifs at hother with hlt
  · exact List.mem_append_left _ (List.mem_of_getElem? hother)
  · obtain ⟨k, hk⟩ : ∃ k, j - before.length = k + 1 := ⟨j - before.length - 1, by omega⟩
    rw [hk, List.getElem?_cons_succ] at hother
    exact List.mem_append_right _ (List.mem_of_getElem? hother)

/-- The others keep to the protocol of their rows. -/
theorem stable_of_other {j : ℕ} {thread : TaskName × TaskCode} (hj : j ≠ before.length)
    (h : (startSystem rt (Translator.seeded threadId runId summaryPrefix s t)
      (before ++ a :: after)).threads[j]? = some thread) (w : World) :
    Stable (settingOf rt threadId summaryPrefix (before ++ after) anyStep).rowProtocol thread
      w := by
  obtain ⟨other, hother, rfl⟩ := thread_of_other hj h
  let E := settingOf rt threadId summaryPrefix (before ++ after) anyStep
  exact stable_of_preserves (Setting.writes_activity (E := E) (fun _ _ h => h) hother) w

theorem thread_of_own :
    (startSystem rt (Translator.seeded threadId runId summaryPrefix s t)
      (before ++ a :: after)).threads[before.length]? = some (a.thread rt) := by
  simp [startSystem]

/-- At the start, everything the singled out activity owns is as it should be. -/
theorem ownedBy_start {O : Ownership TaskName World PyException π}
    (henv : O.env = (settingOf rt threadId summaryPrefix (before ++ after) anyStep).rowProtocol)
    (hmid : O.mid (O.part (World.start (Translator.seeded threadId runId summaryPrefix s t))))
    (howned : Owned O (a.task rt).code
      (World.start (Translator.seeded threadId runId summaryPrefix s t))) :
    OwnedBy O before.length a.name False
      (startSystem rt (Translator.seeded threadId runId summaryPrefix s t)
        (before ++ a :: after)) where
  rests := by
    refine ⟨?_, hmid⟩
    rw [henv]
    exact Setting.conforms_start _ _ _ _ _ _ _ _
  others j thread hj hthread := by
    rw [henv]
    exact stable_of_other hj hthread _
  owner := ⟨_, thread_of_own, .inr howned⟩

/-! ## Programs of the singled out activity -/

section Programs

variable {O : Ownership TaskName World PyException π} {E : Setting} {α β : Type} {v v' : π}

theorem runs_readSelf_bind (henv : O.env = E.rowProtocol) {f : Translator → Task β}
    {post : β → World → Prop}
    (hf : ∀ t, t.threadId = E.threadId → t.summaryPrefix = E.summaryPrefix →
      Runs O (Holds O v) (f t) post) : Runs O (Holds O v) (readSelf >>= f) post := by
  intro k w hw hk
  have hconforms : E.Conforms w := by
    have hi := hw.1
    rwa [henv] at hi
  exact hf w.self hconforms.threadId hconforms.summaryPrefix k w hw hk

/-- A step that leaves the links and the thread alone. -/
theorem runs_atomically_of (henv : O.env = E.rowProtocol) {f : World → α × World}
    (hself : ∀ w, (f w).2.self.threadId = w.self.threadId ∧
      (f w).2.self.summaryPrefix = w.self.summaryPrefix ∧
      (f w).2.self.linkView = w.self.linkView)
    (hpart : ∀ w, O.part w = v → O.part (f w).2 = v') :
    Runs O (Holds O v) (Proc.atomically f) fun _ => Holds O v' := by
  apply runs_atomically
  intro w hw
  refine ⟨?_, hpart w hw.2⟩
  have hi := hw.1
  rw [henv] at hi ⊢
  obtain ⟨hthread, hsummary, hlinks⟩ := hself w
  exact ⟨hthread.trans hi.threadId, hsummary.trans hi.summaryPrefix, by rw [hlinks]; exact hi.links⟩

theorem runs_upsert (henv : O.env = E.rowProtocol) {type : RowType} {key : String} {row : Row}
    {txid : Option String}
    (hpart : ∀ w, O.part w = v → O.part (w.write (upsertFrame type key row txid)) = v')
    (hmid : O.mid v') :
    Runs O (Holds O v) (upsert type key row txid) fun _ => Holds O v' :=
  runs_bind (runs_atomically_of henv (fun _ => ⟨rfl, rfl, rfl⟩) hpart) fun _ => runs_suspend hmid

end Programs

end StreamDB
