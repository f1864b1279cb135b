import StreamDB.LastWriter

/-!
# Reading a log again

A reader applies the writes of a log to the collections it holds. It may go back to any place it
has been at and read on from there, over what it holds. While it reads again, a key may hold an
older value; by the time it has come as far as it had been, every key holds the last one.
-/

namespace LastWriter

variable {τ κ ν : Type} [DecidableEq τ] [DecidableEq κ]

/-! ## Several collections -/

def applyTo (held : τ → OrderedDict κ ν) (write : τ × κ × Option ν) : τ → OrderedDict κ ν :=
  fun t => if write.1 = t then put (held t) write.2 else held t

/-- What a store of several collections holds after a log. -/
def collectAll (log : List (τ × κ × Option ν)) : τ → OrderedDict κ ν :=
  log.foldl applyTo fun _ => .empty

theorem get_applyTo (held : τ → OrderedDict κ ν) (write : τ × κ × Option ν) (t : τ) (k : κ) :
    (applyTo held write t).get k =
      if (write.1, write.2.1) = (t, k) then write.2.2 else (held t).get k := by
  obtain ⟨t', k', v⟩ := write
  by_cases ht : t' = t
  · rw [applyTo, if_pos ht, get_put, ht]
    simp
  · rw [applyTo, if_neg ht]
    simp [ht]

theorem collectAll_concat (log : List (τ × κ × Option ν)) (write : τ × κ × Option ν) :
    collectAll (log ++ [write]) = applyTo (collectAll log) write := List.foldl_concat ..

theorem get_collectAll_append_of_not_mem (log : List (τ × κ × Option ν))
    {later : List (τ × κ × Option ν)} {t : τ} {k : κ}
    (h : ∀ write ∈ later, (write.1, write.2.1) ≠ (t, k)) :
    (collectAll (log ++ later) t).get k = (collectAll log t).get k := by
  induction later using List.reverseRecOn with
  | nil => rw [List.append_nil]
  | append_singleton later write ih =>
      rw [← List.append_assoc, collectAll_concat, get_applyTo, if_neg (h write (by simp))]
      exact ih fun w hw => h w (List.mem_append_left _ hw)

theorem collectAll_eq (log : List (τ × κ × Option ν)) (t : τ) :
    collectAll log t = collect ((log.filter fun write => write.1 = t).map Prod.snd) := by
  induction log using List.reverseRecOn with
  | nil => rfl
  | append_singleton log write ih =>
      rw [collectAll_concat, applyTo, ih, List.filter_append, List.map_append]
      split_ifs with ht
      · rw [List.filter_cons_of_pos (by simpa using ht), collect, collect, List.foldl_append]
        rfl
      · rw [List.filter_cons_of_neg (by simpa using ht)]
        simp

/-! ## Readers -/

/-- What a reader holds, which write it reads next, and how far it has been. -/
structure Reader (τ κ ν : Type) where
  held : τ → OrderedDict κ ν
  offset : ℕ
  furthest : ℕ

namespace Reader

def start : Reader τ κ ν := ⟨fun _ => .empty, 0, 0⟩

inductive Move where
  | read
  /-- It comes back with what it holds, and reads on from a place it has been at. -/
  | rejoin (offset : ℕ)
  | restart

def move (log : List (τ × κ × Option ν)) (r : Reader τ κ ν) : Move → Option (Reader τ κ ν)
  | .read => (log[r.offset]?).map fun write =>
      ⟨applyTo r.held write, r.offset + 1, max r.furthest (r.offset + 1)⟩
  | .rejoin offset => if offset ≤ r.offset then some { r with offset } else none
  | .restart => some start

inductive Reads (log : List (τ × κ × Option ν)) : Reader τ κ ν → Prop
  | start : Reads log start
  | step {r r' : Reader τ κ ν} {m : Move} (reads : Reads log r) (next : r.move log m = some r') :
      Reads log r'

/-- Make the moves one after the other. -/
def follow (log : List (τ × κ × Option ν)) (r : Reader τ κ ν) : List Move → Option (Reader τ κ ν)
  | [] => some r
  | m :: ms => (r.move log m).bind fun r' => follow log r' ms

theorem Reads.follow {log : List (τ × κ × Option ν)} {r r' : Reader τ κ ν} (h : Reads log r)
    {ms : List Move} (hms : r.follow log ms = some r') : Reads log r' := by
  induction ms generalizing r with
  | nil =>
      cases hms
      exact h
  | cons m ms ih =>
      obtain ⟨next, hnext, hrest⟩ := Option.bind_eq_some_iff.mp hms
      exact ih (h.step hnext) hrest

/-- What the reader has in front of it and has read before. -/
def ahead (log : List (τ × κ × Option ν)) (r : Reader τ κ ν) : List (τ × κ × Option ν) :=
  (log.take r.furthest).drop r.offset

/-- A key holds the last value written in front of the reader, unless it is written again between
there and the furthest place the reader has been at. -/
structure Sound (log : List (τ × κ × Option ν)) (r : Reader τ κ ν) : Prop where
  offset_le : r.offset ≤ r.furthest
  furthest_le : r.furthest ≤ log.length
  current : ∀ t k, (∀ write ∈ r.ahead log, (write.1, write.2.1) ≠ (t, k)) →
    (r.held t).get k = (collectAll (log.take r.offset) t).get k

variable {log : List (τ × κ × Option ν)} {r r' : Reader τ κ ν}

theorem sound_start : Sound log start :=
  ⟨Nat.le_refl 0, Nat.zero_le _, fun _ _ _ => rfl⟩

omit [DecidableEq τ] [DecidableEq κ] in
/-- The write that is read next stands at the head of what is ahead, if anything is. -/
theorem mem_ahead_of_read {write : τ × κ × Option ν} (hnext : log[r.offset]? = some write)
    {w : τ × κ × Option ν} (hw : w ∈ r.ahead log) :
    w = write ∨ w ∈ (log.take (max r.furthest (r.offset + 1))).drop (r.offset + 1) := by
  obtain ⟨i, hi⟩ := List.mem_iff_getElem?.mp hw
  rw [ahead, List.getElem?_drop, List.getElem?_take] at hi
  split_ifs at hi with hlt
  cases i with
  | zero =>
      rw [Nat.add_zero, hnext] at hi
      exact .inl (Option.some.inj hi).symm
  | succ i =>
      refine .inr (List.mem_iff_getElem?.mpr ⟨i, ?_⟩)
      rw [List.getElem?_drop, List.getElem?_take, if_pos (by omega), ← hi]
      congr 1
      omega

theorem Sound.read (h : Sound log r) {write : τ × κ × Option ν}
    (hnext : log[r.offset]? = some write) :
    Sound log ⟨applyTo r.held write, r.offset + 1, max r.furthest (r.offset + 1)⟩ where
  offset_le := le_max_right _ _
  furthest_le := max_le h.furthest_le (List.getElem?_eq_some_iff.mp hnext).1
  current t k hahead := by
    rw [List.take_add_one, hnext, Option.toList_some, collectAll_concat, get_applyTo, get_applyTo]
    split_ifs with hkey
    · rfl
    · apply h.current
      intro w hw
      rcases mem_ahead_of_read hnext hw with rfl | hw
      · exact hkey
      · exact hahead w hw

theorem Sound.rejoin (h : Sound log r) {offset : ℕ} (hback : offset ≤ r.offset) :
    Sound log { r with offset } where
  offset_le := hback.trans h.offset_le
  furthest_le := h.furthest_le
  current t k hahead := by
    have hsplit : log.take r.offset = log.take offset ++ (log.take r.offset).drop offset := by
      have htake : (log.take r.offset).take offset = log.take offset := by
        rw [List.take_take, min_eq_left hback]
      rw [← htake, List.take_append_drop]
    have hbetween : ∀ w ∈ (log.take r.offset).drop offset, (w.1, w.2.1) ≠ (t, k) := by
      intro w hw
      apply hahead w
      exact (List.Sublist.drop (List.take_sublist_take_left h.offset_le) offset).subset hw
    have hold : ∀ w ∈ r.ahead log, (w.1, w.2.1) ≠ (t, k) := by
      intro w hw
      exact hahead w ((List.drop_sublist_drop_left _ hback).subset hw)
    rw [h.current t k hold, hsplit]
    exact get_collectAll_append_of_not_mem _ hbetween

theorem Sound.move (h : Sound log r) {m : Move} (hmove : r.move log m = some r') :
    Sound log r' := by
  cases m with
  | read =>
      obtain ⟨write, hnext, rfl⟩ := Option.map_eq_some_iff.mp hmove
      exact h.read hnext
  | rejoin offset =>
      rw [Reader.move] at hmove
      split_ifs at hmove with hback
      rw [← Option.some.inj hmove]
      exact h.rejoin hback
  | restart =>
      cases hmove
      exact sound_start

theorem Reads.sound (h : Reads log r) : Sound log r := by
  induction h with
  | start => exact sound_start
  | step _ next ih => exact ih.move next

/-- Where nothing is ahead, the reader holds what a reader that never went back holds. -/
theorem Sound.caught_up (h : Sound log r) (hfar : r.furthest ≤ r.offset) (t : τ) (k : κ) :
    (r.held t).get k = (collectAll (log.take r.offset) t).get k := by
  apply h.current
  intro w hw
  rw [ahead, List.drop_eq_nil_of_le (by rw [List.length_take]; omega)] at hw
  cases hw

end Reader

/-! ## Values in order -/

/-- Two dictionaries with the same entries read the same in order, if the numbers tell the selected
values apart. -/
theorem inOrder_congr {number : ν → ℤ} {d e : OrderedDict κ ν} {sel : ν → Bool}
    (hget : ∀ k, d.get k = e.get k)
    (hnumber : ∀ v ∈ d.values, ∀ w ∈ d.values, sel v → sel w → number v = number w → v = w) :
    inOrder number (d.values.filter sel) = inOrder number (e.values.filter sel) := by
  have hentries : d.entries.Perm e.entries := by
    rw [List.perm_ext_iff_of_nodup (List.Nodup.of_map _ d.nodup) (List.Nodup.of_map _ e.nodup)]
    rintro ⟨k, v⟩
    rw [OrderedDict.mem_entries_iff, OrderedDict.mem_entries_iff, hget]
  have hvalues : (d.values.filter sel).Perm (e.values.filter sel) :=
    (hentries.map Prod.snd).filter sel
  have hperm : (inOrder number (d.values.filter sel)).Perm
      (inOrder number (e.values.filter sel)) :=
    (List.perm_insertionSort _ _).trans (hvalues.trans (List.perm_insertionSort _ _).symm)
  have hmem : ∀ v, v ∈ inOrder number (d.values.filter sel) → v ∈ d.values ∧ sel v := by
    intro v hv
    exact List.mem_filter.mp ((List.perm_insertionSort _ _).mem_iff.mp hv)
  have hanti : ∀ v w, v ∈ inOrder number (d.values.filter sel) →
      w ∈ inOrder number (e.values.filter sel) → number v ≤ number w → number w ≤ number v →
      v = w := by
    intro v w hv hw hle hge
    obtain ⟨hvd, hvsel⟩ := hmem v hv
    obtain ⟨hwd, hwsel⟩ := hmem w (hperm.mem_iff.mpr hw)
    exact hnumber v hvd w hwd hvsel hwsel (le_antisymm hle hge)
  have : Std.Total fun v w : ν => number v ≤ number w := ⟨fun _ _ => le_total _ _⟩
  have : IsTrans ν fun v w => number v ≤ number w := ⟨fun _ _ _ => le_trans⟩
  exact hperm.eq_of_pairwise hanti (List.pairwise_insertionSort _ _)
    (List.pairwise_insertionSort _ _)

end LastWriter
