import Mathlib.Data.List.Sort
import Mathlib.Order.Basic
import StreamDB.OrderedDict

/-!
# Last-writer-wins collections

A log of writes, each of which sets or removes a key, is held as the dictionary of the last values.
`inOrder` reads the held values back in the order of their numbers.
-/

namespace LastWriter

variable {κ ν : Type} [DecidableEq κ]

def put (d : OrderedDict κ ν) (write : κ × Option ν) : OrderedDict κ ν :=
  match write.2 with
  | some v => d.set write.1 v
  | none => d.erase write.1

def collect (log : List (κ × Option ν)) : OrderedDict κ ν := log.foldl put .empty

theorem get_put (d : OrderedDict κ ν) (write : κ × Option ν) (k : κ) :
    (put d write).get k = if write.1 = k then write.2 else d.get k := by
  obtain ⟨k', v⟩ := write
  cases v with
  | some v => exact d.get_set k' k v
  | none => exact d.get_erase k' k

theorem get_collect_concat (log : List (κ × Option ν)) (write : κ × Option ν) (k : κ) :
    (collect (log ++ [write])).get k = if write.1 = k then write.2 else (collect log).get k := by
  rw [collect, List.foldl_append]
  exact get_put _ write k

/-- The last write of a key decides. -/
theorem get_collect_eq_getLast (log : List (κ × Option ν)) (k : κ) :
    (collect log).get k = (log.filter fun write => write.1 = k).getLast?.bind Prod.snd := by
  induction log using List.reverseRecOn with
  | nil => rfl
  | append_singleton log write ih =>
      rw [get_collect_concat, List.filter_append]
      split_ifs with hk
      · rw [List.filter_cons_of_pos (by simpa using hk), List.filter_nil, List.getLast?_concat]
        rfl
      · rw [List.filter_cons_of_neg (by simpa using hk), List.filter_nil, List.append_nil, ih]

/-- Writes under other keys leave a key alone. -/
theorem get_collect_append_of_not_mem (log : List (κ × Option ν)) {later : List (κ × Option ν)}
    {k : κ} (h : k ∉ later.map Prod.fst) :
    (collect (log ++ later)).get k = (collect log).get k := by
  induction later using List.reverseRecOn with
  | nil => rw [List.append_nil]
  | append_singleton later write ih =>
      rw [List.map_append, List.mem_append, not_or] at h
      have hne : write.1 ≠ k := by simpa [eq_comm] using h.2
      rw [← List.append_assoc, get_collect_concat, if_neg hne]
      exact ih h.1

theorem get_collect_append (log later : List (κ × Option ν)) (k : κ)
    (hsets : ∀ write ∈ later, write.2.isSome) :
    (collect (log ++ later)).get k = ((collect later).get k).or ((collect log).get k) := by
  induction later using List.reverseRecOn with
  | nil => rw [List.append_nil]; rfl
  | append_singleton later write ih =>
      have hsome := hsets write (by simp)
      rw [← List.append_assoc, get_collect_concat, get_collect_concat,
        ih fun w hw => hsets w (List.mem_append_left _ hw)]
      split_ifs
      · obtain ⟨v, hv⟩ := Option.isSome_iff_exists.mp hsome
        rw [hv]
        rfl
      · rfl

/-- Keys that are removed in the end are not held. -/
theorem get_collect_append_erased (log : List (κ × Option ν)) (keys : List κ) (k : κ) :
    (collect (log ++ keys.map fun key => (key, none))).get k =
      if k ∈ keys then none else (collect log).get k := by
  induction keys using List.reverseRecOn with
  | nil => rw [List.map_nil, List.append_nil, if_neg List.not_mem_nil]
  | append_singleton keys key ih =>
      rw [List.map_append, List.map_singleton, ← List.append_assoc, get_collect_concat, ih]
      by_cases hk : key = k
      · rw [if_pos hk, if_pos (by simp [hk])]
      · rw [if_neg hk]
        simp [Ne.symm hk]

/-- Writes that are related one by one leave values that are related key by key. -/
theorem get_collect_rel {ν' : Type} {R : κ → ν → ν' → Prop} {log : List (κ × Option ν)}
    {log' : List (κ × Option ν')}
    (h : List.Forall₂ (fun write write' => write.1 = write'.1 ∧
      Option.Rel (R write.1) write.2 write'.2) log log') (k : κ) :
    Option.Rel (R k) ((collect log).get k) ((collect log').get k) := by
  have hfold : ∀ (d : OrderedDict κ ν) (d' : OrderedDict κ ν'),
      Option.Rel (R k) (d.get k) (d'.get k) →
        Option.Rel (R k) ((log.foldl put d).get k) ((log'.foldl put d').get k) := by
    induction h with
    | nil => exact fun d d' hd => hd
    | @cons write write' log log' hwrite _ ih =>
        intro d d' hd
        apply ih
        rw [get_put, get_put, ← hwrite.1]
        split_ifs with hk
        · rw [← hk]
          exact hwrite.2
        · exact hd
  exact hfold .empty .empty .none

theorem mem_of_get_collect {log : List (κ × Option ν)} {k : κ} {v : ν}
    (h : (collect log).get k = some v) : (k, some v) ∈ log := by
  induction log using List.reverseRecOn with
  | nil => cases h
  | append_singleton log write ih =>
      rw [get_collect_concat] at h
      split_ifs at h with hk
      · exact List.mem_append_right _ (by rw [List.mem_singleton, ← hk, ← h])
      · exact List.mem_append_left _ (ih h)

theorem get_collect_of_not_mem {log : List (κ × Option ν)} {k : κ} (h : k ∉ log.map Prod.fst) :
    (collect log).get k = none := get_collect_append_of_not_mem [] h

theorem get_collect_of_unique {log : List (κ × Option ν)} {k : κ} {v : ν} (hmem : (k, some v) ∈ log)
    (hunique : ∀ write ∈ log, write.1 = k → write.2 = some v) : (collect log).get k = some v := by
  induction log using List.reverseRecOn with
  | nil => cases hmem
  | append_singleton log write ih =>
      rw [get_collect_concat]
      split_ifs with hk
      · exact hunique write (by simp) hk
      · apply ih
        · rcases List.mem_append.mp hmem with hmem | hmem
          · exact hmem
          · rw [← List.mem_singleton.mp hmem] at hk
            exact absurd rfl hk
        · exact fun w hw => hunique w (List.mem_append_left _ hw)

/-- A dictionary written out entry by entry. -/
theorem get_collect_entries (d : OrderedDict κ ν) (k : κ) :
    (collect (d.entries.map fun e => (e.1, some e.2))).get k = d.get k := by
  cases hk : d.get k with
  | none =>
      apply get_collect_of_not_mem
      rw [List.map_map]
      exact OrderedDict.get_eq_none.mp hk
  | some v =>
      apply get_collect_of_unique
      · exact List.mem_map.mpr ⟨(k, v), OrderedDict.mem_entries_iff.mpr hk, rfl⟩
      · rintro write hwrite rfl
        obtain ⟨e, he, rfl⟩ := List.mem_map.mp hwrite
        rw [← OrderedDict.mem_entries_iff.mp he, hk]

/-! ## Numbered values -/

variable (number : ν → ℤ)

def inOrder (values : List ν) : List ν := values.insertionSort fun v w => number v ≤ number w

variable {number}

section Numbered

variable {d : OrderedDict κ ν} {sel : ν → Bool} {key : ℕ → κ} {n : ℕ}

theorem mem_filter_values_iff (hkey : ∀ k v, d.get k = some v → sel v → ∃ i < n, k = key i)
    (v : ν) : v ∈ d.values.filter sel ↔ ∃ i < n, d.get (key i) = some v ∧ sel v := by
  rw [List.mem_filter, OrderedDict.mem_values_iff]
  constructor
  · rintro ⟨⟨k, hk⟩, hsel⟩
    obtain ⟨i, hi, rfl⟩ := hkey k v hk hsel
    exact ⟨i, hi, hk, hsel⟩
  · rintro ⟨i, _, hk, hsel⟩
    exact ⟨⟨_, hk⟩, hsel⟩

theorem mem_positions_iff (v : ν) :
    v ∈ (List.range n).filterMap (fun i => (d.get (key i)).filter sel) ↔
      ∃ i < n, d.get (key i) = some v ∧ sel v := by
  simp only [List.mem_filterMap, List.mem_range, Option.filter_eq_some_iff]

theorem pairwise_positions
    (hnumber : ∀ i v, d.get (key i) = some v → sel v → number v = i) :
    ((List.range n).filterMap fun i => (d.get (key i)).filter sel).Pairwise
      fun v w => number v < number w := by
  rw [List.pairwise_filterMap]
  refine List.pairwise_lt_range.imp ?_
  intro i j hij v hv w hw
  rw [Option.filter_eq_some_iff] at hv hw
  rw [hnumber i v hv.1 hv.2, hnumber j w hw.1 hw.2]
  exact_mod_cast hij

/-- Two entries of one value have one number, and so one key. -/
theorem nodup_filter_values
    (hkey : ∀ k v, d.get k = some v → sel v → ∃ i < n, k = key i)
    (hnumber : ∀ i v, d.get (key i) = some v → sel v → number v = i) :
    (d.values.filter sel).Nodup := by
  rw [OrderedDict.values, List.filter_map]
  have hkeys : d.entries.Pairwise fun e e' => e.1 ≠ e'.1 := List.pairwise_map.mp d.nodup
  rw [List.Nodup, List.pairwise_map]
  refine (hkeys.filter _).imp_of_mem ?_
  intro e e' he he' hne heq
  obtain ⟨hmem, hsel⟩ := List.mem_filter.mp he
  obtain ⟨hmem', hsel'⟩ := List.mem_filter.mp he'
  have hget := OrderedDict.mem_entries_iff.mp hmem
  have hget' := OrderedDict.mem_entries_iff.mp hmem'
  obtain ⟨i, _, hi⟩ := hkey _ _ hget hsel
  obtain ⟨j, _, hj⟩ := hkey _ _ hget' hsel'
  rw [hi] at hget
  rw [hj] at hget'
  have hnum : (i : ℤ) = j := by rw [← hnumber i _ hget hsel, heq, ← hnumber j _ hget' hsel']
  have hij : i = j := by omega
  rw [hi, hj, hij] at hne
  exact hne rfl

/-- Values that are kept under the keys of their numbers come back one after the other. -/
theorem inOrder_values (hkey : ∀ k v, d.get k = some v → sel v → ∃ i < n, k = key i)
    (hnumber : ∀ i v, d.get (key i) = some v → sel v → number v = i) :
    inOrder number (d.values.filter sel) =
      (List.range n).filterMap fun i => (d.get (key i)).filter sel := by
  have hsorted := pairwise_positions (n := n) hnumber
  have hnodup := nodup_filter_values hkey hnumber
  have hperm : (inOrder number (d.values.filter sel)).Perm
      ((List.range n).filterMap fun i => (d.get (key i)).filter sel) := by
    refine (List.perm_insertionSort _ _).trans ?_
    rw [List.perm_ext_iff_of_nodup hnodup (hsorted.imp fun hlt heq => by simp [heq] at hlt)]
    exact fun v => (mem_filter_values_iff hkey v).trans (mem_positions_iff v).symm
  have hanti : ∀ v w, v ∈ inOrder number (d.values.filter sel) →
      w ∈ (List.range n).filterMap (fun i => (d.get (key i)).filter sel) →
      number v ≤ number w → number w ≤ number v → v = w := by
    intro v w hv hw hle hge
    obtain ⟨i, _, hi, hsel⟩ := (mem_positions_iff v).mp (hperm.mem_iff.mp hv)
    obtain ⟨j, _, hj, hsel'⟩ := (mem_positions_iff w).mp hw
    rw [hnumber i v hi hsel, hnumber j w hj hsel'] at hle hge
    have hij : i = j := by omega
    rw [hij, hj] at hi
    exact (Option.some.inj hi).symm
  have : Std.Total fun v w : ν => number v ≤ number w := ⟨fun _ _ => le_total _ _⟩
  have : IsTrans ν fun v w => number v ≤ number w := ⟨fun _ _ _ => le_trans⟩
  exact hperm.eq_of_pairwise hanti (List.pairwise_insertionSort _ _) (hsorted.imp le_of_lt)

end Numbered

end LastWriter
