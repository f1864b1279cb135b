import Mathlib.Data.List.Induction
import Mathlib.Tactic.Ring
import StreamDB.OrderedDict

/-!
# First-seen numbering

A first-seen counter hands the next number to a key it has not met and the old number to a key
it has. `Numbered start d next` is the state such a counter is in: the dictionary numbers its
keys `start, start + 1, …` in the order of their first appearance, and `next` follows the last.
The keys themselves are `firstSeen` of everything the counter has been asked for.
-/

universe u

namespace FirstSeen

variable {κ : Type u}

section Assign

variable [DecidableEq κ]

def assign (d : OrderedDict κ ℤ) (next : ℤ) (k : κ) : ℤ × OrderedDict κ ℤ × ℤ :=
  match d.get k with
  | some existing => (existing, d, next)
  | none => (next, d.set k next, next + 1)

end Assign

structure Numbered (start : ℤ) (d : OrderedDict κ ℤ) (next : ℤ) : Prop where
  values_eq : d.values = (List.range d.size).map (fun i : ℕ => start + (i : ℤ))
  next_eq : next = start + d.size

theorem numbered_empty (start : ℤ) : Numbered start (OrderedDict.empty : OrderedDict κ ℤ) start :=
  ⟨rfl, by simp⟩

namespace Numbered

variable {start next : ℤ} {d : OrderedDict κ ℤ}

theorem nodup_values (h : Numbered start d next) : d.values.Nodup := by
  rw [h.values_eq]
  apply List.Nodup.map _ List.nodup_range
  intro i j hij
  have hij' : start + (i : ℤ) = start + (j : ℤ) := hij
  omega

variable [DecidableEq κ]

theorem set_next (h : Numbered start d next) {k : κ} (hk : d.get k = none) :
    Numbered start (d.set k next) (next + 1) := by
  constructor
  · rw [OrderedDict.values_set_of_get_none next hk, OrderedDict.size_set_of_get_none next hk,
      List.range_succ, List.map_append, h.values_eq, h.next_eq]
    rfl
  · rw [OrderedDict.size_set_of_get_none next hk, h.next_eq]
    push_cast
    ring

theorem assign (h : Numbered start d next) (k : κ) :
    Numbered start (assign d next k).2.1 (assign d next k).2.2 := by
  cases hk : d.get k with
  | some o => simpa [FirstSeen.assign, hk] using h
  | none => simpa [FirstSeen.assign, hk] using h.set_next hk

theorem get_bounds (h : Numbered start d next) {k : κ} {o : ℤ} (hk : d.get k = some o) :
    start ≤ o ∧ o < next := by
  have hm : o ∈ d.values :=
    List.mem_map.mpr ⟨(k, o), OrderedDict.mem_entries_iff.mpr hk, rfl⟩
  rw [h.values_eq, List.mem_map] at hm
  obtain ⟨i, hi, rfl⟩ := hm
  rw [List.mem_range] at hi
  rw [h.next_eq]
  omega

/-- Every number of the range belongs to a key. -/
theorem exists_key (h : Numbered start d next) {o : ℤ} (h₀ : start ≤ o) (h₁ : o < next) :
    ∃ k, d.get k = some o := by
  have hm : o ∈ d.values := by
    rw [h.values_eq, List.mem_map]
    rw [h.next_eq] at h₁
    exact ⟨(o - start).toNat, List.mem_range.mpr (by omega), by omega⟩
  obtain ⟨⟨k, o'⟩, he, rfl⟩ := List.mem_map.mp hm
  exact ⟨k, OrderedDict.mem_entries_iff.mp he⟩

theorem injective (h : Numbered start d next) : d.Injective := by
  intro k k' o hk hk'
  have he := OrderedDict.mem_entries_iff.mpr hk
  have he' := OrderedDict.mem_entries_iff.mpr hk'
  exact congrArg Prod.fst (List.inj_on_of_nodup_map h.nodup_values he he' rfl)

/-- A key numbered after a state of the counter has a higher number than all keys of that
state. -/
theorem lt_of_extends {next' : ℤ} {e : OrderedDict κ ℤ} (h : Numbered start d next)
    (he : Numbered start e next') (hext : d.Extends e) {k k' : κ} {o o' : ℤ}
    (hk : d.get k = some o) (hlt : ∀ o', d.get k' = some o' → o < o')
    (hk' : e.get k' = some o') : o < o' := by
  by_cases hnew : o' < next
  · obtain ⟨j, hj⟩ := h.exists_key (he.get_bounds hk').1 hnew
    have hsame : j = k' := he.injective j k' o' (hext j o' hj) hk'
    rw [hsame] at hj
    exact hlt o' hj
  · have hold := (h.get_bounds hk).2
    omega

end Numbered

variable [DecidableEq κ]

theorem assign_get (d : OrderedDict κ ℤ) (next : ℤ) (k : κ) :
    (assign d next k).2.1.get k = some (assign d next k).1 := by
  cases hk : d.get k with
  | some o => simp [assign, hk]
  | none => simp [assign, hk]

theorem assign_extends (d : OrderedDict κ ℤ) (next : ℤ) (k : κ) :
    d.Extends (assign d next k).2.1 := by
  cases hk : d.get k with
  | some o => simpa [assign, hk] using OrderedDict.Extends.refl d
  | none => simpa [assign, hk] using OrderedDict.extends_set_of_get_none next hk

theorem assign_of_get_some {d : OrderedDict κ ℤ} {k : κ} {o : ℤ} (next : ℤ)
    (h : d.get k = some o) : assign d next k = (o, d, next) := by
  simp [assign, h]

def insertNew (seen : List κ) (k : κ) : List κ := if k ∈ seen then seen else seen ++ [k]

theorem mem_insertNew (seen : List κ) (k : κ) : k ∈ insertNew seen k := by
  rw [insertNew]
  split_ifs with hseen
  · exact hseen
  · exact List.mem_append_right _ (List.mem_singleton_self k)

theorem prefix_insertNew (seen : List κ) (k : κ) : seen <+: insertNew seen k := by
  rw [insertNew]
  split_ifs
  · exact List.prefix_rfl
  · exact List.prefix_append _ _

/-- The distinct members of a list, each at its first occurrence. -/
def firstSeen (ks : List κ) : List κ := ks.foldl insertNew []

@[simp] theorem firstSeen_nil : firstSeen ([] : List κ) = [] := rfl

theorem firstSeen_concat (ks : List κ) (k : κ) :
    firstSeen (ks ++ [k]) = insertNew (firstSeen ks) k := by
  simp [firstSeen]

theorem mem_firstSeen {ks : List κ} {k : κ} : k ∈ firstSeen ks ↔ k ∈ ks := by
  induction ks using List.reverseRecOn with
  | nil => simp
  | append_singleton ks j ih =>
      rw [firstSeen_concat, insertNew]
      split_ifs with hj
      · rw [List.mem_append, List.mem_singleton, ← ih]
        constructor
        · exact Or.inl
        · rintro (h | rfl)
          · exact h
          · exact hj
      · simp only [List.mem_append, ih]

theorem nodup_firstSeen (ks : List κ) : (firstSeen ks).Nodup := by
  induction ks using List.reverseRecOn with
  | nil => simp
  | append_singleton ks j ih =>
      rw [firstSeen_concat, insertNew]
      split_ifs with hj
      · exact ih
      · exact List.nodup_append.mpr ⟨ih, List.nodup_singleton j, by
          intro a ha b hb hab
          rw [List.mem_singleton.mp hb] at hab
          exact hj (hab ▸ ha)⟩

theorem firstSeen_filter (p : κ → Bool) (ks : List κ) :
    firstSeen (ks.filter p) = (firstSeen ks).filter p := by
  induction ks using List.reverseRecOn with
  | nil => rfl
  | append_singleton ks k ih =>
      rw [List.filter_append, firstSeen_concat, insertNew]
      by_cases hk : p k
      · rw [List.filter_cons_of_pos hk, List.filter_nil, firstSeen_concat, ih, insertNew]
        by_cases hmem : k ∈ firstSeen ks
        · rw [if_pos hmem, if_pos (List.mem_filter.mpr ⟨hmem, hk⟩)]
        · rw [if_neg hmem, if_neg fun h => hmem (List.mem_filter.mp h).1, List.filter_append,
            List.filter_cons_of_pos hk, List.filter_nil]
      · rw [List.filter_cons_of_neg hk, List.filter_nil, List.append_nil, ih]
        split_ifs
        · rfl
        · rw [List.filter_append, List.filter_cons_of_neg hk, List.filter_nil, List.append_nil]

theorem firstSeen_cons (k : κ) (ks : List κ) :
    firstSeen (k :: ks) = k :: firstSeen (ks.filter (· ≠ k)) := by
  induction ks using List.reverseRecOn with
  | nil => rfl
  | append_singleton ks j ih =>
      rw [← List.cons_append, firstSeen_concat, ih, List.filter_append]
      by_cases hj : j = k
      · subst hj
        rw [insertNew, if_pos List.mem_cons_self, List.filter_cons_of_neg (by simp),
          List.filter_nil, List.append_nil]
      · rw [List.filter_cons_of_pos (by simpa using hj), List.filter_nil, firstSeen_concat,
          insertNew, insertNew]
        split_ifs with h₁ h₂ h₂
        · rfl
        · exact absurd ((List.mem_cons.mp h₁).resolve_left hj) h₂
        · exact absurd (List.mem_cons_of_mem k h₂) h₁
        · rfl

theorem firstSeen_of_nodup {ks : List κ} (h : ks.Nodup) : firstSeen ks = ks := by
  induction ks with
  | nil => rfl
  | cons k ks ih =>
      rw [List.nodup_cons] at h
      have hothers : ks.filter (· ≠ k) = ks :=
        List.filter_eq_self.mpr fun j hj => decide_eq_true fun hjk => h.1 (hjk ▸ hj)
      rw [firstSeen_cons, hothers, ih h.2]

/-- What has been seen decides what is new later. -/
theorem firstSeen_append_congr {ks ks' : List κ} (h : firstSeen ks = firstSeen ks')
    (later : List κ) : firstSeen (ks ++ later) = firstSeen (ks' ++ later) := by
  rw [firstSeen, List.foldl_append, firstSeen, List.foldl_append]
  exact congrArg (later.foldl insertNew) h

theorem firstSeen_append_firstSeen (ks later : List κ) :
    firstSeen (ks ++ firstSeen later) = firstSeen (ks ++ later) := by
  induction later using List.reverseRecOn with
  | nil => rfl
  | append_singleton later k ih =>
      rw [← List.append_assoc, firstSeen_concat, firstSeen_concat, ← ih, insertNew]
      split_ifs with hk
      · have hmem : k ∈ firstSeen (ks ++ firstSeen later) :=
          mem_firstSeen.mpr (List.mem_append_right _ hk)
        rw [insertNew, if_pos hmem]
      · rw [← List.append_assoc, firstSeen_concat]

theorem prefix_firstSeen_append (ks later : List κ) : firstSeen ks <+: firstSeen (ks ++ later) := by
  induction later using List.reverseRecOn with
  | nil => simp
  | append_singleton later k ih =>
      rw [← List.append_assoc, firstSeen_concat]
      exact ih.trans (prefix_insertNew _ _)

section Map

variable {α : Type*} [DecidableEq α]

theorem firstSeen_map {f : α → κ} {as : List α}
    (hinj : ∀ a ∈ as, ∀ b ∈ as, f a = f b → a = b) :
    firstSeen (as.map f) = (firstSeen as).map f := by
  induction as using List.reverseRecOn with
  | nil => rfl
  | append_singleton as a ih =>
      have hold := ih fun b hb c hc =>
        hinj b (List.mem_append_left _ hb) c (List.mem_append_left _ hc)
      rw [List.map_append, List.map_singleton, firstSeen_concat, firstSeen_concat, hold, insertNew,
        insertNew]
      have hmem : f a ∈ (firstSeen as).map f ↔ a ∈ firstSeen as := by
        constructor
        · intro h
          obtain ⟨b, hb, hba⟩ := List.mem_map.mp h
          have hbas := List.mem_append_left [a] (mem_firstSeen.mp hb)
          rwa [← hinj b hbas a (List.mem_append_right _ (List.mem_singleton_self a)) hba]
        · exact List.mem_map_of_mem
      by_cases ha : a ∈ firstSeen as
      · rw [if_pos (hmem.mpr ha), if_pos ha]
      · rw [if_neg fun h => ha (hmem.mp h), if_neg ha, List.map_append, List.map_singleton]

/-- A list is known by its distinct keys where its members are. -/
theorem firstSeen_of_keys {f : α → κ} {as bs : List α} (hmem : ∀ a ∈ as, a ∈ bs)
    (hnodup : (bs.map f).Nodup) (hkeys : firstSeen (as.map f) = bs.map f) :
    firstSeen as = bs := by
  have hinj := List.inj_on_of_nodup_map hnodup
  have hmap : (firstSeen as).map f = bs.map f := by
    rw [← firstSeen_map fun a ha b hb => hinj (hmem a ha) (hmem b hb), hkeys]
  have hlength : (firstSeen as).length = bs.length := by
    simpa using congrArg List.length hmap
  refine List.ext_getElem hlength fun i hi hi' => ?_
  refine hinj (hmem _ (mem_firstSeen.mp (List.getElem_mem hi))) (List.getElem_mem hi') ?_
  have hget := congrArg (·[i]?) hmap
  simpa [hi, hi'] using hget

end Map

/-- The number of a key is its place among the keys. -/
theorem Numbered.exists_place {start next : ℤ} {d : OrderedDict κ ℤ} (h : Numbered start d next)
    {k : κ} {o : ℤ} (hk : d.get k = some o) :
    ∃ i : ℕ, d.keys[i]? = some k ∧ o = start + i := by
  obtain ⟨i, hi⟩ := List.mem_iff_getElem?.mp (OrderedDict.mem_entries_iff.mpr hk)
  have hvalue : d.values[i]? = some o := by
    rw [OrderedDict.values, List.getElem?_map, hi]
    rfl
  refine ⟨i, by rw [OrderedDict.keys, List.getElem?_map, hi]; rfl, ?_⟩
  rw [h.values_eq, List.getElem?_map, Option.map_eq_some_iff] at hvalue
  obtain ⟨j, hj, rfl⟩ := hvalue
  obtain ⟨hlt, hij⟩ := List.getElem?_eq_some_iff.mp hj
  rw [List.getElem_range] at hij
  rw [hij]

/-- Later keys have higher numbers. -/
theorem Numbered.pairwise_keys {start next : ℤ} {d : OrderedDict κ ℤ} (h : Numbered start d next) :
    d.keys.Pairwise fun k k' => ∀ o o', d.get k = some o → d.get k' = some o' → o < o' := by
  have hvalues : d.values.Pairwise (· < ·) := by
    rw [h.values_eq]
    refine (List.pairwise_map.mpr ?_ : List.Pairwise _ _)
    refine List.pairwise_lt_range.imp ?_
    intro i j hij
    omega
  rw [OrderedDict.values, List.pairwise_map] at hvalues
  rw [OrderedDict.keys, List.pairwise_map]
  refine hvalues.imp_of_mem ?_
  intro e e' he he' hlt o o' ho ho'
  rw [OrderedDict.mem_entries_iff.mp he] at ho
  rw [OrderedDict.mem_entries_iff.mp he'] at ho'
  rwa [← Option.some.inj ho, ← Option.some.inj ho']

/-- A counter for some of the keys sorts them as the counter for all of them does. -/
theorem Numbered.lt_iff {start start' next next' : ℤ} {d e : OrderedDict κ ℤ}
    (h : Numbered start d next) (he : Numbered start' e next') {p : κ → Bool}
    (hkeys : e.keys = d.keys.filter p) {k k' : κ} {o o' n n' : ℤ} (hk : d.get k = some o)
    (hk' : d.get k' = some o') (hn : e.get k = some n) (hn' : e.get k' = some n') :
    o < o' ↔ n < n' := by
  have hd := h.pairwise_keys.filter p
  rw [← hkeys] at hd
  have hboth := hd.and he.pairwise_keys
  refine List.Pairwise.forall_of_forall_of_flip (R := fun j j' => ∀ a a' b b', d.get j = some a →
    d.get j' = some a' → e.get j = some b → e.get j' = some b' → (a < a' ↔ b < b')) ?_ ?_ ?_
    (OrderedDict.mem_keys_of_get hn) (OrderedDict.mem_keys_of_get hn') o o' n n' hk hk' hn hn'
  · intro j _ a a' b b' ha ha' hb hb'
    rw [ha, Option.some.injEq] at ha'
    rw [hb, Option.some.injEq] at hb'
    omega
  · refine hboth.imp ?_
    rintro j j' ⟨hlt, hlt'⟩ a a' b b' ha ha' hb hb'
    exact iff_of_true (hlt a a' ha ha') (hlt' b b' hb hb')
  · refine hboth.imp ?_
    rintro j j' ⟨hlt, hlt'⟩ a a' b b' ha ha' hb hb'
    have := hlt a' a ha' ha
    have := hlt' b' b hb' hb
    omega

/-- A counter asked for `k` next has met `firstSeen` of what it was asked for, `k` included. -/
theorem assign_keys {d : OrderedDict κ ℤ} (next : ℤ) {ks : List κ} (h : d.keys = firstSeen ks)
    (k : κ) : (assign d next k).2.1.keys = firstSeen (ks ++ [k]) := by
  rw [firstSeen_concat, insertNew, ← h]
  cases hk : d.get k with
  | some o =>
      rw [if_pos (OrderedDict.mem_keys_of_get hk)]
      simp [assign, hk]
  | none =>
      rw [if_neg (OrderedDict.get_eq_none.mp hk)]
      simp [assign, hk, OrderedDict.keys_set_of_get_none next hk]

end FirstSeen
