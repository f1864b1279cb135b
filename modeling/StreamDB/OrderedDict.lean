import Mathlib.Data.List.Nodup
import Mathlib.Data.List.Basic
import Mathlib.Data.List.Induction

/-!
# Insertion-ordered dictionaries

A dictionary is the list of its entries in the order in which their keys were first set, with no
key repeated. Setting a key that is present keeps its place, so the list of keys only ever grows
at the end.
-/

universe u v

structure OrderedDict (κ : Type u) (α : Type v) where
  entries : List (κ × α)
  nodup : (entries.map Prod.fst).Nodup

namespace OrderedDict

variable {κ : Type u} {α : Type v}

@[ext] theorem ext {d e : OrderedDict κ α} (h : d.entries = e.entries) : d = e := by
  cases d
  cases e
  cases h
  rfl

def empty : OrderedDict κ α := ⟨[], List.nodup_nil⟩

def keys (d : OrderedDict κ α) : List κ := d.entries.map Prod.fst

def values (d : OrderedDict κ α) : List α := d.entries.map Prod.snd

def size (d : OrderedDict κ α) : ℕ := d.entries.length

@[simp] theorem keys_empty : (empty : OrderedDict κ α).keys = [] := rfl

@[simp] theorem values_empty : (empty : OrderedDict κ α).values = [] := rfl

@[simp] theorem size_empty : (empty : OrderedDict κ α).size = 0 := rfl

@[simp] theorem length_keys (d : OrderedDict κ α) : d.keys.length = d.size := by
  simp [keys, size]

@[simp] theorem length_values (d : OrderedDict κ α) : d.values.length = d.size := by
  simp [values, size]

variable [DecidableEq κ]

def lookupEntries (k : κ) : List (κ × α) → Option α
  | [] => none
  | (k', v) :: rest => if k' = k then some v else lookupEntries k rest

def setEntries (k : κ) (v : α) : List (κ × α) → List (κ × α)
  | [] => [(k, v)]
  | (k', v') :: rest => if k' = k then (k', v) :: rest else (k', v') :: setEntries k v rest

theorem map_fst_setEntries (k : κ) (v : α) (es : List (κ × α)) :
    (setEntries k v es).map Prod.fst =
      if k ∈ es.map Prod.fst then es.map Prod.fst else es.map Prod.fst ++ [k] := by
  induction es with
  | nil => simp [setEntries]
  | cons e rest ih =>
      obtain ⟨k', v'⟩ := e
      by_cases hk : k' = k
      · simp [setEntries, hk]
      · have hk' : k ≠ k' := fun h => hk h.symm
        simp only [setEntries, if_neg hk, List.map_cons, ih, List.mem_cons, hk', false_or]
        split_ifs <;> rfl

theorem nodup_setEntries (k : κ) (v : α) {es : List (κ × α)}
    (h : (es.map Prod.fst).Nodup) : ((setEntries k v es).map Prod.fst).Nodup := by
  rw [map_fst_setEntries]
  split_ifs with hk
  · exact h
  · exact List.nodup_append.mpr ⟨h, List.nodup_singleton k, by
      intro a ha b hb hab
      rw [List.mem_singleton.mp hb] at hab
      exact hk (hab ▸ ha)⟩

def get (d : OrderedDict κ α) (k : κ) : Option α := lookupEntries k d.entries

def set (d : OrderedDict κ α) (k : κ) (v : α) : OrderedDict κ α :=
  ⟨setEntries k v d.entries, nodup_setEntries k v d.nodup⟩

def getD (d : OrderedDict κ α) (k : κ) (v : α) : α := (d.get k).getD v

def setDefault (d : OrderedDict κ α) (k : κ) (v : α) : OrderedDict κ α :=
  if (d.get k).isSome then d else d.set k v

def erase (d : OrderedDict κ α) (k : κ) : OrderedDict κ α :=
  ⟨d.entries.filter fun e => e.1 ≠ k,
    (List.filter_sublist.map Prod.fst).nodup d.nodup⟩

/-- Set the key when there is a value for it. -/
def setSome (d : OrderedDict κ α) (k : κ) : Option α → OrderedDict κ α
  | some v => d.set k v
  | none => d

/-- The dictionary built by setting the given entries one after the other. -/
def ofEntries (es : List (κ × α)) : OrderedDict κ α :=
  es.foldl (fun d e => d.set e.1 e.2) empty

/-- The dictionary updated with the entries of a second one, in order. -/
def update (d : OrderedDict κ α) (es : List (κ × α)) : OrderedDict κ α :=
  es.foldl (fun d e => d.set e.1 e.2) d

@[simp] theorem get_empty (k : κ) : (empty : OrderedDict κ α).get k = none := rfl

theorem lookupEntries_setEntries (k k' : κ) (v : α) (es : List (κ × α)) :
    lookupEntries k' (setEntries k v es) = if k = k' then some v else lookupEntries k' es := by
  induction es with
  | nil => simp [setEntries, lookupEntries]
  | cons e rest ih =>
      obtain ⟨j, w⟩ := e
      by_cases hj : j = k
      · by_cases hk : k = k'
        · simp [setEntries, lookupEntries, hj, hk]
        · simp [setEntries, lookupEntries, hj, hk]
      · simp only [setEntries, if_neg hj, lookupEntries, ih]
        by_cases hk : j = k'
        · have hne : ¬ k = k' := fun h => hj (hk.trans h.symm)
          simp only [if_pos hk, if_neg hne]
        · simp only [if_neg hk]

theorem get_set (d : OrderedDict κ α) (k k' : κ) (v : α) :
    (d.set k v).get k' = if k = k' then some v else d.get k' :=
  lookupEntries_setEntries k k' v d.entries

@[simp] theorem get_set_self (d : OrderedDict κ α) (k : κ) (v : α) :
    (d.set k v).get k = some v := by
  rw [get_set, if_pos rfl]

theorem get_set_of_ne (d : OrderedDict κ α) {k k' : κ} (v : α) (h : k ≠ k') :
    (d.set k v).get k' = d.get k' := by
  rw [get_set, if_neg h]

theorem get_setDefault (d : OrderedDict κ α) (k k' : κ) (v : α) :
    (d.setDefault k v).get k' = if k = k' then some ((d.get k').getD v) else d.get k' := by
  rw [setDefault]
  cases hk : d.get k with
  | some w =>
      rw [Option.isSome_some, if_pos rfl]
      split_ifs with heq
      · rw [← heq, hk]
        rfl
      · rfl
  | none =>
      rw [if_neg (by simp), get_set]
      split_ifs with heq
      · rw [← heq, hk]
        rfl
      · rfl

theorem get_erase (d : OrderedDict κ α) (k k' : κ) :
    (d.erase k).get k' = if k = k' then none else d.get k' := by
  have herase : ∀ es : List (κ × α), lookupEntries k' (es.filter fun e => e.1 ≠ k) =
      if k = k' then none else lookupEntries k' es := by
    intro es
    induction es with
    | nil => simp [lookupEntries]
    | cons e rest ih =>
        obtain ⟨j, w⟩ := e
        by_cases hj : j = k
        · rw [List.filter_cons_of_neg (by simp [hj]), ih, lookupEntries]
          split_ifs with hk hjk
          · rfl
          · exact absurd (hj.symm.trans hjk) hk
          · rfl
        · rw [List.filter_cons_of_pos (by simp [hj]), lookupEntries, lookupEntries, ih]
          split_ifs with hjk hk
          · exact absurd (hjk.trans hk.symm) hj
          · rfl
          · rfl
          · rfl
  exact herase d.entries

theorem getD_set (d : OrderedDict κ α) (k k' : κ) (v w : α) :
    (d.set k v).getD k' w = if k = k' then v else d.getD k' w := by
  rw [getD, get_set]
  split_ifs
  · rfl
  · rfl

theorem get_setSome (d : OrderedDict κ α) (k k' : κ) (v : Option α) :
    (d.setSome k v).get k' = if k = k' then v.or (d.get k') else d.get k' := by
  cases v with
  | none => simp [setSome]
  | some w => simp [setSome, get_set]

theorem lookupEntries_eq_none {k : κ} {es : List (κ × α)} :
    lookupEntries k es = none ↔ k ∉ es.map Prod.fst := by
  induction es with
  | nil => simp [lookupEntries]
  | cons e rest ih =>
      obtain ⟨j, w⟩ := e
      by_cases hj : j = k
      · simp [lookupEntries, hj]
      · have hj' : ¬ k = j := fun h => hj h.symm
        simpa [lookupEntries, hj, hj'] using ih

theorem get_eq_none {d : OrderedDict κ α} {k : κ} : d.get k = none ↔ k ∉ d.keys :=
  lookupEntries_eq_none

theorem mem_keys_iff {d : OrderedDict κ α} {k : κ} : k ∈ d.keys ↔ ∃ v, d.get k = some v := by
  rw [← Option.isSome_iff_exists, ← Option.ne_none_iff_isSome, ne_eq, get_eq_none, not_not]

theorem mem_keys_of_get {d : OrderedDict κ α} {k : κ} {v : α} (h : d.get k = some v) :
    k ∈ d.keys := mem_keys_iff.mpr ⟨v, h⟩

theorem setEntries_of_not_mem {k : κ} (v : α) {es : List (κ × α)}
    (h : k ∉ es.map Prod.fst) : setEntries k v es = es ++ [(k, v)] := by
  induction es with
  | nil => rfl
  | cons e rest ih =>
      obtain ⟨j, w⟩ := e
      rw [List.map_cons, List.mem_cons, not_or] at h
      have hj : ¬ j = k := fun hj => h.1 hj.symm
      simp only [setEntries, if_neg hj, ih h.2, List.cons_append]

theorem entries_set_of_get_none {d : OrderedDict κ α} {k : κ} (v : α) (h : d.get k = none) :
    (d.set k v).entries = d.entries ++ [(k, v)] :=
  setEntries_of_not_mem v (get_eq_none.mp h)

theorem keys_set_of_get_none {d : OrderedDict κ α} {k : κ} (v : α) (h : d.get k = none) :
    (d.set k v).keys = d.keys ++ [k] := by
  simp [keys, entries_set_of_get_none v h]

theorem values_set_of_get_none {d : OrderedDict κ α} {k : κ} (v : α) (h : d.get k = none) :
    (d.set k v).values = d.values ++ [v] := by
  simp [values, entries_set_of_get_none v h]

theorem size_set_of_get_none {d : OrderedDict κ α} {k : κ} (v : α) (h : d.get k = none) :
    (d.set k v).size = d.size + 1 := by
  simp [size, entries_set_of_get_none v h]

theorem keys_set (d : OrderedDict κ α) (k : κ) (v : α) :
    (d.set k v).keys = if k ∈ d.keys then d.keys else d.keys ++ [k] :=
  map_fst_setEntries k v d.entries

theorem keys_setDefault (d : OrderedDict κ α) (k : κ) (v : α) :
    (d.setDefault k v).keys = if k ∈ d.keys then d.keys else d.keys ++ [k] := by
  rw [setDefault]
  cases hk : d.get k with
  | some existing => rw [if_pos Option.isSome_some, if_pos (mem_keys_of_get hk)]
  | none => rw [if_neg (by simp), keys_set_of_get_none _ hk, if_neg (get_eq_none.mp hk)]

theorem size_set (d : OrderedDict κ α) (k : κ) (v : α) :
    (d.set k v).size = if k ∈ d.keys then d.size else d.size + 1 := by
  rw [← length_keys, keys_set]
  split_ifs
  · exact length_keys d
  · rw [List.length_append, length_keys, List.length_singleton]

/-- The last entry of a key decides. -/
theorem get_update (d : OrderedDict κ α) (es : List (κ × α)) (k : κ) :
    (d.update es).get k = (lookupEntries k es.reverse).or (d.get k) := by
  induction es using List.reverseRecOn with
  | nil => rfl
  | append_singleton es e ih =>
      have hstep : d.update (es ++ [e]) = (d.update es).set e.1 e.2 := by
        rw [update, List.foldl_append]
        rfl
      rw [hstep, get_set, ih, List.reverse_append, List.reverse_singleton, List.singleton_append,
        lookupEntries]
      split_ifs
      · rfl
      · rfl

theorem size_update_le (d : OrderedDict κ α) (es : List (κ × α)) :
    (d.update es).size ≤ d.size + es.length := by
  induction es generalizing d with
  | nil => exact Nat.le_refl _
  | cons e es ih =>
      have hset : (d.set e.1 e.2).size ≤ d.size + 1 := by
        rw [size_set]
        split_ifs
        · omega
        · omega
      calc
        ((d.set e.1 e.2).update es).size ≤ (d.set e.1 e.2).size + es.length := ih _
        _ ≤ d.size + 1 + es.length := Nat.add_le_add_right hset _
        _ = d.size + (es.length + 1) := by omega

/-- An update keeps every entry when no key is set twice. -/
theorem size_update_eq_iff (d : OrderedDict κ α) (es : List (κ × α)) :
    (d.update es).size = d.size + es.length ↔ (d.keys ++ es.map Prod.fst).Nodup := by
  induction es generalizing d with
  | nil => simpa [update, keys] using d.nodup
  | cons e es ih =>
      change ((d.set e.1 e.2).update es).size = d.size + (es.length + 1) ↔ _
      by_cases hk : e.1 ∈ d.keys
      · have hle := size_update_le (d.set e.1 e.2) es
        rw [size_set, if_pos hk] at hle
        apply iff_of_false (by omega)
        intro hnodup
        exact (List.nodup_append.mp hnodup).2.2 e.1 hk e.1 (.head _) rfl
      · have hih := ih (d.set e.1 e.2)
        rw [size_set, if_neg hk, keys_set, if_neg hk, List.append_assoc] at hih
        rw [show d.size + (es.length + 1) = d.size + 1 + es.length by omega]
        exact hih

theorem size_ofEntries_eq_iff (es : List (κ × α)) :
    (ofEntries es).size = es.length ↔ (es.map Prod.fst).Nodup := by
  have h := size_update_eq_iff (empty : OrderedDict κ α) es
  rwa [size_empty, Nat.zero_add, keys_empty, List.nil_append] at h

theorem mem_entries_iff {d : OrderedDict κ α} {k : κ} {v : α} :
    (k, v) ∈ d.entries ↔ d.get k = some v := by
  obtain ⟨es, hes⟩ := d
  change (k, v) ∈ es ↔ lookupEntries k es = some v
  induction es with
  | nil => simp [lookupEntries]
  | cons e rest ih =>
      obtain ⟨j, w⟩ := e
      rw [List.map_cons, List.nodup_cons] at hes
      by_cases hj : j = k
      · subst hj
        have hno : (j, v) ∉ rest := fun hm => hes.1 (List.mem_map.mpr ⟨(j, v), hm, rfl⟩)
        simp only [List.mem_cons, hno, or_false, Prod.mk.injEq, true_and, lookupEntries, if_pos,
          Option.some.injEq]
        exact eq_comm
      · have hj' : ¬ k = j := fun h => hj h.symm
        simp only [List.mem_cons, Prod.mk.injEq, hj', false_and, false_or, lookupEntries, if_neg hj]
        exact ih hes.2

theorem filter_fst_of_mem {es : List (κ × α)} (hnodup : (es.map Prod.fst).Nodup) {k : κ} {v : α}
    (hm : (k, v) ∈ es) : es.filter (fun e => e.1 = k) = [(k, v)] := by
  induction es with
  | nil => cases hm
  | cons e es ih =>
      rw [List.map_cons, List.nodup_cons] at hnodup
      rcases List.mem_cons.mp hm with rfl | hm
      · rw [List.filter_cons_of_pos (by simp), List.filter_eq_nil_iff.mpr]
        intro e he hk
        rw [decide_eq_true_eq] at hk
        exact hnodup.1 (List.mem_map.mpr ⟨e, he, hk⟩)
      · have hne : e.1 ≠ k := by
          rintro rfl
          exact hnodup.1 (List.mem_map.mpr ⟨_, hm, rfl⟩)
        rw [List.filter_cons_of_neg (by simpa using hne)]
        exact ih hnodup.2 hm

/-- The only entry with a key that is present. -/
theorem filter_entries_of_get {d : OrderedDict κ α} {k : κ} {v : α} (h : d.get k = some v) :
    d.entries.filter (fun e => e.1 = k) = [(k, v)] :=
  filter_fst_of_mem d.nodup (mem_entries_iff.mpr h)

theorem mem_values_iff {d : OrderedDict κ α} {v : α} :
    v ∈ d.values ↔ ∃ k, d.get k = some v := by
  simp only [values, List.mem_map, Prod.exists, exists_eq_right, mem_entries_iff]

theorem mem_values_set {d : OrderedDict κ α} {k : κ} {v w : α} (h : w ∈ (d.set k v).values) :
    w = v ∨ w ∈ d.values := by
  obtain ⟨k', hk'⟩ := mem_values_iff.mp h
  rw [get_set] at hk'
  split_ifs at hk' with hk
  · exact Or.inl (Option.some.inj hk').symm
  · exact Or.inr (mem_values_iff.mpr ⟨k', hk'⟩)

/-- No two keys share a value. -/
def Injective (d : OrderedDict κ α) : Prop :=
  ∀ k k' v, d.get k = some v → d.get k' = some v → k = k'

/-- The second dictionary holds every entry of the first. -/
def Extends (d e : OrderedDict κ α) : Prop := ∀ k v, d.get k = some v → e.get k = some v

theorem Extends.refl (d : OrderedDict κ α) : d.Extends d := fun _ _ h => h

theorem Extends.trans {d e f : OrderedDict κ α} (h : d.Extends e) (h' : e.Extends f) :
    d.Extends f := fun k v hk => h' k v (h k v hk)

theorem extends_set_of_get_none {d : OrderedDict κ α} {k : κ} (v : α) (h : d.get k = none) :
    d.Extends (d.set k v) := by
  intro k' v' hk'
  rw [get_set_of_ne]
  · exact hk'
  · rintro rfl
    rw [h] at hk'
    cases hk'

end OrderedDict
