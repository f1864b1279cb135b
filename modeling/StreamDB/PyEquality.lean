import Mathlib.Data.List.Forall2
import Mathlib.Data.List.Perm.Subperm
import StreamDB.PyValue

/-!
# Python's equality

`==` is no equivalence: a NaN equals nothing. It is transitive, and it is symmetric on values
whose dictionaries list each key once, as those of Python do.
-/

namespace StreamDB

namespace PyValue

/-- Induction over the values inside lists and dictionaries. -/
theorem inside {P : PyValue → Prop} (none : P .none) (bool : ∀ b, P (.bool b))
    (int : ∀ n, P (.int n)) (float : ∀ bits, P (.float bits)) (str : ∀ s, P (.str s))
    (list : ∀ xs, (∀ x ∈ xs, P x) → P (.list xs))
    (dict : ∀ entries, (∀ e ∈ entries, P e.2) → P (.dict entries)) : ∀ v, P v
  | .none => none
  | .bool b => bool b
  | .int n => int n
  | .float bits => float bits
  | .str s => str s
  | .list xs => list xs fun x _ => inside none bool int float str list dict x
  | .dict entries => dict entries fun e _ => inside none bool int float str list dict e.2
termination_by v => sizeOf v
decreasing_by
  · have hx := List.sizeOf_lt_of_mem ‹x ∈ xs›
    rw [PyValue.list.sizeOf_spec]
    omega
  · have he := List.sizeOf_lt_of_mem ‹e ∈ entries›
    have hvalue : sizeOf e.2 < sizeOf e := by
      rw [Prod.mk.sizeOf_spec]
      omega
    rw [PyValue.dict.sizeOf_spec]
    omega

/-- Each dictionary lists its keys once. -/
inductive WellKeyed : PyValue → Prop
  | none : WellKeyed .none
  | bool (b : Bool) : WellKeyed (.bool b)
  | int (n : ℤ) : WellKeyed (.int n)
  | float (bits : UInt64) : WellKeyed (.float bits)
  | str (s : String) : WellKeyed (.str s)
  | list (xs : List PyValue) (items : ∀ x ∈ xs, WellKeyed x) : WellKeyed (.list xs)
  | dict (entries : Entries) (once : (entries.map Prod.fst).Nodup)
      (values : ∀ e ∈ entries, WellKeyed e.2) : WellKeyed (.dict entries)

theorem eqList_iff {xs ys : List PyValue} :
    eqList xs ys ↔ List.Forall₂ (fun x y => x.eq y) xs ys := by
  induction xs generalizing ys with
  | nil =>
      cases ys with
      | nil => simp [eqList]
      | cons y ys => simp [eqList]
  | cons x xs ih =>
      cases ys with
      | nil => simp [eqList]
      | cons y ys => rw [eqList, Bool.and_eq_true, ih, List.forall₂_cons]

theorem eqEntries_iff {xs ys : Entries} :
    eqEntries xs ys ↔
      ∀ e ∈ xs, ∃ y, OrderedDict.lookupEntries e.1 ys = some y ∧ e.2.eq y := by
  induction xs with
  | nil => simp [eqEntries]
  | cons e xs ih =>
      obtain ⟨k, x⟩ := e
      rw [eqEntries, Bool.and_eq_true, ih, List.forall_mem_cons]
      refine and_congr_left fun _ => ?_
      cases hk : OrderedDict.lookupEntries k ys with
      | none => simp
      | some y => simp

theorem eq_dict_iff {xs ys : Entries} :
    (PyValue.dict xs).eq (.dict ys) ↔ xs.length = ys.length ∧
      ∀ e ∈ xs, ∃ y, OrderedDict.lookupEntries e.1 ys = some y ∧ e.2.eq y := by
  rw [eq, Bool.and_eq_true, eqEntries_iff, decide_eq_true_iff]

theorem eq_list_iff {xs ys : List PyValue} :
    (PyValue.list xs).eq (.list ys) ↔ List.Forall₂ (fun x y => x.eq y) xs ys := by
  rw [eq, eqList_iff]

/-- Numbers of any type are compared by value. -/
theorem eq_iff_of_number {x y : PyValue} {n : Number} (hx : x.number = some n) :
    x.eq y ↔ ∃ m, y.number = some m ∧ n.eq m := by
  have heq : x.eq y = eqNumber n y := by
    cases x with
    | bool b =>
        cases hx
        rfl
    | int k =>
        cases hx
        rfl
    | float bits =>
        cases hx
        rfl
    | _ => cases hx
  rw [heq, eqNumber]
  cases y.number with
  | none => simp
  | some m => simp

theorem Number.eq_iff {a b : Number} : a.eq b ↔ a = b ∧ a ≠ .nan := by
  cases a with
  | nan => simp [Number.eq]
  | finite q => simp [Number.eq]
  | infinite negative => simp [Number.eq]

/-- What a value is equal to, by its type. -/
theorem eq_dict {v : PyValue} {xs : Entries} (h : (PyValue.dict xs).eq v) :
    ∃ ys, v = .dict ys := by
  cases v with
  | dict ys => exact ⟨ys, rfl⟩
  | _ => cases h

theorem eq_list {v : PyValue} {xs : List PyValue} (h : (PyValue.list xs).eq v) :
    ∃ ys, v = .list ys := by
  cases v with
  | list ys => exact ⟨ys, rfl⟩
  | _ => cases h

theorem eq_str {v : PyValue} {s : String} : (PyValue.str s).eq v ↔ v = .str s := by
  cases v with
  | str t => simp [eq, isStr]
  | _ => simp [eq, isStr]

theorem eq_none {v : PyValue} : PyValue.none.eq v ↔ v = .none := by
  cases v with
  | none => simp [eq]
  | _ => simp [eq]

theorem mem_of_lookupEntries {k : String} {v : PyValue} {entries : Entries}
    (h : OrderedDict.lookupEntries k entries = some v) : (k, v) ∈ entries := by
  induction entries with
  | nil => cases h
  | cons e entries ih =>
      obtain ⟨k', v'⟩ := e
      rw [OrderedDict.lookupEntries] at h
      split_ifs at h with hk
      · cases hk
        cases h
        exact List.mem_cons_self
      · exact List.mem_cons_of_mem _ (ih h)

/-- Where no key is repeated, each entry is the one that is found. -/
theorem lookupEntries_of_mem {k : String} {v : PyValue} {entries : Entries}
    (once : (entries.map Prod.fst).Nodup) (h : (k, v) ∈ entries) :
    OrderedDict.lookupEntries k entries = some v :=
  OrderedDict.mem_entries_iff (d := ⟨entries, once⟩).mp h

/-! ## Transitivity -/

theorem eq_trans_of_number {a b c : PyValue} {n : Number} (ha : a.number = some n)
    (h : a.eq b) (h' : b.eq c) : a.eq c := by
  obtain ⟨m, hb, hnm⟩ := (eq_iff_of_number ha).mp h
  obtain ⟨k, hc, hmk⟩ := (eq_iff_of_number hb).mp h'
  rw [Number.eq_iff] at hnm hmk
  refine (eq_iff_of_number ha).mpr ⟨k, hc, ?_⟩
  rw [Number.eq_iff]
  exact ⟨hnm.1.trans hmk.1, hnm.2⟩

theorem forall₂_trans {xs ys zs : List PyValue}
    (trans : ∀ x ∈ xs, ∀ y z, x.eq y → y.eq z → x.eq z)
    (h : List.Forall₂ (fun x y => x.eq y) xs ys) (h' : List.Forall₂ (fun x y => x.eq y) ys zs) :
    List.Forall₂ (fun x y => x.eq y) xs zs := by
  induction h generalizing zs with
  | nil => exact h'
  | cons hxy _ ih =>
      cases h' with
      | cons hyz hrest =>
          refine .cons (trans _ List.mem_cons_self _ _ hxy hyz) (ih ?_ hrest)
          exact fun x hx => trans x (List.mem_cons_of_mem _ hx)

theorem eq_trans (a b c : PyValue) (h : a.eq b) (h' : b.eq c) : a.eq c := by
  induction a using inside generalizing b c with
  | none =>
      obtain rfl := eq_none.mp h
      exact h'
  | str s =>
      obtain rfl := eq_str.mp h
      exact h'
  | bool _ => exact eq_trans_of_number rfl h h'
  | int _ => exact eq_trans_of_number rfl h h'
  | float _ => exact eq_trans_of_number rfl h h'
  | list xs ih =>
      obtain ⟨ys, rfl⟩ := eq_list h
      obtain ⟨zs, rfl⟩ := eq_list h'
      rw [eq_list_iff] at h h' ⊢
      exact forall₂_trans ih h h'
  | dict xs ih =>
      obtain ⟨ys, rfl⟩ := eq_dict h
      obtain ⟨zs, rfl⟩ := eq_dict h'
      rw [eq_dict_iff] at h h' ⊢
      refine ⟨h.1.trans h'.1, fun e he => ?_⟩
      obtain ⟨y, hy, hey⟩ := h.2 e he
      obtain ⟨z, hz, hyz⟩ := h'.2 _ (mem_of_lookupEntries hy)
      exact ⟨z, hz, ih e he y z hey hyz⟩

/-! ## Symmetry -/

theorem eq_symm_of_number {a b : PyValue} {n : Number} (ha : a.number = some n) (h : a.eq b) :
    b.eq a := by
  obtain ⟨m, hb, hnm⟩ := (eq_iff_of_number ha).mp h
  rw [Number.eq_iff] at hnm
  refine (eq_iff_of_number hb).mpr ⟨n, ha, ?_⟩
  rw [Number.eq_iff]
  exact ⟨hnm.1.symm, hnm.1 ▸ hnm.2⟩

theorem forall₂_symm {xs ys : List PyValue} (symm : ∀ x ∈ xs, ∀ y, x.eq y → y.eq x)
    (h : List.Forall₂ (fun x y => x.eq y) xs ys) : List.Forall₂ (fun x y => x.eq y) ys xs := by
  induction h with
  | nil => exact .nil
  | cons hxy _ ih =>
      refine .cons (symm _ List.mem_cons_self _ hxy) (ih ?_)
      exact fun x hx => symm x (List.mem_cons_of_mem _ hx)

/-- Two dictionaries of one size, the keys of one among those of the other. -/
theorem keys_perm {xs ys : Entries} (once : (xs.map Prod.fst).Nodup)
    (hlength : xs.length = ys.length) (hkeys : ∀ k ∈ xs.map Prod.fst, k ∈ ys.map Prod.fst) :
    (xs.map Prod.fst).Perm (ys.map Prod.fst) :=
  (List.subperm_of_subset once hkeys).perm_of_length_le (by simp [hlength])

theorem eq_symm {a b : PyValue} (ha : a.WellKeyed) (h : a.eq b) : b.eq a := by
  induction a using inside generalizing b with
  | none =>
      obtain rfl := eq_none.mp h
      exact h
  | str s =>
      obtain rfl := eq_str.mp h
      exact h
  | bool _ => exact eq_symm_of_number rfl h
  | int _ => exact eq_symm_of_number rfl h
  | float _ => exact eq_symm_of_number rfl h
  | list xs ih =>
      obtain ⟨ys, rfl⟩ := eq_list h
      cases ha with
      | list _ items =>
          rw [eq_list_iff] at h ⊢
          exact forall₂_symm (fun x hx y => ih x hx (items x hx)) h
  | dict xs ih =>
      obtain ⟨ys, rfl⟩ := eq_dict h
      cases ha with
      | dict _ once values =>
          rw [eq_dict_iff] at h ⊢
          have hkeys : ∀ k ∈ xs.map Prod.fst, k ∈ ys.map Prod.fst := by
            intro k hk
            obtain ⟨e, he, rfl⟩ := List.mem_map.mp hk
            obtain ⟨y, hy, _⟩ := h.2 e he
            exact List.mem_map.mpr ⟨(e.1, y), mem_of_lookupEntries hy, rfl⟩
          have hperm := keys_perm once h.1 hkeys
          refine ⟨h.1.symm, fun e he => ?_⟩
          have hmem : e.1 ∈ xs.map Prod.fst := hperm.mem_iff.mpr (List.mem_map_of_mem he)
          obtain ⟨d, hd, hde⟩ := List.mem_map.mp hmem
          obtain ⟨y, hy, hxy⟩ := h.2 d hd
          have hfound := lookupEntries_of_mem (hperm.nodup_iff.mp once) he
          rw [hde, hfound] at hy
          obtain rfl := Option.some.inj hy
          refine ⟨d.2, ?_, ih d hd (values d hd) hxy⟩
          rw [← hde]
          exact lookupEntries_of_mem once hd

end PyValue

end StreamDB
