import Mathlib.Data.List.Nodup
import Mathlib.Data.List.Count

/-!
# Telling repeated keys apart

A list of items is walked through once. The first item with a raw key keeps it; a later one has a
suffix joined to it, which may depend on how often the raw key has been met. The keys are pairwise
distinct if and only if no raw key already reads like a joined one, and no two joined ones read
the same.
-/

universe u v

/-- A way of joining two keys. It is associative and never gives back its first part, and two ways
of splitting a key are comparable. -/
structure Separator (κ : Type u) where
  join : κ → κ → κ
  assoc : ∀ a b c, join (join a b) c = join a (join b c)
  join_ne : ∀ a b, join a b ≠ a
  split : ∀ {a b c d}, join a b = join c d →
    (a = c ∧ b = d) ∨ (∃ e, c = join a e ∧ b = join e d) ∨ ∃ e, a = join c e ∧ d = join e b

namespace Separator

theorem append_cons_split {α : Type u} {x : α} {a b c d : List α}
    (h : a ++ x :: b = c ++ x :: d) :
    (a = c ∧ b = d) ∨ (∃ e, c = a ++ x :: e ∧ b = e ++ x :: d) ∨
      ∃ e, a = c ++ x :: e ∧ d = e ++ x :: b := by
  rcases List.append_eq_append_iff.mp h with ⟨e, hc, hb⟩ | ⟨e, ha, hd⟩
  · cases e with
    | nil =>
        rw [List.nil_append, List.cons.injEq] at hb
        exact .inl ⟨by rw [hc, List.append_nil], hb.2⟩
    | cons y e =>
        rw [List.cons_append, List.cons.injEq] at hb
        exact .inr (.inl ⟨e, by rw [hc, hb.1], hb.2⟩)
  · cases e with
    | nil =>
        rw [List.nil_append, List.cons.injEq] at hd
        exact .inl ⟨by rw [ha, List.append_nil], hd.2.symm⟩
    | cons y e =>
        rw [List.cons_append, List.cons.injEq] at hd
        exact .inr (.inr ⟨e, by rw [ha, hd.1], hd.2⟩)

theorem join_left_cancel {κ : Type u} (s : Separator κ) {a b d : κ}
    (h : s.join a b = s.join a d) : b = d := by
  rcases s.split h with ⟨_, hb⟩ | ⟨e, ha, _⟩ | ⟨e, ha, _⟩
  · exact hb
  · exact absurd ha.symm (s.join_ne a e)
  · exact absurd ha.symm (s.join_ne a e)

/-- Two strings with a character in between. -/
def ofChar (x : Char) : Separator String where
  join a b := a ++ String.singleton x ++ b
  assoc a b c := by simp only [String.append_assoc]
  join_ne a b h := by
    have hlength := congrArg String.length h
    simp only [String.length_append, String.length_singleton] at hlength
    omega
  split {a b c d} h := by
    have hlist : a.toList ++ x :: b.toList = c.toList ++ x :: d.toList := by
      simpa using congrArg String.toList h
    rcases append_cons_split hlist with ⟨ha, hb⟩ | ⟨e, hc, hb⟩ | ⟨e, ha, hd⟩
    · exact .inl ⟨String.toList_inj.mp ha, String.toList_inj.mp hb⟩
    · refine .inr (.inl ⟨.ofList e, ?_, ?_⟩)
      · exact String.toList_inj.mp (by simpa using hc)
      · exact String.toList_inj.mp (by simpa using hb)
    · refine .inr (.inr ⟨.ofList e, ?_, ?_⟩)
      · exact String.toList_inj.mp (by simpa using ha)
      · exact String.toList_inj.mp (by simpa using hd)

end Separator

/-- How items are keyed: a raw key, and a suffix for an item whose raw key has been met so many
times before. -/
structure Rekeying (ι : Type u) (κ : Type v) where
  separator : Separator κ
  raw : ι → κ
  suffix : ι → ℕ → κ

namespace Rekeying

variable {ι : Type u} {κ : Type v} (r : Rekeying ι κ)

/-- The key of an item, given with the number of earlier ones that share its raw key. -/
def key (p : ι × ℕ) : κ :=
  if p.2 > 0 then r.separator.join (r.raw p.1) (r.suffix p.1 p.2) else r.raw p.1

/-- The keys do not run into each other: what is told apart is the raw keys and suffixes. -/
structure Apart (items : List (ι × ℕ)) : Prop where
  raw : ∀ p ∈ items, ∀ q ∈ items, 0 < p.2 →
    r.raw q.1 ≠ r.separator.join (r.raw p.1) (r.suffix p.1 p.2)
  nested : ∀ p ∈ items, ∀ q ∈ items, 0 < p.2 → 0 < q.2 → ∀ e,
    r.raw q.1 = r.separator.join (r.raw p.1) e →
    r.suffix p.1 p.2 ≠ r.separator.join e (r.suffix q.1 q.2)
  suffix : ∀ p ∈ items, ∀ q ∈ items, 0 < p.2 → 0 < q.2 → r.raw p.1 = r.raw q.1 →
    r.suffix p.1 p.2 = r.suffix q.1 q.2 → p = q

variable {r}

theorem key_of_pos {p : ι × ℕ} (h : 0 < p.2) :
    r.key p = r.separator.join (r.raw p.1) (r.suffix p.1 p.2) := if_pos h

theorem key_of_zero {p : ι × ℕ} (h : p.2 = 0) : r.key p = r.raw p.1 :=
  if_neg (by simp [h])

/-- An item keeps its key when it stays the first with its raw key, or stays a later one with the
same suffix. -/
theorem key_eq_key_iff {x : ι} {m n : ℕ} :
    r.key (x, m) = r.key (x, n) ↔
      (m = 0 ↔ n = 0) ∧ (0 < m → 0 < n → r.suffix x m = r.suffix x n) := by
  rcases Nat.eq_zero_or_pos m with hm | hm
  · rcases Nat.eq_zero_or_pos n with hn | hn
    · simp [hm, hn]
    · rw [key_of_zero hm, key_of_pos hn]
      constructor
      · exact fun h => absurd h.symm (r.separator.join_ne _ _)
      · exact fun h => absurd (h.1.mp hm) (by omega)
  · rcases Nat.eq_zero_or_pos n with hn | hn
    · rw [key_of_pos hm, key_of_zero hn]
      constructor
      · exact fun h => absurd h (r.separator.join_ne _ _)
      · exact fun h => absurd (h.1.mpr hn) (by omega)
    · rw [key_of_pos hm, key_of_pos hn]
      constructor
      · exact fun h => ⟨by omega, fun _ _ => r.separator.join_left_cancel h⟩
      · exact fun h => congrArg _ (h.2 hm hn)

/-- Every raw key is numbered upwards, from zero. -/
structure Numbered (r : Rekeying ι κ) (items : List (ι × ℕ)) : Prop where
  upwards : items.Pairwise fun p q => r.raw p.1 = r.raw q.1 → p.2 < q.2
  fromZero : ∀ p ∈ items, ∃ q ∈ items, r.raw q.1 = r.raw p.1 ∧ q.2 = 0

/-- An item is known by its raw key and its number. -/
theorem Numbered.eq_of {items : List (ι × ℕ)} (h : r.Numbered items) {p q : ι × ℕ}
    (hp : p ∈ items) (hq : q ∈ items) (hraw : r.raw p.1 = r.raw q.1) (hnum : p.2 = q.2) :
    p = q := by
  refine List.Pairwise.forall_of_forall_of_flip
    (R := fun p q => r.raw p.1 = r.raw q.1 → p.2 = q.2 → p = q) (fun _ _ _ _ => rfl) ?_ ?_
    hp hq hraw hnum
  · exact h.upwards.imp fun hlt hraw hnum => absurd hnum (Nat.ne_of_lt (hlt hraw))
  · exact h.upwards.imp fun hlt hraw hnum => absurd hnum.symm (Nat.ne_of_lt (hlt hraw.symm))

theorem apart_of_nodup {items : List (ι × ℕ)} (h : r.Numbered items)
    (hnodup : (items.map r.key).Nodup) : r.Apart items where
  raw p hp q hq hpos heq := by
    obtain ⟨q', hq', hraw, hzero⟩ := h.fromZero q hq
    have hkey : r.key p = r.key q' := by rw [key_of_pos hpos, key_of_zero hzero, hraw, heq]
    rw [List.inj_on_of_nodup_map hnodup hp hq' hkey, hzero] at hpos
    exact Nat.lt_irrefl 0 hpos
  nested p hp q hq hpos hpos' e hraw hsuffix := by
    have hkey : r.key p = r.key q := by
      rw [key_of_pos hpos, key_of_pos hpos', hraw, hsuffix, r.separator.assoc]
    rw [List.inj_on_of_nodup_map hnodup hp hq hkey] at hraw
    exact r.separator.join_ne _ _ hraw.symm
  suffix p hp q hq hpos hpos' hraw hsuffix :=
    List.inj_on_of_nodup_map hnodup hp hq (by
      rw [key_of_pos hpos, key_of_pos hpos', hraw, hsuffix])

theorem key_ne_of_apart {items : List (ι × ℕ)} (h : r.Apart items) {p q : ι × ℕ}
    (hp : p ∈ items) (hq : q ∈ items) (hlt : r.raw p.1 = r.raw q.1 → p.2 < q.2) :
    r.key p ≠ r.key q := by
  intro hkey
  rcases Nat.eq_zero_or_pos p.2 with hzero | hpos
  · rcases Nat.eq_zero_or_pos q.2 with hzero' | hpos'
    · rw [key_of_zero hzero, key_of_zero hzero'] at hkey
      have := hlt hkey
      omega
    · rw [key_of_zero hzero, key_of_pos hpos'] at hkey
      exact h.raw q hq p hp hpos' hkey
  · rcases Nat.eq_zero_or_pos q.2 with hzero' | hpos'
    · rw [key_of_pos hpos, key_of_zero hzero'] at hkey
      exact h.raw p hp q hq hpos hkey.symm
    · rw [key_of_pos hpos, key_of_pos hpos'] at hkey
      rcases r.separator.split hkey with ⟨hraw, hsuffix⟩ | ⟨e, hraw, hsuffix⟩ | ⟨e, hraw, hsuffix⟩
      · have heq := h.suffix p hp q hq hpos hpos' hraw hsuffix
        have := hlt hraw
        rw [heq] at this
        omega
      · exact h.nested p hp q hq hpos hpos' e hraw hsuffix
      · exact h.nested q hq p hp hpos' hpos e hraw hsuffix

theorem nodup_keys_iff {items : List (ι × ℕ)} (h : r.Numbered items) :
    (items.map r.key).Nodup ↔ r.Apart items := by
  refine ⟨apart_of_nodup h, fun hapart => ?_⟩
  rw [List.nodup_iff_pairwise_ne, List.pairwise_map]
  exact h.upwards.imp_of_mem fun hp hq hlt => key_ne_of_apart hapart hp hq hlt

/-! ## Numbering a list -/

variable [DecidableEq κ]

/-- The items, each with the number of earlier ones that share its raw key. -/
def numberFrom (raw : ι → κ) : List κ → List ι → List (ι × ℕ)
  | _, [] => []
  | seen, x :: xs => (x, seen.count (raw x)) :: numberFrom raw (raw x :: seen) xs

theorem map_fst_numberFrom (raw : ι → κ) (seen : List κ) (xs : List ι) :
    (numberFrom raw seen xs).map Prod.fst = xs := by
  induction xs generalizing seen with
  | nil => rfl
  | cons x xs ih => rw [numberFrom, List.map_cons, ih]

/-- The number of an item counts those before it. -/
theorem getElem?_numberFrom (raw : ι → κ) (seen : List κ) (xs : List ι) (i : ℕ) :
    (numberFrom raw seen xs)[i]? = xs[i]?.map fun x =>
      (x, seen.count (raw x) + ((xs.take i).map raw).count (raw x)) := by
  induction xs generalizing seen i with
  | nil => rfl
  | cons x xs ih =>
      cases i with
      | zero => simp [numberFrom]
      | succ i =>
          rw [numberFrom, List.getElem?_cons_succ, List.getElem?_cons_succ, ih]
          congr 1
          funext y
          rw [List.take_succ_cons, List.map_cons, List.count_cons, List.count_cons]
          congr 1
          omega

theorem count_le_of_mem_numberFrom {raw : ι → κ} {seen : List κ} {xs : List ι} {p : ι × ℕ}
    (h : p ∈ numberFrom raw seen xs) : seen.count (raw p.1) ≤ p.2 := by
  induction xs generalizing seen with
  | nil => cases h
  | cons x xs ih =>
      rcases List.mem_cons.mp h with rfl | h
      · exact Nat.le_refl _
      · exact Nat.le_trans (List.count_le_count_cons ..) (ih h)

theorem upwards_numberFrom (raw : ι → κ) (seen : List κ) (xs : List ι) :
    (numberFrom raw seen xs).Pairwise fun p q => raw p.1 = raw q.1 → p.2 < q.2 := by
  induction xs generalizing seen with
  | nil => exact .nil
  | cons x xs ih =>
      refine .cons ?_ (ih _)
      intro q hq hraw
      have hle := count_le_of_mem_numberFrom hq
      rw [← hraw, List.count_cons_self] at hle
      exact hle

theorem fromZero_numberFrom {raw : ι → κ} {seen : List κ} {xs : List ι} {p : ι × ℕ}
    (h : p ∈ numberFrom raw seen xs) (hnew : raw p.1 ∉ seen) :
    ∃ q ∈ numberFrom raw seen xs, raw q.1 = raw p.1 ∧ q.2 = 0 := by
  induction xs generalizing seen with
  | nil => cases h
  | cons x xs ih =>
      by_cases hx : raw p.1 = raw x
      · exact ⟨_, .head _, hx.symm, List.count_eq_zero.mpr (hx ▸ hnew)⟩
      · rcases List.mem_cons.mp h with rfl | h
        · exact absurd rfl hx
        · obtain ⟨q, hq, hraw, hzero⟩ := ih h (by simp [hx, hnew])
          exact ⟨q, .tail _ hq, hraw, hzero⟩

theorem numbered_numberFrom (r : Rekeying ι κ) (xs : List ι) :
    r.Numbered (numberFrom r.raw [] xs) where
  upwards := upwards_numberFrom r.raw [] xs
  fromZero _ hp := fromZero_numberFrom hp (by simp)

end Rekeying
