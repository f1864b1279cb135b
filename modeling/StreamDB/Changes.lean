import Mathlib.Data.List.Chain
import Mathlib.Data.List.Induction
import Mathlib.Tactic.SplitIfs

/-!
# Values that are written when they change

Each value is compared with the one before it, written or not, and left out when the two are the
same. `same` needs to be no equivalence: that it is transitive makes the last value written stand
for the last value, and symmetry on the values at hand keeps neighbours apart.
-/

namespace Changes

variable {α : Type} {same : α → α → Bool}

/-- The values that differ from the one before; `prev` comes before the first. -/
def changes (same : α → α → Bool) : Option α → List α → List α
  | _, [] => []
  | prev, a :: as =>
      if prev.any (same a) then changes same (some a) as else a :: changes same (some a) as

theorem changes_concat (prev : Option α) (as : List α) (a : α) :
    changes same prev (as ++ [a]) = changes same prev as ++
      if (as.getLast?.or prev).any (same a) then [] else [a] := by
  induction as generalizing prev with
  | nil => rfl
  | cons b as ih =>
      have hlast : (b :: as).getLast?.or prev = as.getLast?.or (some b) := by
        rw [List.getLast?_cons]
        cases as.getLast? with
        | none => rfl
        | some c => rfl
      rw [List.cons_append, changes, changes, ih, hlast]
      by_cases hb : prev.any (same b)
      · rw [if_pos hb, if_pos hb]
      · rw [if_neg hb, if_neg hb, List.cons_append]

theorem mem_of_mem_changes {prev : Option α} {as : List α} {a : α}
    (h : a ∈ changes same prev as) : a ∈ as := by
  induction as generalizing prev with
  | nil => cases h
  | cons b as ih =>
      rw [changes] at h
      split_ifs at h
      · exact List.mem_cons_of_mem _ (ih h)
      · rcases List.mem_cons.mp h with rfl | h
        · exact List.mem_cons_self
        · exact List.mem_cons_of_mem _ (ih h)

/-- The last value is the last that was written, or the same. -/
theorem getLast?_changes (trans : ∀ a b c, same a b → same b c → same a c) {as : List α} {a : α}
    (h : as.getLast? = some a) :
    ∃ b, (changes same none as).getLast? = some b ∧ (a = b ∨ same a b) := by
  induction as using List.reverseRecOn generalizing a with
  | nil => cases h
  | append_singleton as c ih =>
      rw [List.getLast?_concat, Option.some.injEq] at h
      subst h
      rw [changes_concat, Option.or_none]
      split_ifs with hsame
      · cases hprev : as.getLast? with
        | none => simp [hprev] at hsame
        | some p =>
            have hcp : same c p := by simpa [hprev] using hsame
            obtain ⟨b, hb, hpb⟩ := ih hprev
            rw [List.append_nil]
            refine ⟨b, hb, .inr ?_⟩
            rcases hpb with rfl | hpb
            · exact hcp
            · exact trans _ _ _ hcp hpb
      · exact ⟨c, List.getLast?_concat, .inl rfl⟩

/-- No value that is written is the same as the one written before it. -/
theorem isChain_changes (trans : ∀ a b c, same a b → same b c → same a c) {as : List α}
    (symm : ∀ a ∈ as, ∀ b, same a b → same b a) :
    (changes same none as).IsChain fun a b => same b a = false := by
  induction as using List.reverseRecOn with
  | nil => exact .nil
  | append_singleton as c ih =>
      have ih' := ih fun a ha => symm a (List.mem_append_left _ ha)
      rw [changes_concat, Option.or_none]
      split_ifs with hsame
      · rw [List.append_nil]
        exact ih'
      · refine List.isChain_append.mpr ⟨ih', List.isChain_singleton c, ?_⟩
        intro b hb d hd
        obtain rfl : c = d := by simpa using hd
        by_contra hcb
        have hcb' : same c b := by simpa using hcb
        cases hprev : as.getLast? with
        | none =>
            rw [List.getLast?_eq_none_iff] at hprev
            subst hprev
            cases hb
        | some p =>
            obtain ⟨b', hb', hpb⟩ := getLast?_changes trans hprev
            obtain rfl : b' = b := Option.some.inj (hb'.symm.trans hb)
            have hcp : same c p := by
              rcases hpb with rfl | hpb
              · exact hcb'
              · have hp : p ∈ as ++ [c] := List.mem_append_left _ (List.mem_of_getLast? hprev)
                exact trans _ _ _ hcb' (symm p hp b' hpb)
            exact hsame (by simp [hprev, hcp])

end Changes
