import Mathlib.Tactic.SplitIfs
import StreamDB.Coroutine

/-!
# Threads that are run to their end

A thread whose waits are all granted comes to an end, whatever the others do in between: `finish`
computes its blocks and the exception it ends with from the states in which the waits are granted.
-/

namespace Coroutine

variable {ι σ ε : Type}

namespace Code

/-- Run a thread to its end, from within a block that started in `s₀` and has come to `s`; wait
number `i` is the next to be granted, in state `starts i`. -/
def finish (starts : ℕ → σ) : Code ι σ ε → ℕ → σ → σ → List (σ × σ) × Option ε
  | done, _, s₀, s => ([(s₀, s)], none)
  | fail exc, _, s₀, s => ([(s₀, s)], some exc)
  | act effect next, i, s₀, s => finish starts (next s) i s₀ (effect s)
  | wait _ rest, i, s₀, s =>
      let r := finish starts rest (i + 1) (starts i) (starts i)
      ((s₀, s) :: r.1, r.2)
  | waitFor _ rest _, i, s₀, s =>
      let r := finish starts rest (i + 1) (starts i) (starts i)
      ((s₀, s) :: r.1, r.2)
  | fork _ _ rest, i, s₀, s => finish starts rest i s₀ s

def ending : Code ι σ ε → Option (Option ε)
  | done => some none
  | fail exc => some (some exc)
  | _ => none

theorem legs_of_ended {code rest : Code ι σ ε} {ss : List σ} {later : List (σ × σ)}
    (hended : ∀ s, code.resume s = none) (h : code.legs (ss.map Leg.resume) = some (later, rest)) :
    later = [] ∧ rest = code := by
  cases ss with
  | nil =>
      cases h
      exact ⟨rfl, rfl⟩
  | cons s ss =>
      obtain ⟨_, _, _, _, hblock, _, _⟩ := legs_cons h
      rw [Leg.block, hended] at hblock
      cases hblock

section Runs

variable {starts : ℕ → σ} {code rest next : Code ι σ ε} {result : Option ε}

/-- Every run from here to the end of the thread is the one computed. -/
def Computes (starts : ℕ → σ) (rest : Code ι σ ε) (result : Option ε) (code : Code ι σ ε) : Prop :=
  ∀ (i : ℕ) (s₀ s : σ) (ss : List σ) (later : List (σ × σ)),
    (∀ j s', ss[j]? = some s' → starts (i + j) = s') →
    (code.block s).2.1.legs (ss.map Leg.resume) = some (later, rest) →
    code.finish starts i s₀ s = ((s₀, (code.block s).1) :: later, result)

theorem Computes.granted (h : Computes starts rest result next) (hrest : rest.ending = some result)
    (hwaiting : code.ending = none) (hresume : ∀ s r, code.resume s = some r → next.block s = r)
    {i : ℕ} {ss : List σ} {later : List (σ × σ)}
    (hstarts : ∀ j s', ss[j]? = some s' → starts (i + j) = s')
    (hlegs : code.legs (ss.map Leg.resume) = some (later, rest)) :
    next.finish starts (i + 1) (starts i) (starts i) = (later, result) := by
  cases ss with
  | nil =>
      cases hlegs
      rw [hwaiting] at hrest
      cases hrest
  | cons s ss =>
      obtain ⟨s', code', forks, later', hblock, hlater, rfl⟩ := legs_cons hlegs
      have hnext := hresume s _ hblock
      have hstart : starts i = s := hstarts 0 s rfl
      have hstarts' : ∀ j t, ss[j]? = some t → starts (i + 1 + j) = t := by
        intro j t ht
        rw [Nat.add_right_comm]
        exact hstarts (j + 1) t ht
      rw [hstart, h (i + 1) s s ss later' hstarts' (by rw [hnext]; exact hlater), hnext]
      rfl

theorem computes_finish (hrest : rest.ending = some result) (code : Code ι σ ε) :
    Computes starts rest result code := by
  induction code with
  | done =>
      intro i s₀ s ss later _ h
      obtain ⟨rfl, rfl⟩ := legs_of_ended (fun _ => rfl) h
      cases hrest
      rfl
  | fail exc =>
      intro i s₀ s ss later _ h
      obtain ⟨rfl, rfl⟩ := legs_of_ended (fun _ => rfl) h
      cases hrest
      rfl
  | act effect next ih => exact fun i s₀ s => ih s i s₀ (effect s)
  | wait ready next ih =>
      intro i s₀ s ss later hstarts h
      have hresume : ∀ s r, (wait ready next).resume s = some r → next.block s = r := by
        intro s r hr
        rw [resume] at hr
        split_ifs at hr
        exact Option.some.inj hr
      rw [finish, ih.granted hrest rfl hresume hstarts h]
      rfl
  | waitFor ready next late ih _ =>
      intro i s₀ s ss later hstarts h
      have hresume : ∀ s r, (waitFor ready next late).resume s = some r → next.block s = r := by
        intro s r hr
        rw [resume] at hr
        split_ifs at hr
        exact Option.some.inj hr
      rw [finish, ih.granted hrest rfl hresume hstarts h]
      rfl
  | fork name child next _ ih => exact ih

end Runs

end Code

end Coroutine
