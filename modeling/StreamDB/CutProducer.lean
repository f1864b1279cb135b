import StreamDB.Producer

/-!
# Producers that are cut off

A producer that has been resumed normally so far may have an exception thrown into it wherever it
waits. `Cuts` relates what it has put by then to how it ends if it is left alone afterwards.
-/

namespace Producer

variable {τ κ ε α β : Type}

/-- Wherever the producer waits, `Q` relates what it has by then to how it ends once `e` has been
thrown into it. -/
def Cuts (e : ε) (Q : τ → List κ → Except ε α × τ × List κ → Prop) :
    Producer τ κ ε α → τ → List κ → Prop
  | ended _, _, _ => True
  | act effect next, t, out => (next t).Cuts e Q (effect t) out
  | put item rest, t, out => rest.Cuts e Q t (out ++ [item])
  | wait rest, t, out => Q t out ((rest (some e)).alone t out) ∧ (rest none).Cuts e Q t out

variable {e : ε} {Q Q' : τ → List κ → Except ε α × τ × List κ → Prop} {p : Producer τ κ ε α}

theorem Cuts.mono {t : τ} {out : List κ} (h : p.Cuts e Q t out)
    (hQ : ∀ t out r, Q t out r → Q' t out r) : p.Cuts e Q' t out := by
  induction p generalizing t out with
  | ended r => trivial
  | act effect next ih => exact ih t h
  | put item rest ih => exact ih h
  | wait rest ih => exact ⟨hQ _ _ _ h.1, ih none h.2⟩

theorem Cuts.block {t : τ} {out : List κ} (h : p.Cuts e Q t out) :
    (p.block t).2.2.Cuts e Q (p.block t).1 (out ++ (p.block t).2.1) := by
  induction p generalizing t out with
  | ended r => trivial
  | act effect next ih => exact ih t h
  | put item rest ih =>
      have hrest := ih h
      rwa [List.append_assoc, List.singleton_append] at hrest
  | wait rest ih =>
      rw [Producer.block, List.append_nil]
      exact h

/-- The first part is cut off and the second deals with it, or the second part is cut off. -/
theorem cuts_andThen {Q : τ → List κ → Except ε β × τ × List κ → Prop}
    {f : Except ε α → Producer τ κ ε β} {t : τ} {out : List κ}
    (hp : p.Cuts e (fun t out r => Q t out ((f r.1).alone r.2.1 r.2.2)) t out)
    (hf : (f (p.alone t out).1).Cuts e Q (p.alone t out).2.1 (p.alone t out).2.2) :
    (p.andThen f).Cuts e Q t out := by
  induction p generalizing t out with
  | ended r => exact hf
  | act effect next ih => exact ih t hp hf
  | put item rest ih => exact ih hp hf
  | wait rest ih =>
      refine ⟨?_, ih none hp.2 hf⟩
      rw [alone_andThen]
      exact hp.1

/-- A part that ends well is followed by the rest; an exception is passed on. -/
theorem cuts_bind {Q : τ → List κ → Except ε β × τ × List κ → Prop} {f : α → Producer τ κ ε β}
    {t : τ} {out : List κ}
    (hp : p.Cuts e (fun t out r => ∃ e', r.1 = .error e' ∧ Q t out (.error e', r.2)) t out)
    (hf : ∀ a t' out', p.alone t out = (.ok a, t', out') → (f a).Cuts e Q t' out') :
    (p >>= f).Cuts e Q t out := by
  refine cuts_andThen (hp.mono fun t out r h => ?_) ?_
  · obtain ⟨e', hr, hQ⟩ := h
    rw [hr]
    exact hQ
  · cases halone : p.alone t out with
    | mk r r' =>
        cases r with
        | ok a => exact hf a r'.1 r'.2 halone
        | error e' => trivial

theorem attempt_bind (p : Producer τ κ ε α) (f : Except ε α → Producer τ κ ε β) :
    p.attempt >>= f = p.andThen f := by
  induction p with
  | ended r => rfl
  | act effect next ih => exact congrArg (act effect) (funext ih)
  | put item rest ih => exact congrArg (put item) ih
  | wait rest ih => exact congrArg wait (funext ih)

theorem cuts_catching {handler : ε → Producer τ κ ε α} {t : τ} {out : List κ}
    (hp : p.Cuts e (fun t out r => ∃ e', r.1 = .error e' ∧
      Q t out ((handler e').alone r.2.1 r.2.2)) t out)
    (hhandler : ∀ e' t' out', p.alone t out = (.error e', t', out') →
      (handler e').Cuts e Q t' out') : (p.catching handler).Cuts e Q t out := by
  refine cuts_andThen (hp.mono fun t out r h => ?_) ?_
  · obtain ⟨e', hr, hQ⟩ := h
    rw [hr]
    exact hQ
  · cases halone : p.alone t out with
    | mk r r' =>
        cases r with
        | ok a => trivial
        | error e' => exact hhandler e' r'.1 r'.2 halone

/-- How a program ends whose last block has run, from the two ends. -/
def afterLast (r : Except ε α) : Except ε Unit × τ × List κ → Except ε α × τ × List κ
  | (.ok _, t, out) => (r, t, out)
  | (.error e, t, out) => (.error e, t, out)

theorem alone_last (r : Except ε α) (last : Producer τ κ ε Unit) (t : τ) (out : List κ) :
    (last.andThen fun
      | .ok _ => ended r
      | .error e => ended (.error e)).alone t out = afterLast r (last.alone t out) := by
  rw [alone_andThen]
  cases last.alone t out with
  | mk r' r'' =>
      cases r' with
      | ok _ => rfl
      | error _ => rfl

theorem cuts_withFinally {last : Producer τ κ ε Unit} {t : τ} {out : List κ}
    (hp : p.Cuts e (fun t out r => Q t out (afterLast r.1 (last.alone r.2.1 r.2.2))) t out)
    (hlast : last.Cuts e (fun t' out' r => Q t' out' (afterLast (p.alone t out).1 r))
      (p.alone t out).2.1 (p.alone t out).2.2) : (p.withFinally last).Cuts e Q t out := by
  refine cuts_andThen (hp.mono fun t out r h => ?_) ?_
  · exact (alone_last r.1 last r.2.1 r.2.2).symm.subst h
  · refine cuts_andThen (hlast.mono fun t out r h => ?_) ?_
    · obtain ⟨r, t', out'⟩ := r
      cases r with
      | ok _ => exact h
      | error _ => exact h
    · cases (last.alone (p.alone t out).2.1 (p.alone t out).2.2).1 with
      | ok _ => trivial
      | error _ => trivial

end Producer
