import Mathlib.Data.List.Basic

/-!
# Coroutines that feed a queue

A producer has a state of its own and puts items on an unbounded queue, where a put never
suspends. From one suspension point to the next it runs alone, so the items of one block reach
the queue together. It is resumed normally, or with an exception thrown at the point where it
waits.
-/

inductive Producer (τ κ ε α : Type) where
  | ended (r : Except ε α)
  | act (effect : τ → τ) (next : τ → Producer τ κ ε α)
  | put (item : κ) (rest : Producer τ κ ε α)
  | wait (rest : Option ε → Producer τ κ ε α)

namespace Producer

variable {τ κ ε α β : Type}

/-- Go on with how the producer ends. -/
def andThen : Producer τ κ ε α → (Except ε α → Producer τ κ ε β) → Producer τ κ ε β
  | ended r, f => f r
  | act effect next, f => act effect fun t => (next t).andThen f
  | put item rest, f => put item (rest.andThen f)
  | wait rest, f => wait fun thrown => (rest thrown).andThen f

instance : Monad (Producer τ κ ε) where
  pure a := ended (.ok a)
  bind p f := p.andThen fun
    | .ok a => f a
    | .error e => ended (.error e)

def raise (e : ε) : Producer τ κ ε α := ended (.error e)

def ofExcept (r : Except ε α) : Producer τ κ ε α := ended r

def get : Producer τ κ ε τ := act id fun t => ended (.ok t)

def modify (f : τ → τ) : Producer τ κ ε Unit := act f fun _ => ended (.ok ())

def emit (item : κ) : Producer τ κ ε Unit := put item (ended (.ok ()))

def suspend : Producer τ κ ε Unit :=
  wait fun
    | none => ended (.ok ())
    | some e => ended (.error e)

def attempt (p : Producer τ κ ε α) : Producer τ κ ε (Except ε α) :=
  p.andThen fun r => ended (.ok r)

def catching (p : Producer τ κ ε α) (handler : ε → Producer τ κ ε α) : Producer τ κ ε α :=
  p.andThen fun
    | .ok a => ended (.ok a)
    | .error e => handler e

def withFinally (p : Producer τ κ ε α) (last : Producer τ κ ε Unit) : Producer τ κ ε α :=
  p.andThen fun r => last.andThen fun
    | .ok _ => ended r
    | .error e => ended (.error e)

/-- The block that starts here: the state it leaves, the items it puts, and what is left. -/
def block : Producer τ κ ε α → τ → τ × List κ × Producer τ κ ε α
  | ended r, t => (t, [], ended r)
  | act effect next, t => (next t).block (effect t)
  | put item rest, t =>
      let r := rest.block t
      (r.1, item :: r.2.1, r.2.2)
  | wait rest, t => (t, [], wait rest)

/-- How the producer ends when nothing is thrown into it, with the items put before and since. -/
def alone : Producer τ κ ε α → τ → List κ → Except ε α × τ × List κ
  | ended r, t, out => (r, t, out)
  | act effect next, t, out => (next t).alone (effect t) out
  | put item rest, t, out => rest.alone t (out ++ [item])
  | wait rest, t, out => (rest none).alone t out

/-- `inv` holds of the state and of all items put whenever the producer waits, and `post` when it
ends, whatever is thrown into it. -/
def Holds (inv : τ → List κ → Prop) (post : Except ε α → τ → List κ → Prop) :
    Producer τ κ ε α → τ → List κ → Prop
  | ended r, t, out => post r t out
  | act effect next, t, out => (next t).Holds inv post (effect t) out
  | put item rest, t, out => rest.Holds inv post t (out ++ [item])
  | wait rest, t, out => inv t out ∧ ∀ thrown, (rest thrown).Holds inv post t out

variable {inv : τ → List κ → Prop} {post post' : Except ε α → τ → List κ → Prop}
  {p : Producer τ κ ε α}

theorem alone_andThen (p : Producer τ κ ε α) (f : Except ε α → Producer τ κ ε β) (t : τ)
    (out : List κ) :
    (p.andThen f).alone t out =
      (f (p.alone t out).1).alone (p.alone t out).2.1 (p.alone t out).2.2 := by
  induction p generalizing t out with
  | ended r => rfl
  | act effect next ih => exact ih t (effect t) out
  | put item rest ih => exact ih t (out ++ [item])
  | wait rest ih => exact ih none t out

/-- What a block has put stands before what the rest puts. -/
theorem alone_block (p : Producer τ κ ε α) (t : τ) (out : List κ) :
    (p.block t).2.2.alone (p.block t).1 (out ++ (p.block t).2.1) = p.alone t out := by
  induction p generalizing t out with
  | ended r =>
      rw [block, List.append_nil]
  | act effect next ih => exact ih t (effect t) out
  | put item rest ih =>
      have h := ih t (out ++ [item])
      rwa [List.append_assoc, List.singleton_append] at h
  | wait rest ih =>
      rw [block, List.append_nil]

/-- The producer has ended or waits. -/
def Settled : Producer τ κ ε α → Prop
  | ended _ => True
  | wait _ => True
  | _ => False

theorem settled_block (p : Producer τ κ ε α) (t : τ) : (p.block t).2.2.Settled := by
  induction p generalizing t with
  | ended r => trivial
  | act effect next ih => exact ih t (effect t)
  | put item rest ih => exact ih t
  | wait rest ih => trivial

theorem Settled.cases (h : p.Settled) : (∃ r, p = ended r) ∨ ∃ rest, p = wait rest := by
  cases p with
  | ended r => exact .inl ⟨r, rfl⟩
  | wait rest => exact .inr ⟨rest, rfl⟩
  | act effect next => cases h
  | put item rest => cases h

theorem holds_andThen {post : Except ε β → τ → List κ → Prop}
    {f : Except ε α → Producer τ κ ε β} {t : τ} {out : List κ} :
    (p.andThen f).Holds inv post t out ↔
      p.Holds inv (fun r t out => (f r).Holds inv post t out) t out := by
  induction p generalizing t out with
  | ended r => exact Iff.rfl
  | act effect next ih => exact ih t
  | put item rest ih => exact ih
  | wait rest ih => exact and_congr_right fun _ => forall_congr' fun thrown => ih thrown

theorem Holds.mono {t : τ} {out : List κ} (h : p.Holds inv post t out)
    (hpost : ∀ r t out, post r t out → post' r t out) : p.Holds inv post' t out := by
  induction p generalizing t out with
  | ended r => exact hpost r t out h
  | act effect next ih => exact ih t h
  | put item rest ih => exact ih h
  | wait rest ih => exact ⟨h.1, fun thrown => ih thrown (h.2 thrown)⟩

theorem Holds.block {t : τ} {out : List κ} (h : p.Holds inv post t out) :
    (p.block t).2.2.Holds inv post (p.block t).1 (out ++ (p.block t).2.1) := by
  induction p generalizing t out with
  | ended r =>
      rw [Producer.block, List.append_nil]
      exact h
  | act effect next ih => exact ih t h
  | put item rest ih =>
      have hrest := ih h
      rwa [List.append_assoc, List.singleton_append] at hrest
  | wait rest ih =>
      rw [Producer.block, List.append_nil]
      exact h

/-! ## Programs that keep the invariant -/

def Safe (inv : τ → List κ → Prop) (p : Producer τ κ ε α) : Prop :=
  ∀ t out, inv t out → p.Holds inv (fun _ => inv) t out

theorem safe_ended (r : Except ε α) : Safe inv (ended r : Producer τ κ ε α) :=
  fun _ _ h => h

theorem safe_andThen {f : Except ε α → Producer τ κ ε β} (hp : Safe inv p)
    (hf : ∀ r, Safe inv (f r)) : Safe inv (p.andThen f) :=
  fun t out h => holds_andThen.mpr ((hp t out h).mono fun r t out h => hf r t out h)

theorem safe_bind {f : α → Producer τ κ ε β} (hp : Safe inv p) (hf : ∀ a, Safe inv (f a)) :
    Safe inv (p >>= f) := by
  refine safe_andThen hp fun r => ?_
  cases r with
  | ok a => exact hf a
  | error e => exact safe_ended _

/-- After a part that keeps the invariant, only what follows it has to be looked at. -/
theorem holds_bind {post : Except ε β → τ → List κ → Prop} {f : α → Producer τ κ ε β}
    (hp : Safe inv p) (hf : ∀ a t out, inv t out → (f a).Holds inv post t out)
    (herror : ∀ e t out, inv t out → post (.error e) t out) {t : τ} {out : List κ}
    (h : inv t out) : (p >>= f).Holds inv post t out := by
  refine holds_andThen.mpr ((hp t out h).mono fun r t out h => ?_)
  cases r with
  | ok a => exact hf a t out h
  | error e => exact herror e t out h

theorem safe_get_bind {f : τ → Producer τ κ ε β} (hf : ∀ t, Safe inv (f t)) :
    Safe inv (get >>= f) :=
  fun t out h => hf t t out h

theorem safe_emit {item : κ} (h : ∀ t out, inv t out → inv t (out ++ [item])) :
    Safe inv (emit item : Producer τ κ ε Unit) := h

theorem safe_modify {f : τ → τ} (h : ∀ t out, inv t out → inv (f t) out) :
    Safe inv (modify f : Producer τ κ ε Unit) := h

theorem safe_suspend : Safe inv (suspend : Producer τ κ ε Unit) := by
  refine fun t out h => ⟨h, fun thrown => ?_⟩
  cases thrown with
  | none => exact h
  | some e => exact h

theorem safe_attempt (hp : Safe inv p) : Safe inv p.attempt :=
  safe_andThen hp fun _ => safe_ended _

theorem safe_catching {handler : ε → Producer τ κ ε α} (hp : Safe inv p)
    (hhandler : ∀ e, Safe inv (handler e)) : Safe inv (p.catching handler) := by
  refine safe_andThen hp fun r => ?_
  cases r with
  | ok a => exact safe_ended _
  | error e => exact hhandler e

end Producer
