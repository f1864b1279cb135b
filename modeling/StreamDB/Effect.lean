/-!
# Sequential programs with a state and exceptions

An `Effect` keeps the state it has reached when it raises. `catching` and `withFinally` are the
two clauses of a `try` statement: the handler, and the block that runs on every exit and whose
own exception replaces the one in flight.
-/

universe u

def Effect (σ ε α : Type u) : Type u := σ → Except ε α × σ

namespace Effect

variable {σ ε α β : Type u}

instance : Monad (Effect σ ε) where
  pure a := fun s => (.ok a, s)
  bind p f := fun s =>
    match p s with
    | (.ok a, s') => f a s'
    | (.error e, s') => (.error e, s')

def raise (e : ε) : Effect σ ε α := fun s => (.error e, s)

def modify (f : σ → σ) : Effect σ ε PUnit := fun s => (.ok ⟨⟩, f s)

def get : Effect σ ε σ := fun s => (.ok s, s)

def ofExcept (r : Except ε α) : Effect σ ε α := fun s => (r, s)

def catching (p : Effect σ ε α) (handler : ε → Effect σ ε α) : Effect σ ε α := fun s =>
  match p s with
  | (.ok a, s') => (.ok a, s')
  | (.error e, s') => handler e s'

def withFinally (p : Effect σ ε α) (last : Effect σ ε PUnit) : Effect σ ε α := fun s =>
  match last (p s).2 with
  | (.ok _, s') => ((p s).1, s')
  | (.error e, s') => (.error e, s')

variable {p : Effect σ ε α} {f : α → Effect σ ε β} {s s' : σ} {a : α} {e : ε}

@[simp] theorem pure_apply (a : α) (s : σ) : (pure a : Effect σ ε α) s = (.ok a, s) := rfl

@[simp] theorem raise_apply (e : ε) (s : σ) : (raise e : Effect σ ε α) s = (.error e, s) := rfl

@[simp] theorem modify_apply (g : σ → σ) (s : σ) :
    (modify g : Effect σ ε PUnit) s = (.ok ⟨⟩, g s) := rfl

@[simp] theorem get_apply (s : σ) : (get : Effect σ ε σ) s = (.ok s, s) := rfl

@[simp] theorem ofExcept_apply (r : Except ε α) (s : σ) :
    (ofExcept r : Effect σ ε α) s = (r, s) := rfl

theorem bind_apply (p : Effect σ ε α) (f : α → Effect σ ε β) (s : σ) :
    (p >>= f) s =
      match p s with
      | (.ok a, s') => f a s'
      | (.error e, s') => (.error e, s') := rfl

theorem bind_of_ok (h : p s = (.ok a, s')) : (p >>= f) s = f a s' := by
  rw [bind_apply, h]

theorem bind_of_error (h : p s = (.error e, s')) : (p >>= f) s = (.error e, s') := by
  rw [bind_apply, h]

theorem catching_of_ok (handler : ε → Effect σ ε α) (h : p s = (.ok a, s')) :
    catching p handler s = (.ok a, s') := by
  rw [catching, h]

theorem catching_of_error (handler : ε → Effect σ ε α) (h : p s = (.error e, s')) :
    catching p handler s = handler e s' := by
  rw [catching, h]

theorem withFinally_of_ok {last : Effect σ ε PUnit} {r : Except ε α} {u : PUnit} {s'' : σ}
    (h : p s = (r, s')) (hlast : last s' = (.ok u, s'')) :
    withFinally p last s = (r, s'') := by
  rw [withFinally, h, hlast]

theorem withFinally_of_error {last : Effect σ ε PUnit} {r : Except ε α} {s'' : σ}
    (h : p s = (r, s')) (hlast : last s' = (.error e, s'')) :
    withFinally p last s = (.error e, s'') := by
  rw [withFinally, h, hlast]

/-- The state is the one the last block leaves, however it ends. -/
theorem withFinally_state (last : Effect σ ε PUnit) {r : Except ε α} (h : p s = (r, s')) :
    (withFinally p last s).2 = (last s').2 := by
  rw [withFinally, h]
  cases last s' with
  | mk r' s'' =>
      cases r' with
      | ok u => rfl
      | error e => rfl

/-- An exception in flight may be replaced, but not swallowed. -/
theorem withFinally_raises (last : Effect σ ε PUnit) (h : p s = (.error e, s')) :
    ∃ e', (withFinally p last s).1 = .error e' := by
  rw [withFinally, h]
  cases last s' with
  | mk r' s'' =>
      cases r' with
      | ok u => exact ⟨e, rfl⟩
      | error e' => exact ⟨e', rfl⟩

end Effect
