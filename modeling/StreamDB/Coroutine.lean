import Mathlib.Data.List.Induction

/-!
# Cooperative threads over one shared state

A thread runs alone from one suspension point to the next, so everything between two `wait`s is
one atomic block. The scheduler picks which thread continues; it may let a bounded wait expire
and it may cancel a suspended thread. Programs are written in continuation-passing style with
`Proc`, and `Code` is what is left of a thread at its suspension point.
-/

namespace Coroutine

variable {ι σ ε : Type}

inductive Code (ι σ ε : Type) where
  | done
  | fail (exc : ε)
  | act (effect : σ → σ) (next : σ → Code ι σ ε)
  | wait (ready : σ → Bool) (rest : Code ι σ ε)
  | waitFor (ready : σ → Bool) (rest late : Code ι σ ε)
  | fork (name : ι) (child rest : Code ι σ ε)

namespace Code

/-- The atomic block that starts here: the state it ends in, the code left at the suspension
point, and the threads it created. -/
def block : Code ι σ ε → σ → σ × Code ι σ ε × List (ι × Code ι σ ε)
  | done, s => (s, done, [])
  | fail exc, s => (s, fail exc, [])
  | act effect next, s => block (next s) (effect s)
  | wait ready rest, s => (s, wait ready rest, [])
  | waitFor ready rest late, s => (s, waitFor ready rest late, [])
  | fork name child rest, s =>
      let r := block rest s
      (r.1, r.2.1, (name, child) :: r.2.2)

/-- The block a thread runs when it is picked; a thread that has ended or still waits has none. -/
def resume : Code ι σ ε → σ → Option (σ × Code ι σ ε × List (ι × Code ι σ ε))
  | done, _ => none
  | fail _, _ => none
  | wait ready rest, s => if ready s then some (block rest s) else none
  | waitFor ready rest _, s => if ready s then some (block rest s) else none
  | act effect next, s => some (block (act effect next) s)
  | fork name child rest, s => some (block (fork name child rest) s)

def expire : Code ι σ ε → σ → Option (σ × Code ι σ ε × List (ι × Code ι σ ε))
  | waitFor _ _ late, s => some (block late s)
  | _, _ => none

/-- The blocks of one thread, each started in a state the others have left: the states the blocks
end in, and what is left of the thread. -/
def blocks : Code ι σ ε → List σ → Option (List σ × Code ι σ ε)
  | code, [] => some ([], code)
  | code, s :: ss =>
      match code.resume s with
      | none => none
      | some (s', rest, _) => (blocks rest ss).map fun r => (s' :: r.1, r.2)

end Code

/-- A block of a thread, with the state the others have left it. -/
inductive Leg (σ : Type) where
  | resume (s : σ)
  | expire (s : σ)

namespace Leg

def start : Leg σ → σ
  | resume s => s
  | expire s => s

def block : Leg σ → Code ι σ ε → Option (σ × Code ι σ ε × List (ι × Code ι σ ε))
  | resume s, code => code.resume s
  | expire s, code => code.expire s

end Leg

/-- The blocks of one thread, waits that expire included: the states each starts and ends in, and
what is left of the thread. -/
def Code.legs : Code ι σ ε → List (Leg σ) → Option (List (σ × σ) × Code ι σ ε)
  | code, [] => some ([], code)
  | code, leg :: legs =>
      match leg.block code with
      | none => none
      | some (s, rest, _) => (Code.legs rest legs).map fun r => ((leg.start, s) :: r.1, r.2)

theorem Code.legs_cons {code rest : Code ι σ ε} {leg : Leg σ} {legs : List (Leg σ)}
    {blocks : List (σ × σ)} (h : code.legs (leg :: legs) = some (blocks, rest)) :
    ∃ s next forks later, leg.block code = some (s, next, forks) ∧
      next.legs legs = some (later, rest) ∧ blocks = (leg.start, s) :: later := by
  cases hb : leg.block code with
  | none => simp [Code.legs, hb] at h
  | some r =>
      obtain ⟨s, next, forks⟩ := r
      simp only [Code.legs, hb, Option.map_eq_some_iff] at h
      obtain ⟨later, hlater, heq⟩ := h
      cases heq
      exact ⟨s, next, forks, later.1, rfl, hlater, rfl⟩

/-- A thread that has ended has no more blocks. -/
theorem Code.legs_done {legs : List (Leg σ)} {blocks : List (σ × σ)} {rest : Code ι σ ε}
    (h : (Code.done : Code ι σ ε).legs legs = some (blocks, rest)) : blocks = [] := by
  cases legs with
  | nil =>
      cases h
      rfl
  | cons leg legs =>
      obtain ⟨_, _, _, _, hblock, _, _⟩ := Code.legs_cons h
      cases leg with
      | resume s => cases hblock
      | expire s => cases hblock

inductive Pick where
  | run (i : ℕ)
  | expire (i : ℕ)
  | cancel (i : ℕ)
  deriving DecidableEq, Repr

structure Config (ι σ ε : Type) where
  threads : List (ι × Code ι σ ε)
  state : σ

namespace Config

def pick (c : Config ι σ ε) (i : ℕ)
    (next : Code ι σ ε → σ → Option (σ × Code ι σ ε × List (ι × Code ι σ ε))) :
    Option (ι × Config ι σ ε) :=
  match c.threads[i]? with
  | none => none
  | some (name, code) =>
      match next code c.state with
      | none => none
      | some (s, rest, forks) => some (name, ⟨c.threads.set i (name, rest) ++ forks, s⟩)

/-- One decision of the scheduler, with the name of the thread it concerns. A cancelled thread
never runs again. -/
def step (c : Config ι σ ε) : Pick → Option (ι × Config ι σ ε)
  | .run i => c.pick i Code.resume
  | .expire i => c.pick i Code.expire
  | .cancel i => c.pick i fun _ s => some (s, .done, [])

/-- What a decision does to the thread it concerns, number `i`. -/
inductive Moves (i : ℕ) (code : Code ι σ ε) (s : σ) :
    Pick → σ → Code ι σ ε → List (ι × Code ι σ ε) → Prop
  | run {s' : σ} {rest : Code ι σ ε} {forks : List (ι × Code ι σ ε)}
      (block : code.resume s = some (s', rest, forks)) : Moves i code s (.run i) s' rest forks
  | expire {s' : σ} {rest : Code ι σ ε} {forks : List (ι × Code ι σ ε)}
      (block : code.expire s = some (s', rest, forks)) : Moves i code s (.expire i) s' rest forks
  | cancel : Moves i code s (.cancel i) s .done []

theorem pick_eq_some {c c' : Config ι σ ε} {i : ℕ} {name : ι}
    {next : Code ι σ ε → σ → Option (σ × Code ι σ ε × List (ι × Code ι σ ε))}
    (h : c.pick i next = some (name, c')) :
    ∃ code s rest forks, c.threads[i]? = some (name, code) ∧
      next code c.state = some (s, rest, forks) ∧
      c' = ⟨c.threads.set i (name, rest) ++ forks, s⟩ := by
  cases hi : c.threads[i]? with
  | none => simp [pick, hi] at h
  | some thread =>
      obtain ⟨name', code⟩ := thread
      cases hn : next code c.state with
      | none => simp [pick, hi, hn] at h
      | some r =>
          obtain ⟨s, rest, forks⟩ := r
          simp only [pick, hi, hn, Option.some.injEq, Prod.mk.injEq] at h
          obtain ⟨rfl, rfl⟩ := h
          exact ⟨code, s, rest, forks, rfl, hn, rfl⟩

/-- A step moves one thread and adds the threads it creates. -/
theorem step_moves {c c' : Config ι σ ε} {p : Pick} {name : ι} (h : c.step p = some (name, c')) :
    ∃ i code s rest forks, c.threads[i]? = some (name, code) ∧
      Moves i code c.state p s rest forks ∧
      c' = ⟨c.threads.set i (name, rest) ++ forks, s⟩ := by
  cases p with
  | run i =>
      obtain ⟨code, s, rest, forks, hi, hn, rfl⟩ := pick_eq_some h
      exact ⟨i, code, s, rest, forks, hi, .run hn, rfl⟩
  | expire i =>
      obtain ⟨code, s, rest, forks, hi, hn, rfl⟩ := pick_eq_some h
      exact ⟨i, code, s, rest, forks, hi, .expire hn, rfl⟩
  | cancel i =>
      change c.pick i (fun _ s => some (s, .done, [])) = some (name, c') at h
      obtain ⟨code, s, rest, forks, hi, hn, rfl⟩ := pick_eq_some h
      simp only [Option.some.injEq, Prod.mk.injEq] at hn
      obtain ⟨rfl, rfl, rfl⟩ := hn
      exact ⟨i, code, _, _, _, hi, .cancel, rfl⟩

theorem step_of_moves {c : Config ι σ ε} {p : Pick} {i : ℕ} {name : ι} {code rest : Code ι σ ε}
    {s : σ} {forks : List (ι × Code ι σ ε)} (hi : c.threads[i]? = some (name, code))
    (hm : Moves i code c.state p s rest forks) :
    c.step p = some (name, ⟨c.threads.set i (name, rest) ++ forks, s⟩) := by
  cases hm with
  | run block => simp only [step, pick, hi, block]
  | expire block => simp only [step, pick, hi, block]
  | cancel => simp only [step, pick, hi]

/-- Follow a schedule as long as its steps meet `ok`. -/
def exec (ok : ι → σ → Bool) (c : Config ι σ ε) : List Pick → Option (Config ι σ ε)
  | [] => some c
  | p :: ps =>
      match c.step p with
      | none => none
      | some (name, c') => if ok name c.state then exec ok c' ps else none

end Config

/-- Runs in which every step meets `allowed` for the thread that takes it and the state it
starts from. -/
inductive Reaches (allowed : ι → σ → Prop) (c₀ : Config ι σ ε) : Config ι σ ε → Prop
  | refl : Reaches allowed c₀ c₀
  | step {c c' : Config ι σ ε} {p : Pick} {name : ι} (run : Reaches allowed c₀ c)
      (next : c.step p = some (name, c')) (ok : allowed name c.state) : Reaches allowed c₀ c'

def anyStep : ι → σ → Prop := fun _ _ => True

theorem Reaches.mono {allowed allowed' : ι → σ → Prop} {c₀ c : Config ι σ ε}
    (h : Reaches allowed c₀ c) (hle : ∀ name s, allowed name s → allowed' name s) :
    Reaches allowed' c₀ c := by
  induction h with
  | refl => exact .refl
  | step _ next ok ih => exact .step ih next (hle _ _ ok)

theorem Reaches.trans {allowed : ι → σ → Prop} {c₀ c c' : Config ι σ ε}
    (h : Reaches allowed c₀ c) (h' : Reaches allowed c c') : Reaches allowed c₀ c' := by
  induction h' with
  | refl => exact h
  | step _ next ok ih => exact .step ih next ok

/-- A schedule that runs through is a run. -/
theorem reaches_of_exec {allowed : ι → σ → Prop} {ok : ι → σ → Bool}
    (hok : ∀ name s, ok name s → allowed name s) {c c' : Config ι σ ε} {ps : List Pick}
    (h : c.exec ok ps = some c') : Reaches allowed c c' := by
  induction ps generalizing c with
  | nil =>
      cases h
      exact .refl
  | cons p ps ih =>
      cases hs : c.step p with
      | none => simp [Config.exec, hs] at h
      | some r =>
          obtain ⟨name, d⟩ := r
          by_cases hp : ok name c.state
          · have hd : d.exec ok ps = some c' := by simpa [Config.exec, hs, hp] using h
            exact Reaches.trans (.step .refl hs (hok _ _ hp)) (ih hd)
          · simp [Config.exec, hs, hp] at h

/-- Where a schedule that runs through leads to. -/
def Config.after (c : Config ι σ ε) (ok : ι → σ → Bool) (ps : List Pick)
    (h : (c.exec ok ps).isSome) : Config ι σ ε :=
  (c.exec ok ps).get h

theorem reaches_after {allowed : ι → σ → Prop} {ok : ι → σ → Bool}
    (hok : ∀ name s, ok name s → allowed name s) (c : Config ι σ ε) (ps : List Pick)
    (h : (c.exec ok ps).isSome) : Reaches allowed c (c.after ok ps h) :=
  reaches_of_exec hok (Option.some_get h).symm

/-- Follow a schedule whatever its steps. -/
def Config.follow (c : Config ι σ ε) (ps : List Pick) : Option (Config ι σ ε) :=
  c.exec (fun _ _ => true) ps

theorem follow_after (c : Config ι σ ε) (ps : List Pick) (h : (c.follow ps).isSome) :
    c.follow ps = some (c.after (fun _ _ => true) ps h) :=
  (Option.some_get h).symm

theorem follow_nil (c : Config ι σ ε) : c.follow [] = some c := rfl

theorem follow_cons (c : Config ι σ ε) (p : Pick) (ps : List Pick) :
    c.follow (p :: ps) = (c.step p).bind fun r => r.2.follow ps := by
  cases hs : c.step p with
  | none => simp [Config.follow, Config.exec, hs]
  | some r => simp [Config.follow, Config.exec, hs]

theorem follow_append (c : Config ι σ ε) (ps qs : List Pick) :
    c.follow (ps ++ qs) = (c.follow ps).bind fun d => d.follow qs := by
  induction ps generalizing c with
  | nil => rfl
  | cons p ps ih =>
      rw [List.cons_append, follow_cons, follow_cons]
      cases c.step p with
      | none => rfl
      | some r => exact ih r.2

theorem follow_concat {c c' : Config ι σ ε} {ps : List Pick} {p : Pick} :
    c.follow (ps ++ [p]) = some c' ↔
      ∃ d name, c.follow ps = some d ∧ d.step p = some (name, c') := by
  rw [follow_append]
  cases hd : c.follow ps with
  | none => simp
  | some d =>
      simp only [Option.bind_some, Option.some.injEq, follow_cons, follow_nil]
      cases hs : d.step p with
      | none => simp [hs]
      | some r =>
          obtain ⟨name, e⟩ := r
          constructor
          · intro h
            exact ⟨d, name, rfl, by rw [hs, ← Option.some.inj h]⟩
          · rintro ⟨d', name', rfl, hs'⟩
            rw [hs] at hs'
            cases hs'
            rfl

/-- The states a schedule passes through, its end included. -/
def Config.Visits (c : Config ι σ ε) (ps : List Pick) (s : σ) : Prop :=
  ∃ qs d, qs <+: ps ∧ c.follow qs = some d ∧ d.state = s

theorem visits_end {c d : Config ι σ ε} {ps : List Pick} (h : c.follow ps = some d) :
    c.Visits ps d.state := ⟨ps, d, List.prefix_rfl, h, rfl⟩

theorem Config.Visits.mono {c : Config ι σ ε} {ps qs : List Pick} {s : σ} (h : c.Visits ps s)
    (hp : ps <+: qs) : c.Visits qs s := by
  obtain ⟨rs, d, hr, hd, hs⟩ := h
  exact ⟨rs, d, hr.trans hp, hd, hs⟩

/-- A schedule that runs through is a run whose steps start in states it passes through. -/
theorem reaches_visits {c d : Config ι σ ε} {ps : List Pick} (h : c.follow ps = some d) :
    Reaches (fun _ s => c.Visits ps s) c d := by
  induction ps using List.reverseRecOn generalizing d with
  | nil =>
      cases h
      exact .refl
  | append_singleton ps p ih =>
      obtain ⟨e, name, he, hstep⟩ := follow_concat.mp h
      have hmono := (ih he).mono fun _ s hs => Config.Visits.mono hs (List.prefix_append ps [p])
      exact .step hmono hstep ((visits_end he).mono (List.prefix_append ps [p]))

theorem reaches_of_follow {c d : Config ι σ ε} {ps : List Pick} (h : c.follow ps = some d) :
    Reaches anyStep c d :=
  (reaches_visits h).mono fun _ _ _ => trivial

/-- What the steps of a schedule add to a log, each entry with the thread that has added it. -/
def Config.signed {α : Type} (log : σ → List α) (c : Config ι σ ε) : List Pick → List (ι × α)
  | [] => []
  | p :: ps =>
      match c.step p with
      | none => []
      | some (name, c') =>
          ((log c'.state).drop (log c.state).length).map (Prod.mk name) ++ c'.signed log ps

theorem Config.signed_concat {α : Type} {log : σ → List α} {c d d' : Config ι σ ε}
    {ps : List Pick} {p : Pick} {name : ι} (h : c.follow ps = some d)
    (hs : d.step p = some (name, d')) :
    c.signed log (ps ++ [p]) =
      c.signed log ps ++ ((log d'.state).drop (log d.state).length).map (Prod.mk name) := by
  induction ps generalizing c with
  | nil =>
      cases h
      simp [signed, hs]
  | cons q ps ih =>
      rw [follow_cons, Option.bind_eq_some_iff] at h
      obtain ⟨⟨other, c'⟩, hstep, hrest⟩ := h
      rw [List.cons_append, signed, signed, hstep]
      dsimp only
      rw [ih hrest, List.append_assoc]

/-- A program that ends with a value of type `α`, in continuation-passing style. -/
def Proc (ι σ ε α : Type) : Type := (α → Code ι σ ε) → Code ι σ ε

namespace Proc

variable {α β : Type}

instance : Monad (Proc ι σ ε) where
  pure a := fun k => k a
  bind p f := fun k => p fun a => f a k

def code (p : Proc ι σ ε Unit) : Code ι σ ε := p fun _ => .done

def atomically (f : σ → α × σ) : Proc ι σ ε α :=
  fun k => .act (fun s => (f s).2) (fun s => k (f s).1)

def raise (exc : ε) : Proc ι σ ε α := fun _ => .fail exc

def suspend : Proc ι σ ε Unit := fun k => .wait (fun _ => true) (k ())

def awaiting (ready : σ → Bool) : Proc ι σ ε Unit := fun k => .wait ready (k ())

/-- Wait until `ready`, or until the wait expires: `true` when it did not expire. -/
def awaitingOr (ready : σ → Bool) : Proc ι σ ε Bool :=
  fun k => .waitFor ready (k true) (k false)

def spawn (name : ι) (child : Proc ι σ ε Unit) : Proc ι σ ε Unit :=
  fun k => .fork name child.code (k ())

/-- Take the items of a channel one after the other; item number `i` can be taken once
`ready i`. -/
def asyncFor (ready : ℕ → σ → Bool) (body : α → Proc ι σ ε Unit) : ℕ → List α → Proc ι σ ε Unit
  | _, [] => pure ()
  | i, item :: items => do
      awaiting (ready i)
      body item
      asyncFor ready body (i + 1) items

@[simp] theorem pure_apply (a : α) (k : α → Code ι σ ε) :
    (pure a : Proc ι σ ε α) k = k a := rfl

@[simp] theorem bind_apply (p : Proc ι σ ε α) (f : α → Proc ι σ ε β) (k : β → Code ι σ ε) :
    (p >>= f) k = p fun a => f a k := rfl

end Proc

end Coroutine
