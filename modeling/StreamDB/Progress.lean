import Mathlib.Logic.Hydra
import StreamDB.Coroutine

/-!
# Progress of cooperative threads

What is left of a thread after a block is a part of what was left before it, and so is every thread
the block has created. No schedule goes on forever, however many threads there are in the end.
Where the waits of all threads are granted, nothing is left to run only once all have ended.
-/

namespace Coroutine

variable {ι σ ε : Type}

/-! ## Parts of a program -/

namespace Code

/-- The first code stands directly inside the second. -/
inductive Part : Code ι σ ε → Code ι σ ε → Prop
  | next {effect : σ → σ} {next : σ → Code ι σ ε} (s : σ) : Part (next s) (.act effect next)
  | waited {ready : σ → Bool} {rest : Code ι σ ε} : Part rest (.wait ready rest)
  | inTime {ready : σ → Bool} {rest late : Code ι σ ε} : Part rest (.waitFor ready rest late)
  | late {ready : σ → Bool} {rest late : Code ι σ ε} : Part late (.waitFor ready rest late)
  | child {name : ι} {child rest : Code ι σ ε} : Part child (.fork name child rest)
  | forked {name : ι} {child rest : Code ι σ ε} : Part rest (.fork name child rest)

def Below : Code ι σ ε → Code ι σ ε → Prop := Relation.TransGen Part

theorem wellFounded_part : WellFounded (Part : Code ι σ ε → Code ι σ ε → Prop) := by
  constructor
  intro code
  induction code with
  | done => exact ⟨_, fun _ h => by cases h⟩
  | fail exc => exact ⟨_, fun _ h => by cases h⟩
  | act effect next ih =>
      constructor
      rintro _ ⟨s⟩
      exact ih s
  | wait ready rest ih =>
      constructor
      rintro _ ⟨⟩
      exact ih
  | waitFor ready rest late ih ihLate =>
      constructor
      intro _ h
      cases h with
      | inTime => exact ih
      | late => exact ihLate
  | fork name child rest ihChild ih =>
      constructor
      intro _ h
      cases h with
      | child => exact ihChild
      | forked => exact ih

theorem wellFounded_below : WellFounded (Below : Code ι σ ε → Code ι σ ε → Prop) :=
  wellFounded_part.transGen

/-- A block gets no further out, and the threads it creates stand inside. -/
theorem block_within (code : Code ι σ ε) (s : σ) :
    Relation.ReflTransGen Part (code.block s).2.1 code ∧
      ∀ fork ∈ (code.block s).2.2, Below fork.2 code := by
  induction code generalizing s with
  | done => exact ⟨.refl, List.forall_mem_nil _⟩
  | fail exc => exact ⟨.refl, List.forall_mem_nil _⟩
  | wait ready rest _ => exact ⟨.refl, List.forall_mem_nil _⟩
  | waitFor ready rest late _ _ => exact ⟨.refl, List.forall_mem_nil _⟩
  | act effect next ih =>
      obtain ⟨hrest, hforks⟩ := ih s (effect s)
      exact ⟨hrest.tail (.next s), fun fork hf => (hforks fork hf).tail (.next s)⟩
  | fork name child rest _ ih =>
      obtain ⟨hrest, hforks⟩ := ih s
      refine ⟨hrest.tail .forked, List.forall_mem_cons.mpr ⟨.single .child, ?_⟩⟩
      exact fun fork hf => (hforks fork hf).tail .forked

/-- All of a block that starts at a part of the code stands below it. -/
theorem block_below {inner code : Code ι σ ε} (h : Part inner code) {s s' : σ}
    {rest : Code ι σ ε} {forks : List (ι × Code ι σ ε)} (hb : inner.block s = (s', rest, forks)) :
    Below rest code ∧ ∀ fork ∈ forks, Below fork.2 code := by
  obtain ⟨hrest, hforks⟩ := block_within inner s
  rw [hb] at hrest hforks
  exact ⟨.tail' hrest h, fun fork hf => (hforks fork hf).tail h⟩

theorem resume_below {code : Code ι σ ε} {s s' : σ} {rest : Code ι σ ε}
    {forks : List (ι × Code ι σ ε)} (h : code.resume s = some (s', rest, forks)) :
    Below rest code ∧ ∀ fork ∈ forks, Below fork.2 code := by
  cases code with
  | done => cases h
  | fail exc => cases h
  | act effect next => exact block_below (.next s) (Option.some.inj h)
  | wait ready inner =>
      rw [resume] at h
      split_ifs at h
      exact block_below .waited (Option.some.inj h)
  | waitFor ready inner late =>
      rw [resume] at h
      split_ifs at h
      exact block_below .inTime (Option.some.inj h)
  | fork name child inner =>
      have hb := Option.some.inj h
      rw [block, Prod.mk.injEq, Prod.mk.injEq] at hb
      obtain ⟨rfl, rfl, rfl⟩ := hb
      obtain ⟨hrest, hforks⟩ := block_below (.forked : Part inner (fork name child inner)) rfl
      exact ⟨hrest, List.forall_mem_cons.mpr ⟨.single .child, hforks⟩⟩

theorem expire_below {code : Code ι σ ε} {s s' : σ} {rest : Code ι σ ε}
    {forks : List (ι × Code ι σ ε)} (h : code.expire s = some (s', rest, forks)) :
    Below rest code ∧ ∀ fork ∈ forks, Below fork.2 code := by
  cases code with
  | waitFor ready inner late => exact block_below .late (Option.some.inj h)
  | done => cases h
  | fail exc => cases h
  | act effect next => cases h
  | wait ready inner => cases h
  | fork name child inner => cases h

/-- A thread that has not been cancelled and has not run to its end. -/
def isLive : Code ι σ ε → Bool
  | done => false
  | _ => true

theorem eq_done_of_not_isLive {code : Code ι σ ε} (h : code.isLive = false) : code = done := by
  cases code with
  | done => rfl
  | fail exc => cases h
  | act effect next => cases h
  | wait ready rest => cases h
  | waitFor ready rest late => cases h
  | fork name child rest => cases h

/-- The thread has ended, by itself or with an exception. -/
def HasEnded : Code ι σ ε → Prop
  | done => True
  | fail _ => True
  | _ => False

instance : DecidablePred (HasEnded : Code ι σ ε → Prop)
  | done => isTrue trivial
  | fail _ => isTrue trivial
  | act _ _ => isFalse id
  | wait _ _ => isFalse id
  | waitFor _ _ _ => isFalse id
  | fork _ _ _ => isFalse id

end Code

/-! ## No schedule goes on forever -/

namespace Config

def live (threads : List (ι × Code ι σ ε)) : Multiset (Code ι σ ε) :=
  ((threads.map Prod.snd).filter Code.isLive : List (Code ι σ ε))

theorem live_append (threads forks : List (ι × Code ι σ ε)) :
    live (threads ++ forks) = live threads + live forks := by
  rw [live, List.map_append, List.filter_append]
  rfl

theorem live_singleton {name : ι} {code : Code ι σ ε} (h : code.isLive) :
    live [(name, code)] = {code} := by
  rw [live, List.map_singleton, List.filter_singleton, h]
  rfl

/-- One thread has moved. -/
theorem live_set {threads : List (ι × Code ι σ ε)} {i : ℕ} {thread : ι × Code ι σ ε}
    (moved : ι × Code ι σ ε) (h : threads[i]? = some thread) :
    live (threads.set i moved) + live [thread] = live threads + live [moved] := by
  induction threads generalizing i with
  | nil => cases h
  | cons head threads ih =>
      have hcons : ∀ (t : ι × Code ι σ ε) ts, live (t :: ts) = live [t] + live ts :=
        fun t ts => live_append [t] ts
      cases i with
      | zero =>
          cases h
          rw [List.set_cons_zero, hcons moved threads, hcons thread threads]
          rw [add_comm (live [moved]), add_right_comm, add_comm (live threads)]
      | succ i =>
          rw [List.set_cons_succ, hcons head, hcons head threads, add_assoc, add_assoc, ih h]

/-- The scheduler has done something that changes the configuration. -/
def Advances (c c' : Config ι σ ε) : Prop := ∃ p name, c.step p = some (name, c') ∧ c' ≠ c

def Shrinks (c' c : Config ι σ ε) : Prop :=
  Relation.CutExpand Code.Below (live c'.threads) (live c.threads)

theorem wellFounded_shrinks :
    WellFounded (Shrinks : Config ι σ ε → Config ι σ ε → Prop) :=
  InvImage.wf (fun c : Config ι σ ε => live c.threads) Code.wellFounded_below.cutExpand

theorem shrinks_of_below {c : Config ι σ ε} {i : ℕ} {name : ι} {code rest : Code ι σ ε} {s : σ}
    {forks : List (ι × Code ι σ ε)} (hthread : c.threads[i]? = some (name, code))
    (hlive : code.isLive) (hrest : rest.isLive → Code.Below rest code)
    (hforks : ∀ fork ∈ forks, Code.Below fork.2 code) :
    Shrinks ⟨c.threads.set i (name, rest) ++ forks, s⟩ c := by
  refine ⟨live ((name, rest) :: forks), code, ?_, ?_⟩
  · intro other hother
    rw [live, Multiset.mem_coe, List.mem_filter, List.map_cons, List.mem_cons] at hother
    rcases hother with ⟨rfl | hother, hl⟩
    · exact hrest hl
    · obtain ⟨fork, hf, rfl⟩ := List.mem_map.mp hother
      exact hforks fork hf
  · have hset := live_set (name, rest) hthread
    rw [live_singleton hlive] at hset
    calc live (c.threads.set i (name, rest) ++ forks) + {code}
        = live (c.threads.set i (name, rest)) + {code} + live forks := by
          rw [live_append, add_right_comm]
      _ = live c.threads + live ((name, rest) :: forks) := by
          rw [hset, add_assoc, ← live_append, List.singleton_append]

theorem shrinks_of_run {c c' : Config ι σ ε} {i : ℕ} {name : ι}
    (h : c.step (.run i) = some (name, c')) : Shrinks c' c := by
  obtain ⟨code, s, rest, forks, hthread, hresume, rfl⟩ := pick_eq_some h
  obtain ⟨hrest, hforks⟩ := Code.resume_below hresume
  have hlive : code.isLive := by
    cases code with
    | done => cases hresume
    | _ => rfl
  exact shrinks_of_below hthread hlive (fun _ => hrest) hforks

theorem shrinks_of_expire {c c' : Config ι σ ε} {i : ℕ} {name : ι}
    (h : c.step (.expire i) = some (name, c')) : Shrinks c' c := by
  obtain ⟨code, s, rest, forks, hthread, hexpire, rfl⟩ := pick_eq_some h
  obtain ⟨hrest, hforks⟩ := Code.expire_below hexpire
  have hlive : code.isLive := by
    cases code with
    | done => cases hexpire
    | _ => rfl
  exact shrinks_of_below hthread hlive (fun _ => hrest) hforks

/-- Only the cancellation of a thread that has run to its end changes nothing. -/
theorem shrinks_of_advances {c c' : Config ι σ ε} (h : c.Advances c') : Shrinks c' c := by
  obtain ⟨p, name, hstep, hne⟩ := h
  cases p with
  | run i => exact shrinks_of_run hstep
  | expire i => exact shrinks_of_expire hstep
  | cancel i =>
      change c.pick i (fun _ s => some (s, .done, [])) = some (name, c') at hstep
      obtain ⟨code, s, rest, forks, hthread, hnext, rfl⟩ := pick_eq_some hstep
      simp only [Option.some.injEq, Prod.mk.injEq] at hnext
      obtain ⟨rfl, rfl, rfl⟩ := hnext
      cases hlive : code.isLive with
      | true => exact shrinks_of_below hthread hlive (fun h => nomatch h) (List.forall_mem_nil _)
      | false =>
          rw [Code.eq_done_of_not_isLive hlive] at hthread
          refine absurd ?_ hne
          obtain ⟨hi, hget⟩ := List.getElem?_eq_some_iff.mp hthread
          rw [List.append_nil, ← hget, List.set_getElem_self]

theorem no_endless_run (run : ℕ → Config ι σ ε) : ¬ ∀ n, (run n).Advances (run (n + 1)) := by
  intro h
  have hwf := wellFounded_iff_isEmpty_descending_chain.mp
    (wellFounded_shrinks (ι := ι) (σ := σ) (ε := ε))
  exact hwf.false ⟨run, fun n => shrinks_of_advances (h n)⟩

/-! ## Nothing is left to run -/

/-- No thread can go on by itself. -/
def Rests (c : Config ι σ ε) : Prop :=
  ∀ i, c.step (.run i) = none ∧ c.step (.expire i) = none

/-- Threads that go on by themselves come to rest. -/
theorem exists_rests (c : Config ι σ ε) :
    ∃ ps c', (∀ i, .cancel i ∉ ps) ∧ c.follow ps = some c' ∧ c'.Rests := by
  induction c using wellFounded_shrinks.induction with
  | _ c ih =>
      have hnext : ∀ {p : Pick} {name : ι} {d : Config ι σ ε}, c.step p = some (name, d) →
          (∀ i, p ≠ .cancel i) → Shrinks d c →
          ∃ ps c', (∀ i, .cancel i ∉ ps) ∧ c.follow ps = some c' ∧ c'.Rests := by
        intro p name d hstep hp hshrinks
        obtain ⟨ps, c', hps, hfollow, hrests⟩ := ih d hshrinks
        refine ⟨p :: ps, c', ?_, ?_, hrests⟩
        · intro i hi
          rcases List.mem_cons.mp hi with rfl | hi
          · exact hp i rfl
          · exact hps i hi
        · rw [follow_cons, hstep]
          exact hfollow
      by_cases hrests : c.Rests
      · exact ⟨[], c, fun _ => List.not_mem_nil, rfl, hrests⟩
      · obtain ⟨i, hi⟩ := not_forall.mp hrests
        rcases not_and_or.mp hi with hi | hi
        · obtain ⟨⟨name, d⟩, hstep⟩ := Option.ne_none_iff_exists'.mp hi
          exact hnext hstep (fun _ h => nomatch h) (shrinks_of_run hstep)
        · obtain ⟨⟨name, d⟩, hstep⟩ := Option.ne_none_iff_exists'.mp hi
          exact hnext hstep (fun _ h => nomatch h) (shrinks_of_expire hstep)

end Config

/-! ## What the threads may do and wait for -/

section Uses

variable {α β : Type} {E : (σ → σ) → Prop} {W : (σ → Bool) → Prop}

/-- Every effect in the code is an `E`, and it waits for `W`s only, bounded waits apart. -/
def Code.Uses (E : (σ → σ) → Prop) (W : (σ → Bool) → Prop) : Code ι σ ε → Prop
  | .done => True
  | .fail _ => True
  | .act effect next => E effect ∧ ∀ s, Uses E W (next s)
  | .wait ready rest => W ready ∧ Uses E W rest
  | .waitFor _ rest late => Uses E W rest ∧ Uses E W late
  | .fork _ child rest => Uses E W child ∧ Uses E W rest

theorem Code.Uses.part {inner code : Code ι σ ε} (h : code.Uses E W) (hp : Part inner code) :
    inner.Uses E W := by
  cases hp with
  | next s => exact h.2 s
  | waited => exact h.2
  | inTime => exact h.1
  | late => exact h.2
  | child => exact h.1
  | forked => exact h.2

theorem Code.Uses.below {inner code : Code ι σ ε} (h : code.Uses E W) (hb : Below inner code) :
    inner.Uses E W := by
  induction hb using Relation.TransGen.head_induction_on with
  | single hp => exact h.part hp
  | head hp _ ih => exact ih.part hp

/-- The effects keep to a preorder of the states. -/
structure Confined (E : (σ → σ) → Prop) (R : σ → σ → Prop) : Prop where
  refl : ∀ s, R s s
  trans : ∀ {s s' s''}, R s s' → R s' s'' → R s s''
  effect : ∀ {effect}, E effect → ∀ s, R s (effect s)

variable {R : σ → σ → Prop}

theorem Code.Uses.block (hR : Confined E R) {code : Code ι σ ε} (h : code.Uses E W) (s : σ) :
    R s (code.block s).1 := by
  induction code generalizing s with
  | done => exact hR.refl s
  | fail exc => exact hR.refl s
  | wait ready rest _ => exact hR.refl s
  | waitFor ready rest late _ _ => exact hR.refl s
  | act effect next ih => exact hR.trans (hR.effect h.1 s) (ih s (h.2 s) (effect s))
  | fork name child rest _ ih => exact ih h.2 s

theorem Code.Uses.resume (hR : Confined E R) {code rest : Code ι σ ε} (h : code.Uses E W)
    {s s' : σ} {forks : List (ι × Code ι σ ε)} (hb : code.resume s = some (s', rest, forks)) :
    R s s' := by
  have hblock : ∀ {inner : Code ι σ ε}, inner.Uses E W → inner.block s = (s', rest, forks) →
      R s s' := by
    intro inner hinner he
    have hr := hinner.block hR s
    rwa [he] at hr
  cases code with
  | done => cases hb
  | fail exc => cases hb
  | act effect next => exact hblock h (Option.some.inj hb)
  | wait ready inner =>
      rw [Code.resume] at hb
      split_ifs at hb
      exact hblock h.2 (Option.some.inj hb)
  | waitFor ready inner late =>
      rw [Code.resume] at hb
      split_ifs at hb
      exact hblock h.1 (Option.some.inj hb)
  | fork name child inner => exact hblock h (Option.some.inj hb)

theorem Code.Uses.expire (hR : Confined E R) {code rest : Code ι σ ε} (h : code.Uses E W)
    {s s' : σ} {forks : List (ι × Code ι σ ε)} (hb : code.expire s = some (s', rest, forks)) :
    R s s' := by
  cases code with
  | waitFor ready inner late =>
      have hr := h.2.block hR s
      rw [Option.some.inj hb] at hr
      exact hr
  | done => cases hb
  | fail exc => cases hb
  | act effect next => cases hb
  | wait ready inner => cases hb
  | fork name child inner => cases hb

theorem Code.Uses.moves (hR : Confined E R) {code rest : Code ι σ ε} (h : code.Uses E W) {i : ℕ}
    {p : Pick} {s s' : σ} {forks : List (ι × Code ι σ ε)}
    (hm : Config.Moves i code s p s' rest forks) :
    R s s' ∧ rest.Uses E W ∧ ∀ fork ∈ forks, fork.2.Uses E W := by
  cases hm with
  | run block =>
      obtain ⟨hrest, hforks⟩ := Code.resume_below block
      exact ⟨h.resume hR block, h.below hrest, fun fork hf => h.below (hforks fork hf)⟩
  | expire block =>
      obtain ⟨hrest, hforks⟩ := Code.expire_below block
      exact ⟨h.expire hR block, h.below hrest, fun fork hf => h.below (hforks fork hf)⟩
  | cancel => exact ⟨hR.refl s, trivial, List.forall_mem_nil _⟩

def Config.Uses (E : (σ → σ) → Prop) (W : (σ → Bool) → Prop) (c : Config ι σ ε) : Prop :=
  ∀ thread ∈ c.threads, thread.2.Uses E W

theorem Config.Uses.step (hR : Confined E R) {c c' : Config ι σ ε} (h : c.Uses E W) {p : Pick}
    {name : ι} (hs : c.step p = some (name, c')) : R c.state c'.state ∧ c'.Uses E W := by
  obtain ⟨i, code, s, rest, forks, hthread, hm, rfl⟩ := Config.step_moves hs
  obtain ⟨hrel, hrest, hforks⟩ := (h _ (List.mem_of_getElem? hthread)).moves hR hm
  refine ⟨hrel, ?_⟩
  intro thread ht
  rcases List.mem_append.mp ht with ht | ht
  · rcases List.mem_or_eq_of_mem_set ht with ht | rfl
    · exact h thread ht
    · exact hrest
  · exact hforks thread ht

theorem Config.Uses.follow (hR : Confined E R) {c c' : Config ι σ ε} (h : c.Uses E W)
    {ps : List Pick} (hs : c.follow ps = some c') : R c.state c'.state ∧ c'.Uses E W := by
  induction ps using List.reverseRecOn generalizing c' with
  | nil =>
      cases hs
      exact ⟨hR.refl _, h⟩
  | append_singleton ps p ih =>
      obtain ⟨d, name, hd, hstep⟩ := follow_concat.mp hs
      obtain ⟨hrel, hd⟩ := ih hd
      obtain ⟨hrel', hc'⟩ := hd.step hR hstep
      exact ⟨hR.trans hrel hrel', hc'⟩

/-- Where all waits are granted, threads that cannot go on have ended. -/
theorem Config.Uses.ended {c : Config ι σ ε} (h : c.Uses E W) (hW : ∀ ready, W ready →
    ready c.state) (hrests : c.Rests) {thread : ι × Code ι σ ε} (ht : thread ∈ c.threads) :
    thread.2.HasEnded := by
  obtain ⟨name, code⟩ := thread
  obtain ⟨i, hi⟩ := List.mem_iff_getElem?.mp ht
  obtain ⟨hrun, hexpire⟩ := hrests i
  cases code with
  | done => trivial
  | fail exc => trivial
  | act effect next => simp [Config.step, Config.pick, hi, Code.resume] at hrun
  | wait ready rest =>
      have hready := hW ready (h _ ht).1
      simp [Config.step, Config.pick, hi, Code.resume, hready] at hrun
  | waitFor ready rest late => simp [Config.step, Config.pick, hi, Code.expire] at hexpire
  | fork name child rest => simp [Config.step, Config.pick, hi, Code.resume] at hrun

/-! ### Programs -/

namespace Proc

/-- The program adds nothing else to its continuation. -/
def Uses (E : (σ → σ) → Prop) (W : (σ → Bool) → Prop) (p : Proc ι σ ε α) : Prop :=
  ∀ k, (∀ a, (k a).Uses E W) → (p k).Uses E W

theorem Uses.code {p : Proc ι σ ε Unit} (h : p.Uses E W) : p.code.Uses E W :=
  h _ fun _ => trivial

theorem uses_pure (a : α) : (pure a : Proc ι σ ε α).Uses E W := fun _ hk => hk a

theorem uses_bind {p : Proc ι σ ε α} {f : α → Proc ι σ ε β} (hp : p.Uses E W)
    (hf : ∀ a, (f a).Uses E W) : (p >>= f).Uses E W :=
  fun k hk => hp _ fun a => hf a k hk

theorem uses_ite {c : Prop} [Decidable c] {p q : Proc ι σ ε α} (hp : p.Uses E W)
    (hq : q.Uses E W) : (if c then p else q).Uses E W := by
  split_ifs
  · exact hp
  · exact hq

theorem uses_atomically {f : σ → α × σ} (hf : E fun s => (f s).2) :
    (atomically f : Proc ι σ ε α).Uses E W :=
  fun _ hk => ⟨hf, fun s => hk (f s).1⟩

theorem uses_raise (exc : ε) : (raise exc : Proc ι σ ε α).Uses E W := fun _ _ => trivial

theorem uses_awaiting {ready : σ → Bool} (h : W ready) :
    (awaiting ready : Proc ι σ ε Unit).Uses E W :=
  fun _ hk => ⟨h, hk ()⟩

theorem uses_awaitingOr (ready : σ → Bool) : (awaitingOr ready : Proc ι σ ε Bool).Uses E W :=
  fun _ hk => ⟨hk true, hk false⟩

theorem uses_spawn {name : ι} {child : Proc ι σ ε Unit} (h : child.Uses E W) :
    (spawn name child : Proc ι σ ε Unit).Uses E W :=
  fun _ hk => ⟨h.code, hk ()⟩

end Proc

end Uses

end Coroutine
