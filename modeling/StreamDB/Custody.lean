import StreamDB.Ownership
import StreamDB.Progress

/-!
# An owner that is yet to be created

The owner of a part may be created only in the course of a run, by a thread that was created
itself. Until then one thread at a time has the part in custody: it keeps to the protocol of the
others, and it creates the owner or hands the custody on to a thread it creates. `Fosters` follows
the code of such a thread, `HandsOver` does so for a program, and `inCustody_of_follow` is the rule
for whole runs.
-/

namespace Coroutine

variable {ι σ ε π : Type}

variable (O : Ownership ι σ ε π) (v₀ : π)

/-- The rest of the block that thread `name` started in `s₀` and has brought to `s`, and its later
blocks, keep to the protocol and create a thread that takes over. -/
def Fosters : Code ι σ ε → ι → σ → σ → Prop
  | .done, _, _, _ => False
  | .fail _, _, _, _ => False
  | .act effect next, name, s₀, s => Fosters (next s) name s₀ (effect s)
  | .wait ready rest, name, s₀, s => (O.env.inv s ∧ O.env.guarantee name s₀ s) ∧
      ∀ s', O.env.inv s' → ready s' → Fosters rest name s' s'
  | .waitFor ready rest late, name, s₀, s => (O.env.inv s ∧ O.env.guarantee name s₀ s) ∧
      ∀ s', O.env.inv s' → (ready s' → Fosters rest name s' s') ∧ Fosters late name s' s'
  | .fork child code rest, name, s₀, s =>
      (∀ s', Stable O.env (child, code) s') ∧ Fosters rest name s₀ s ∨
      ((O.owner child ∧ ∀ s', O.part s' = v₀ → Owned O code s') ∨
          ∀ s', O.env.inv s' → Fosters code child s' s') ∧ Safe O.env rest name s₀ s

/-- A thread that is the owner, or has the part in custody. -/
def Custodian (thread : ι × Code ι σ ε) : Prop :=
  (O.owner thread.1 ∧ ∀ s, O.part s = v₀ → Owned O thread.2 s) ∨
    ∀ s, O.env.inv s → Fosters O v₀ thread.2 thread.1 s s

/-- A block of the thread has brought the state to `s`. The thread goes on with the custody, or one
of the threads it has created takes over. -/
inductive Passes (name : ι) (s : σ) (rest : Code ι σ ε) (forks : List (ι × Code ι σ ε)) : Prop
  | keeps (fosters : ∀ s', O.env.inv s' → Fosters O v₀ rest name s' s')
      (others : ∀ thread ∈ forks, Stable O.env thread s)
  | hands (before : List (ι × Code ι σ ε)) (thread : ι × Code ι σ ε)
      (after : List (ι × Code ι σ ε)) (split : forks = before ++ thread :: after)
      (custodian : Custodian O v₀ thread)
      (others : ∀ other ∈ before ++ after, Stable O.env other s)
      (stable : Stable O.env (name, rest) s)

variable {O v₀} {name : ι}

theorem Fosters.block {code : Code ι σ ε} {s₀ s : σ} (h : Fosters O v₀ code name s₀ s) :
    (O.env.inv (code.block s).1 ∧ O.env.guarantee name s₀ (code.block s).1) ∧
      Passes O v₀ name (code.block s).1 (code.block s).2.1 (code.block s).2.2 := by
  induction code generalizing s with
  | done => exact h.elim
  | fail exc => exact h.elim
  | act effect next ih => exact ih s h
  | wait ready rest _ =>
      refine ⟨h.1, .keeps ?_ (List.forall_mem_nil _)⟩
      exact fun s' hi => ⟨⟨hi, O.env.guarantee_refl _ _⟩, h.2⟩
  | waitFor ready rest late _ _ =>
      refine ⟨h.1, .keeps ?_ (List.forall_mem_nil _)⟩
      exact fun s' hi => ⟨⟨hi, O.env.guarantee_refl _ _⟩, h.2⟩
  | fork child code rest _ ih =>
      rcases h with ⟨hchild, hrest⟩ | ⟨hcustodian, hrest⟩
      · obtain ⟨hg, hpasses⟩ := ih hrest
        refine ⟨hg, ?_⟩
        cases hpasses with
        | keeps fosters others =>
            exact .keeps fosters (List.forall_mem_cons.mpr ⟨hchild _, others⟩)
        | hands before thread after split custodian others stable =>
            refine .hands ((child, code) :: before) thread after ?_ custodian ?_ stable
            · exact congrArg ((child, code) :: ·) split
            · exact List.forall_mem_cons.mpr ⟨hchild _, others⟩
      · obtain ⟨hg, hstable, hforks⟩ := hrest.block
        exact ⟨hg, .hands [] (child, code) _ rfl hcustodian hforks hstable⟩

theorem fosters_resume {code rest : Code ι σ ε} {s s' : σ} {forks : List (ι × Code ι σ ε)}
    (h : ∀ s, O.env.inv s → Fosters O v₀ code name s s) (hi : O.env.inv s)
    (hb : code.resume s = some (s', rest, forks)) :
    (O.env.inv s' ∧ O.env.guarantee name s s') ∧ Passes O v₀ name s' rest forks := by
  have hs := h s hi
  cases code with
  | done => cases hb
  | fail exc => cases hb
  | act effect next =>
      have hblock := hs.block
      rw [Option.some.inj hb] at hblock
      exact hblock
  | wait ready code =>
      rw [Code.resume] at hb
      split_ifs at hb with hready
      have hblock := (hs.2 s hi hready).block
      rw [Option.some.inj hb] at hblock
      exact hblock
  | waitFor ready code late =>
      rw [Code.resume] at hb
      split_ifs at hb with hready
      have hblock := ((hs.2 s hi).1 hready).block
      rw [Option.some.inj hb] at hblock
      exact hblock
  | fork child code rest' =>
      have hblock := hs.block
      rw [Option.some.inj hb] at hblock
      exact hblock

theorem fosters_expire {code rest : Code ι σ ε} {s s' : σ} {forks : List (ι × Code ι σ ε)}
    (h : ∀ s, O.env.inv s → Fosters O v₀ code name s s) (hi : O.env.inv s)
    (hb : code.expire s = some (s', rest, forks)) :
    (O.env.inv s' ∧ O.env.guarantee name s s') ∧ Passes O v₀ name s' rest forks := by
  cases code with
  | waitFor ready code late =>
      have hblock := ((h s hi).2 s hi).2.block
      rw [Option.some.inj hb] at hblock
      exact hblock
  | done => cases hb
  | fail exc => cases hb
  | act effect next => cases hb
  | wait ready code => cases hb
  | fork child code rest' => cases hb

/-! ## Whole runs -/

variable (O v₀) in
/-- One thread has the part in custody, cancelled by now if `cancelled`, or is the owner that has
been created; the others keep to the protocol. -/
inductive InCustody (cancelled : Prop) (c : Config ι σ ε) : Prop
  | ahead {i : ℕ} {name : ι} {code : Code ι σ ε} (inv : O.env.inv c.state)
      (part : O.part c.state = v₀)
      (others : ∀ j thread, j ≠ i → c.threads[j]? = some thread → Stable O.env thread c.state)
      (thread : c.threads[i]? = some (name, code))
      (fosters : cancelled ∧ code = .done ∨
        ∀ s, O.env.inv s → Fosters O v₀ code name s s)
  | created {i : ℕ} {owner : ι} (named : O.owner owner) (owned : OwnedBy O i owner cancelled c)

theorem OwnedBy.mono {c : Config ι σ ε} {i : ℕ} {owner : ι} {cancelled cancelled' : Prop}
    (h : OwnedBy O i owner cancelled c) (hc : cancelled → cancelled') :
    OwnedBy O i owner cancelled' c := by
  obtain ⟨code, hthread, howned⟩ := h.owner
  exact ⟨h.rests, h.others, code, hthread, howned.imp_left fun hdone => ⟨hc hdone.1, hdone.2⟩⟩

theorem mem_of_getElem?_split {α : Type} {before after : List α} {a b : α} {j : ℕ}
    (hj : j ≠ before.length) (h : (before ++ a :: after)[j]? = some b) : b ∈ before ++ after := by
  rw [List.getElem?_append] at h
  split_ifs at h with hlt
  · exact List.mem_append_left _ (List.mem_of_getElem? h)
  · obtain ⟨k, hk⟩ : ∃ k, j - before.length = k + 1 := ⟨j - before.length - 1, by omega⟩
    rw [hk, List.getElem?_cons_succ] at h
    exact List.mem_append_right _ (List.mem_of_getElem? h)

/-- Among threads that keep to the protocol, one is the owner or has the part in custody. -/
theorem inCustody_of_custodian {c : Config ι σ ε} {before after : List (ι × Code ι σ ε)}
    {thread : ι × Code ι σ ε} (cancelled : Prop) (hmid : O.mid v₀) (hinv : O.env.inv c.state)
    (hpart : O.part c.state = v₀) (hsplit : c.threads = before ++ thread :: after)
    (hcustodian : Custodian O v₀ thread)
    (hothers : ∀ other ∈ before ++ after, Stable O.env other c.state) :
    InCustody O v₀ cancelled c := by
  have hthread : c.threads[before.length]? = some thread := by
    rw [hsplit, List.getElem?_append_right le_rfl, Nat.sub_self, List.getElem?_cons_zero]
  have hstable : ∀ j other, j ≠ before.length → c.threads[j]? = some other →
      Stable O.env other c.state := by
    intro j other hj hother
    rw [hsplit] at hother
    exact hothers other (mem_of_getElem?_split hj hother)
  rcases hcustodian with ⟨hnamed, howned⟩ | hfosters
  · refine .created hnamed
      ⟨⟨hinv, by rw [hpart]; exact hmid⟩, hstable, thread.2, hthread, .inr ?_⟩
    exact howned _ hpart
  · exact .ahead hinv hpart hstable hthread (.inr hfosters)

theorem getElem?_moved {threads forks : List (ι × Code ι σ ε)} {i : ℕ}
    {moved thread : ι × Code ι σ ε} (h : threads[i]? = some thread) :
    (threads.set i moved ++ forks)[i]? = some moved := by
  have hlt : i < threads.length := (List.getElem?_eq_some_iff.mp h).1
  rw [List.getElem?_append_left (by simpa using hlt)]
  exact List.getElem?_set_self hlt

/-- The others, after one thread has moved. -/
theorem others_after {Q : ι × Code ι σ ε → Prop} {threads forks : List (ι × Code ι σ ε)} {i : ℕ}
    {moved : ι × Code ι σ ε}
    (hothers : ∀ j thread, j ≠ i → threads[j]? = some thread → Q thread)
    (hforks : ∀ thread ∈ forks, Q thread) :
    ∀ j thread, j ≠ i → (threads.set i moved ++ forks)[j]? = some thread → Q thread := by
  intro j thread hj h
  rcases thread_after h with ⟨hji, _⟩ | ⟨_, hold⟩ | hnew
  · exact absurd hji hj
  · exact hothers j thread hj hold
  · exact hforks thread hnew

/-- The thread with the custody has run a block. -/
theorem inCustody_of_passes {c : Config ι σ ε} {i : ℕ} {name : ι} {code rest : Code ι σ ε} {s : σ}
    {forks : List (ι × Code ι σ ε)} (cancelled : Prop) (hmid : O.mid v₀) (hpart : O.part s = v₀)
    (hinv : O.env.inv s) (hthread : c.threads[i]? = some (name, code))
    (hothers : ∀ j thread, j ≠ i → c.threads[j]? = some thread → Stable O.env thread s)
    (h : Passes O v₀ name s rest forks) :
    InCustody O v₀ cancelled ⟨c.threads.set i (name, rest) ++ forks, s⟩ := by
  cases h with
  | keeps fosters others =>
      exact .ahead hinv hpart (others_after hothers others) (getElem?_moved hthread) (.inr fosters)
  | hands before thread after split custodian others stable =>
      refine inCustody_of_custodian cancelled hmid hinv hpart
        (by rw [split, ← List.append_assoc]) custodian ?_
      intro other hother
      rw [List.append_assoc] at hother
      obtain ⟨k, hk⟩ := List.mem_iff_getElem?.mp hother
      rcases thread_after hk with ⟨_, rfl⟩ | ⟨hki, hold⟩ | hnew
      · exact stable
      · exact hothers k other hki hold
      · exact others other hnew

theorem InCustody.step {cancelled : Prop} {c c' : Config ι σ ε} {p : Pick} {name : ι}
    (hmid : O.mid v₀) (h : InCustody O v₀ cancelled c)
    (hexpired : ∀ i name code, p = .expire i → c.threads[i]? = some (name, code) → O.owner name →
      O.expired)
    (hs : c.step p = some (name, c')) : InCustody O v₀ (cancelled ∨ ∃ i, p = .cancel i) c' := by
  cases h with
  | created named owned =>
      obtain ⟨code, hthread, _⟩ := owned.owner
      have hstep := owned.step (fun hp => hexpired _ _ _ hp hthread named) hs
      exact .created named (hstep.mono fun hc => hc.imp_right fun hp => ⟨_, hp⟩)
  | @ahead i foster code inv part others thread fosters =>
      obtain ⟨j, now, s, rest, forks, hthread, hm, rfl⟩ := Config.step_moves hs
      by_cases hj : j = i
      · subst hj
        rw [thread, Option.some.injEq, Prod.mk.injEq] at hthread
        obtain ⟨rfl, rfl⟩ := hthread
        have hran : (O.env.inv s ∧ O.env.guarantee foster c.state s) ∧
              Passes O v₀ foster s rest forks →
            InCustody O v₀ (cancelled ∨ ∃ i, p = .cancel i)
              ⟨c.threads.set j (foster, rest) ++ forks, s⟩ := by
          rintro ⟨hg, hpasses⟩
          have hpart := (O.others _ _ _ hg.2).trans part
          refine inCustody_of_passes _ hmid hpart hg.1 thread ?_ hpasses
          exact fun k other hk hother => (others k other hk hother).of_rely (O.anyhow _ _)
        cases hm with
        | run block =>
            rcases fosters with ⟨_, rfl⟩ | fosters
            · cases block
            · exact hran (fosters_resume fosters inv block)
        | expire block =>
            rcases fosters with ⟨_, rfl⟩ | fosters
            · cases block
            · exact hran (fosters_expire fosters inv block)
        | cancel =>
            exact .ahead inv part (others_after others (List.forall_mem_nil _))
              (getElem?_moved thread) (.inl ⟨.inr ⟨j, rfl⟩, rfl⟩)
      · obtain ⟨hg, hrest, hforks⟩ := (others j _ hj hthread).moves inv (O.anytime _ _) hm
        have hpart := (O.others _ _ _ hg.2).trans part
        have hlt : i < c.threads.length := (List.getElem?_eq_some_iff.mp thread).1
        refine .ahead (i := i) hg.1 hpart ?_ ?_ (fosters.imp_left fun hc => ⟨.inl hc.1, hc.2⟩)
        · intro k other hk hother
          rcases thread_after hother with ⟨_, rfl⟩ | ⟨_, hold⟩ | hnew
          · exact hrest
          · exact (others k other hk hold).of_rely (O.anyhow _ _)
          · exact hforks other hnew
        · rw [List.getElem?_append_left (by simpa using hlt), List.getElem?_set_ne hj]
          exact thread

theorem named_of_step {c c' : Config ι σ ε} {p : Pick} {mover name : ι} {i : ℕ}
    {code : Code ι σ ε} (h : c.step p = some (mover, c')) (hi : c.threads[i]? = some (name, code)) :
    ∃ code', c'.threads[i]? = some (name, code') := by
  obtain ⟨j, now, s, rest, forks, hj, _, rfl⟩ := Config.step_moves h
  have hlt : i < c.threads.length := (List.getElem?_eq_some_iff.mp hi).1
  by_cases hij : j = i
  · subst hij
    rw [hi, Option.some.injEq, Prod.mk.injEq] at hj
    obtain ⟨rfl, rfl⟩ := hj
    exact ⟨rest, getElem?_moved hi⟩
  · refine ⟨code, ?_⟩
    rw [List.getElem?_append_left (by simpa using hlt), List.getElem?_set_ne hij]
    exact hi

/-- After any schedule the part is as the owner has left it, if the owner is there by then. -/
theorem inCustody_of_follow {c₀ c : Config ι σ ε} {ps : List Pick} (hmid : O.mid v₀)
    (h₀ : InCustody O v₀ False c₀)
    (hexpired : ∀ i name code, .expire i ∈ ps → c.threads[i]? = some (name, code) →
      O.owner name → O.expired)
    (h : c₀.follow ps = some c) :
    InCustody O v₀ (∃ i, .cancel i ∈ ps) c := by
  induction ps using List.reverseRecOn generalizing c with
  | nil =>
      cases h
      cases h₀ with
      | created named owned => exact .created named (owned.mono False.elim)
      | ahead inv part others thread fosters =>
          exact .ahead inv part others thread (fosters.imp_left fun hc => hc.1.elim)
  | append_singleton ps p ih =>
      obtain ⟨d, name, hd, hstep⟩ := follow_concat.mp h
      have hlater : ∀ i name code, d.threads[i]? = some (name, code) → .expire i ∈ ps ++ [p] →
          O.owner name → O.expired := by
        intro i name code hthread hp
        obtain ⟨code', hthread'⟩ := named_of_step hstep hthread
        exact hexpired i name code' hp hthread'
      have hbefore := ih
        (fun i name code hp hthread => hlater i name code hthread (List.mem_append_left _ hp)) hd
      have hd' := hbefore.step hmid (fun i name code hp hthread => hlater i name code hthread
        (List.mem_append_right _ (hp ▸ List.mem_cons_self))) hstep
      have hcancel : ((∃ i, .cancel i ∈ ps) ∨ ∃ i, p = .cancel i) → ∃ i, .cancel i ∈ ps ++ [p] := by
        rintro (⟨i, hi⟩ | ⟨i, rfl⟩)
        · exact ⟨i, List.mem_append_left _ hi⟩
        · exact ⟨i, List.mem_append_right _ List.mem_cons_self⟩
      cases hd' with
      | created named owned => exact .created named (owned.mono hcancel)
      | ahead inv part others thread fosters =>
          exact .ahead inv part others thread (fosters.imp_left fun hc => ⟨hcancel hc.1, hc.2⟩)

variable {cancelled : Prop} {c : Config ι σ ε}

theorem InCustody.rests (hmid : O.mid v₀) (h : InCustody O v₀ cancelled c) :
    O.Rests c.state := by
  cases h with
  | ahead inv part => exact ⟨inv, by rw [part]; exact hmid⟩
  | created _ owned => exact owned.rests

/-- Once all threads have ended and none was cancelled, the owner has done all it had to, or has
failed as it may. -/
theorem InCustody.ends (h : InCustody O v₀ cancelled c) (hc : ¬ cancelled)
    (hended : ∀ thread ∈ c.threads, thread.2.HasEnded) :
    ∃ failure, O.ends failure (O.part c.state) ∧
      ∀ exc, failure = some exc → ∃ name, (name, .fail exc) ∈ c.threads := by
  cases h with
  | @ahead i foster code inv part others thread fosters =>
      have hcode := hended _ (List.mem_of_getElem? thread)
      have hfosters := fosters.resolve_left (fun hdone => hc hdone.1) c.state inv
      cases code with
      | done => exact hfosters.elim
      | fail exc => exact hfosters.elim
      | _ => exact hcode.elim
  | created _ owned =>
      obtain ⟨code, hthread, howned⟩ := owned.owner
      have hmem := List.mem_of_getElem? hthread
      have hcode := hended _ hmem
      have hends := howned.resolve_left (fun hdone => hc hdone.1) c.state owned.rests.1 rfl
      cases code with
      | done => exact ⟨none, hends.2, nofun⟩
      | fail exc =>
          refine ⟨some exc, hends.2, ?_⟩
          rintro _ ⟨⟩
          exact ⟨_, hmem⟩
      | _ => exact hcode.elim

/-! ## Programs -/

variable {α β : Type} {name child : ι}

variable (O v₀) in
/-- The program keeps the custody until it hands over to its continuation. -/
def HoldsOn (name : ι) (p : Proc ι σ ε α) (Q : α → Prop) : Prop :=
  ∀ (k : α → Code ι σ ε) (s₀ s : σ), O.env.inv s₀ → O.env.inv s → O.env.guarantee name s₀ s →
    (∀ a s₀' s', Q a → O.env.inv s₀' → O.env.inv s' → O.env.guarantee name s₀' s' →
      Fosters O v₀ (k a) name s₀' s') →
    Fosters O v₀ (p k) name s₀ s

variable (O v₀) in
/-- The program hands over the custody, whatever keeps to the protocol after it. -/
def HandsOver (name : ι) (p : Proc ι σ ε α) : Prop :=
  ∀ (k : α → Code ι σ ε) (s₀ s : σ), O.env.inv s₀ → O.env.inv s → O.env.guarantee name s₀ s →
    (∀ a s₀' s', O.env.inv s₀' → O.env.inv s' → O.env.guarantee name s₀' s' →
      Safe O.env (k a) name s₀' s') →
    Fosters O v₀ (p k) name s₀ s

theorem holdsOn_pure {a : α} {Q : α → Prop} (h : Q a) :
    HoldsOn O v₀ name (pure a : Proc ι σ ε α) Q :=
  fun _ s₀ s hi₀ hi hg hk => hk a s₀ s h hi₀ hi hg

theorem holdsOn_bind {p : Proc ι σ ε α} {f : α → Proc ι σ ε β} {Q : α → Prop} {R : β → Prop}
    (hp : HoldsOn O v₀ name p Q) (hf : ∀ a, Q a → HoldsOn O v₀ name (f a) R) :
    HoldsOn O v₀ name (p >>= f) R :=
  fun k s₀ s hi₀ hi hg hk => hp _ s₀ s hi₀ hi hg fun a s₀' s' ha hi₀' hi' hg' =>
    hf a ha k s₀' s' hi₀' hi' hg' hk

theorem holdsOn_atomically {f : σ → α × σ} {Q : α → Prop}
    (hf : ∀ s, O.env.inv s → O.env.guarantee name s (f s).2 ∧ O.env.inv (f s).2 ∧ Q (f s).1) :
    HoldsOn O v₀ name (Proc.atomically f : Proc ι σ ε α) Q :=
  fun _ s₀ s hi₀ hi hg hk => hk _ s₀ _ (hf s hi).2.2 hi₀ (hf s hi).2.1
    (O.env.guarantee_trans hg (hf s hi).1)

theorem holdsOn_awaiting (ready : σ → Bool) :
    HoldsOn O v₀ name (Proc.awaiting ready : Proc ι σ ε Unit) fun _ => True :=
  fun _ _ _ _ hi hg hk => ⟨⟨hi, hg⟩, fun s' hi' _ =>
    hk () s' s' trivial hi' hi' (O.env.guarantee_refl _ _)⟩

theorem holdsOn_spawn {p : Proc ι σ ε Unit} (hp : ∀ s, Stable O.env (child, p.code) s) :
    HoldsOn O v₀ name (Proc.spawn child p : Proc ι σ ε Unit) fun _ => True :=
  fun _ s₀ s hi₀ hi hg hk => .inl ⟨hp, hk () s₀ s trivial hi₀ hi hg⟩

theorem handsOver_spawn {p : Proc ι σ ε Unit} (hp : Custodian O v₀ (child, p.code)) :
    HandsOver O v₀ name (Proc.spawn child p : Proc ι σ ε Unit) :=
  fun _ s₀ s hi₀ hi hg hk => .inr ⟨hp, hk () s₀ s hi₀ hi hg⟩

theorem HoldsOn.handsOver {p : Proc ι σ ε α} {f : α → Proc ι σ ε β} {Q : α → Prop}
    (hp : HoldsOn O v₀ name p Q) (hf : ∀ a, Q a → HandsOver O v₀ name (f a)) :
    HandsOver O v₀ name (p >>= f) :=
  fun k s₀ s hi₀ hi hg hk => hp _ s₀ s hi₀ hi hg fun a s₀' s' ha hi₀' hi' hg' =>
    hf a ha k s₀' s' hi₀' hi' hg' hk

theorem handsOver_bind {p : Proc ι σ ε α} {f : α → Proc ι σ ε β}
    (hp : HandsOver O v₀ name p) (hf : ∀ a, Preserves O.env name (f a)) :
    HandsOver O v₀ name (p >>= f) :=
  fun k s₀ s hi₀ hi hg hk => hp _ s₀ s hi₀ hi hg fun a s₀' s' hi₀' hi' hg' =>
    hf a k s₀' s' hi₀' (O.anytime _ _) hg' hi' fun b s₀'' s'' hi₀'' _ hg'' hi'' =>
      hk b s₀'' s'' hi₀'' hi'' hg''

/-- A loop hands over at one of its items. -/
theorem handsOver_asyncFor {ready : ℕ → σ → Bool} {body : α → Proc ι σ ε Unit}
    {before after : List α} {item : α}
    (hbefore : ∀ other ∈ before, HoldsOn O v₀ name (body other) fun _ => True)
    (hitem : HandsOver O v₀ name (body item))
    (hafter : ∀ other ∈ after, Preserves O.env name (body other)) (i : ℕ) :
    HandsOver O v₀ name (Proc.asyncFor ready body i (before ++ item :: after)) := by
  induction before generalizing i with
  | nil =>
      refine (holdsOn_awaiting _).handsOver fun _ _ => handsOver_bind hitem fun _ => ?_
      exact preserves_asyncFor hafter (i + 1)
  | cons other before ih =>
      rw [List.forall_mem_cons] at hbefore
      refine (holdsOn_awaiting _).handsOver fun _ _ => hbefore.1.handsOver fun _ _ => ?_
      exact ih hbefore.2 (i + 1)

/-- A thread whose program hands over has the part in custody. -/
theorem custodian_of_handsOver {p : Proc ι σ ε Unit} (h : HandsOver O v₀ name p) :
    Custodian O v₀ (name, p.code) :=
  .inr fun s hi => h _ s s hi hi (O.env.guarantee_refl _ _) fun _ _ _ _ hi' hg' => ⟨hi', hg'⟩

theorem custodian_of_owned {p : Proc ι σ ε Unit} (hname : O.owner name)
    (h : ∀ s, O.part s = v₀ → Owned O p.code s) : Custodian O v₀ (name, p.code) := .inl ⟨hname, h⟩

end Coroutine
