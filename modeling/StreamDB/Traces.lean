import StreamDB.Ownership

/-!
# The trace of one thread

One thread is watched among others: the blocks it has run so far, what is left of it, and the
state the others have brought about since. `Along` follows its code with this history at hand,
`holds_of_trace` is the rule for its traces, and `among_of_follow` finds the trace of a thread in a
run of the whole system.
-/

namespace Coroutine

variable {ι σ ε : Type}

/-- The traces of a thread among others that change the state as `env` says. -/
inductive Trace (env : σ → σ → Prop) (code₀ : Code ι σ ε) (s₀ : σ) :
    List (σ × σ) → Code ι σ ε → σ → Prop
  | start : Trace env code₀ s₀ [] code₀ s₀
  | others {h : List (σ × σ)} {code : Code ι σ ε} {s s' : σ}
      (trace : Trace env code₀ s₀ h code s) (change : env s s') : Trace env code₀ s₀ h code s'
  | resume {h : List (σ × σ)} {code rest : Code ι σ ε} {s s' : σ}
      (trace : Trace env code₀ s₀ h code s) (block : code.resume s = some (s', rest, [])) :
      Trace env code₀ s₀ (h ++ [(s, s')]) rest s'
  | expire {h : List (σ × σ)} {code rest : Code ι σ ε} {s s' : σ}
      (trace : Trace env code₀ s₀ h code s) (block : code.expire s = some (s', rest, [])) :
      Trace env code₀ s₀ (h ++ [(s, s')]) rest s'

/-- What the others may do while a thread is suspended, and what holds of it then. -/
structure Watch (ι σ ε : Type) where
  env : σ → σ → Prop
  holds : List (σ × σ) → Code ι σ ε → σ → Prop
  env_refl : ∀ s, env s s
  env_trans : ∀ {s s' s''}, env s s' → env s' s'' → env s s''
  holds_env : ∀ {h code s s'}, holds h code s → env s s' → holds h code s'

namespace Watch

variable (W : Watch ι σ ε)

/-- The rest of the block that was started in `s₀` and has come to `s`, and all later blocks,
suspend the thread as they should. A thread that is watched creates no others. -/
def Along : Code ι σ ε → List (σ × σ) → σ → σ → Prop
  | .done, h, s₀, s => W.holds (h ++ [(s₀, s)]) .done s
  | .fail exc, h, s₀, s => W.holds (h ++ [(s₀, s)]) (.fail exc) s
  | .act effect next, h, s₀, s => Along (next s) h s₀ (effect s)
  | .wait ready rest, h, s₀, s => W.holds (h ++ [(s₀, s)]) (.wait ready rest) s ∧
      ∀ s', W.env s s' → ready s' → Along rest (h ++ [(s₀, s)]) s' s'
  | .waitFor ready rest late, h, s₀, s => W.holds (h ++ [(s₀, s)]) (.waitFor ready rest late) s ∧
      ∀ s', W.env s s' →
        (ready s' → Along rest (h ++ [(s₀, s)]) s' s') ∧ Along late (h ++ [(s₀, s)]) s' s'
  | .fork _ _ _, _, _, _ => False

structure Waits (code : Code ι σ ε) (h : List (σ × σ)) (s : σ) : Prop where
  resume : ∀ s' r, W.env s s' → code.resume s' = some r →
    ∃ next, W.Along next h s' s' ∧ next.block s' = r
  expire : ∀ s' r, W.env s s' → code.expire s' = some r →
    ∃ next, W.Along next h s' s' ∧ next.block s' = r

variable {W} {code : Code ι σ ε} {h : List (σ × σ)} {s₀ s : σ}

theorem Waits.of_env {s' : σ} (hw : W.Waits code h s) (henv : W.env s s') :
    W.Waits code h s' where
  resume s'' r h' := hw.resume s'' r (W.env_trans henv h')
  expire s'' r h' := hw.expire s'' r (W.env_trans henv h')

theorem waits_done : W.Waits (.done : Code ι σ ε) h s where
  resume _ _ _ hb := nomatch hb
  expire _ _ _ hb := nomatch hb

theorem waits_fail (exc : ε) : W.Waits (.fail exc : Code ι σ ε) h s where
  resume _ _ _ hb := nomatch hb
  expire _ _ _ hb := nomatch hb

theorem waits_act {effect : σ → σ} {next : σ → Code ι σ ε}
    (hnext : ∀ s', W.env s s' → W.Along (.act effect next) h s' s') :
    W.Waits (.act effect next) h s where
  resume s' _ henv hb := ⟨_, hnext s' henv, Option.some.inj hb⟩
  expire _ _ _ hb := nomatch hb

theorem waits_wait {ready : σ → Bool} {rest : Code ι σ ε}
    (hrest : ∀ s', W.env s s' → ready s' → W.Along rest h s' s') :
    W.Waits (.wait ready rest) h s where
  resume s' r henv hb := by
    rw [Code.resume] at hb
    split_ifs at hb with hready
    exact ⟨rest, hrest s' henv hready, Option.some.inj hb⟩
  expire _ _ _ hb := nomatch hb

theorem waits_waitFor {ready : σ → Bool} {rest late : Code ι σ ε}
    (hrest : ∀ s', W.env s s' → (ready s' → W.Along rest h s' s') ∧ W.Along late h s' s') :
    W.Waits (.waitFor ready rest late) h s where
  resume s' r henv hb := by
    rw [Code.resume] at hb
    split_ifs at hb with hready
    exact ⟨rest, (hrest s' henv).1 hready, Option.some.inj hb⟩
  expire s' _ henv hb := ⟨late, (hrest s' henv).2, Option.some.inj hb⟩

theorem Along.block (ha : W.Along code h s₀ s) :
    W.holds (h ++ [(s₀, (code.block s).1)]) (code.block s).2.1 (code.block s).1 ∧
      W.Waits (code.block s).2.1 (h ++ [(s₀, (code.block s).1)]) (code.block s).1 ∧
      (code.block s).2.2 = [] := by
  induction code generalizing s with
  | done => exact ⟨ha, waits_done, rfl⟩
  | fail exc => exact ⟨ha, waits_fail exc, rfl⟩
  | act effect next ih => exact ih s ha
  | wait ready rest _ => exact ⟨ha.1, waits_wait ha.2, rfl⟩
  | waitFor ready rest late _ _ => exact ⟨ha.1, waits_waitFor ha.2, rfl⟩
  | fork name child rest _ _ => exact ha.elim

theorem holds_of_trace {code₀ : Code ι σ ε} (hstart : W.holds [] code₀ s₀)
    (hwaits : W.Waits code₀ [] s₀) (ht : Trace W.env code₀ s₀ h code s) :
    W.holds h code s ∧ W.Waits code h s := by
  induction ht with
  | start => exact ⟨hstart, hwaits⟩
  | others _ change ih => exact ⟨W.holds_env ih.1 change, ih.2.of_env change⟩
  | resume _ block ih =>
      obtain ⟨next, hnext, hblock⟩ := ih.2.resume _ _ (W.env_refl _) block
      obtain ⟨hholds, hwaits', _⟩ := hnext.block
      rw [hblock] at hholds hwaits'
      exact ⟨hholds, hwaits'⟩
  | expire _ block ih =>
      obtain ⟨next, hnext, hblock⟩ := ih.2.expire _ _ (W.env_refl _) block
      obtain ⟨hholds, hwaits', _⟩ := hnext.block
      rw [hblock] at hholds hwaits'
      exact ⟨hholds, hwaits'⟩

variable (W) in
def Forgets : Prop := ∀ {h h' code s}, W.holds h code s → W.holds h' code s

theorem Along.of_forgets (hW : W.Forgets) {h' : List (σ × σ)} {s₀' : σ} (ha : W.Along code h s₀ s) :
    W.Along code h' s₀' s := by
  induction code generalizing h h' s₀ s₀' s with
  | done => exact hW ha
  | fail exc => exact hW ha
  | act effect next ih => exact ih s ha
  | wait ready rest ih => exact ⟨hW ha.1, fun s' henv hready => ih (ha.2 s' henv hready)⟩
  | waitFor ready rest late ih ih' =>
      refine ⟨hW ha.1, fun s' henv => ⟨fun hready => ih ((ha.2 s' henv).1 hready), ?_⟩⟩
      exact ih' (ha.2 s' henv).2
  | fork name child rest _ _ => exact ha.elim

theorem waits_of_forgets (hW : W.Forgets) (ha : ∀ s', W.env s s' → W.Along code h s' s') :
    W.Waits code h s := by
  cases code with
  | done => exact waits_done
  | fail exc => exact waits_fail exc
  | act effect next => exact waits_act ha
  | wait ready rest =>
      exact waits_wait fun s' henv hready =>
        ((ha s' henv).2 s' (W.env_refl s') hready).of_forgets hW
  | waitFor ready rest late =>
      refine waits_waitFor fun s' henv => ?_
      obtain ⟨hrest, hlate⟩ := (ha s' henv).2 s' (W.env_refl s')
      exact ⟨fun hready => (hrest hready).of_forgets hW, hlate.of_forgets hW⟩
  | fork name child rest => exact (ha s (W.env_refl s)).elim

/-! ## In a system -/

variable (W) in
/-- Thread number `i` is the one that is watched, and the others keep to the protocol. Where it has
been cancelled, it stands at the end. -/
structure Among (P : Protocol ι σ) (i : ℕ) (owner : ι) (code₀ : Code ι σ ε) (s₀ : σ)
    (cancelled : Prop) (c : Config ι σ ε) : Prop where
  others : ∀ j thread, j ≠ i → c.threads[j]? = some thread → Stable P thread c.state
  trace : ∃ h code, Trace W.env code₀ s₀ h code c.state ∧
    (c.threads[i]? = some (owner, code) ∨ cancelled ∧ c.threads[i]? = some (owner, .done))

variable {P : Protocol ι σ} {c c' : Config ι σ ε} {i : ℕ} {owner : ι} {code₀ : Code ι σ ε}

/-- A move of the watched thread is one of its trace, or it is cancelled. -/
theorem moves_of_trace (hstart : W.holds [] code₀ s₀) (hwaits : W.Waits code₀ [] s₀)
    (ht : Trace W.env code₀ s₀ h code s) {p : Pick} {s' : σ} {rest : Code ι σ ε}
    {forks : List (ι × Code ι σ ε)} (hm : Config.Moves i code s p s' rest forks) :
    forks = [] ∧ ∃ h' code', Trace W.env code₀ s₀ h' code' s' ∧
      (rest = code' ∨ p = .cancel i ∧ rest = .done) := by
  obtain ⟨_, hpicked⟩ := holds_of_trace hstart hwaits ht
  cases hm with
  | run block =>
      obtain ⟨next, hnext, hblock⟩ := hpicked.resume _ _ (W.env_refl _) block
      have hforks := hnext.block.2.2
      rw [hblock] at hforks
      obtain rfl : forks = [] := hforks
      exact ⟨rfl, _, _, ht.resume block, .inl rfl⟩
  | expire block =>
      obtain ⟨next, hnext, hblock⟩ := hpicked.expire _ _ (W.env_refl _) block
      have hforks := hnext.block.2.2
      rw [hblock] at hforks
      obtain rfl : forks = [] := hforks
      exact ⟨rfl, _, _, ht.expire block, .inl rfl⟩
  | cancel => exact ⟨rfl, h, code, ht, .inr ⟨rfl, rfl⟩⟩

theorem moves_of_done {p : Pick} {s' : σ} {rest : Code ι σ ε} {forks : List (ι × Code ι σ ε)}
    (hm : Config.Moves i (.done : Code ι σ ε) s p s' rest forks) :
    s' = s ∧ rest = .done ∧ forks = [] := by
  cases hm with
  | run block => cases block
  | expire block => cases block
  | cancel => exact ⟨rfl, rfl, rfl⟩

structure Surrounds (P : Protocol ι σ) : Prop where
  anytime : ∀ name s, P.allowed name s
  anyhow : ∀ s s', P.rely s s'
  inv : ∀ {h code s}, W.holds h code s → P.inv s
  others : ∀ {name s s'}, P.inv s' → P.guarantee name s s' → W.env s s'

theorem Among.step {cancelled : Prop} (hP : W.Surrounds P) (hstart : W.holds [] code₀ s₀)
    (hwaits : W.Waits code₀ [] s₀) (hc : W.Among P i owner code₀ s₀ cancelled c) {p : Pick}
    {name : ι} (hs : c.step p = some (name, c')) :
    W.Among P i owner code₀ s₀ (cancelled ∨ p = .cancel i) c' := by
  obtain ⟨j, now, s, rest, forks, hthread, hm, rfl⟩ := Config.step_moves hs
  obtain ⟨h, code, ht, hown⟩ := hc.trace
  have hinv := hP.inv (holds_of_trace hstart hwaits ht).1
  by_cases hj : j = i
  · subst hj
    have hlt : j < c.threads.length := (List.getElem?_eq_some_iff.mp hthread).1
    have hmoved : name = owner ∧ forks = [] ∧ ∃ h' code', Trace W.env code₀ s₀ h' code' s ∧
        (rest = code' ∨ (cancelled ∨ p = .cancel j) ∧ rest = .done) := by
      rcases hown with hown | ⟨hcancelled, hown⟩
      · rw [hown, Option.some.injEq, Prod.mk.injEq] at hthread
        obtain ⟨rfl, rfl⟩ := hthread
        obtain ⟨hforks, h', code', ht', hrest⟩ := moves_of_trace hstart hwaits ht hm
        exact ⟨rfl, hforks, h', code', ht', hrest.imp_right fun hdone => ⟨.inr hdone.1, hdone.2⟩⟩
      · rw [hown, Option.some.injEq, Prod.mk.injEq] at hthread
        obtain ⟨rfl, rfl⟩ := hthread
        obtain ⟨rfl, hrest, hforks⟩ := moves_of_done hm
        exact ⟨rfl, hforks, h, code, ht, .inr ⟨.inl hcancelled, hrest⟩⟩
    obtain ⟨rfl, rfl, h', code', ht', hrest⟩ := hmoved
    refine ⟨?_, h', code', ht', ?_⟩
    · intro k thread hk hthread'
      rcases thread_after hthread' with ⟨hkj, _⟩ | ⟨_, hold⟩ | hnew
      · exact absurd hkj hk
      · exact (hc.others k thread hk hold).of_rely (hP.anyhow _ _)
      · cases hnew
    · rw [List.append_nil, List.getElem?_set_self hlt]
      rcases hrest with rfl | ⟨hcancelled, rfl⟩
      · exact .inl rfl
      · exact .inr ⟨hcancelled, rfl⟩
  · obtain ⟨hg, hrest, hforks⟩ := (hc.others j _ hj hthread).moves hinv (hP.anytime _ _) hm
    refine ⟨?_, h, code, ht.others (hP.others hg.1 hg.2), ?_⟩
    · intro k thread hk hthread'
      rcases thread_after hthread' with ⟨_, rfl⟩ | ⟨_, hold⟩ | hnew
      · exact hrest
      · exact (hc.others k thread hk hold).of_rely (hP.anyhow _ _)
      · exact hforks thread hnew
    · have hlt : i < c.threads.length := by
        rcases hown with hown | ⟨_, hown⟩
        · exact (List.getElem?_eq_some_iff.mp hown).1
        · exact (List.getElem?_eq_some_iff.mp hown).1
      rw [List.getElem?_append_left (by simpa using hlt), List.getElem?_set_ne hj]
      exact hown.imp_right fun hdone => ⟨.inl hdone.1, hdone.2⟩

/-- In a run of a system, a thread that is watched leaves a trace. -/
theorem among_of_follow {c₀ : Config ι σ ε} {ps : List Pick} (hP : W.Surrounds P)
    (hown : c₀.threads[i]? = some (owner, code₀))
    (hothers : ∀ j thread, j ≠ i → c₀.threads[j]? = some thread → Stable P thread c₀.state)
    (hstart : W.holds [] code₀ c₀.state) (hwaits : W.Waits code₀ [] c₀.state)
    (hrun : c₀.follow ps = some c) : W.Among P i owner code₀ c₀.state (.cancel i ∈ ps) c := by
  induction ps using List.reverseRecOn generalizing c with
  | nil =>
      cases hrun
      exact ⟨hothers, [], code₀, .start, .inl hown⟩
  | append_singleton ps p ih =>
      obtain ⟨d, name, hd, hs⟩ := follow_concat.mp hrun
      have hstep := (ih hd).step hP hstart hwaits hs
      refine ⟨hstep.others, ?_⟩
      obtain ⟨h, code, ht, hown⟩ := hstep.trace
      refine ⟨h, code, ht, hown.imp_right fun hdone => ⟨?_, hdone.2⟩⟩
      rw [List.mem_append, List.mem_singleton]
      exact hdone.1.imp_right Eq.symm

end Watch

end Coroutine
