import StreamDB.RelyGuarantee

/-!
# A part of the state that one thread owns

The other threads keep a protocol whose guarantee leaves the owner's part alone, so that the code
of the owner can be followed as if it ran by itself: while it is suspended, only the rest of the
state changes. `Owns` follows the code, `Runs` does so for a program with a pre- and a
postcondition, and `owned_of_follow` is the rule for whole runs.
-/

namespace Coroutine

variable {ι σ ε π : Type}

structure Ownership (ι σ ε π : Type) where
  env : Protocol ι σ
  part : σ → π
  /-- What holds of the part whenever the owner is suspended. -/
  mid : π → Prop
  /-- What holds of it when the owner has ended, by itself or with an exception. -/
  ends : Option ε → π → Prop
  anytime : ∀ name s, env.allowed name s
  anyhow : ∀ s s', env.rely s s'
  others : ∀ name s s', env.guarantee name s s' → part s' = part s
  /-- The threads that may turn out to be the owner. -/
  owner : ι → Prop := fun _ => True
  /-- What is known where a bounded wait of the owner has expired. -/
  expired : Prop := True

variable (O : Ownership ι σ ε π)

def Ownership.Rests (s : σ) : Prop := O.env.inv s ∧ O.mid (O.part s)

/-- The rest of the owner's block and all its later blocks leave the part as they should. -/
def Owns : Code ι σ ε → σ → Prop
  | .done, s => O.Rests s ∧ O.ends none (O.part s)
  | .fail exc, s => O.Rests s ∧ O.ends (some exc) (O.part s)
  | .act effect next, s => Owns (next s) (effect s)
  | .wait ready rest, s => O.Rests s ∧
      ∀ s', O.env.inv s' → O.part s' = O.part s → ready s' → Owns rest s'
  | .waitFor ready rest late, s => O.Rests s ∧
      ∀ s', O.env.inv s' → O.part s' = O.part s →
        (ready s' → Owns rest s') ∧ (O.expired → Owns late s')
  | .fork _ _ _, _ => False

/-- The owner may be picked in any state the others can bring about from `s`. -/
def Owned (code : Code ι σ ε) (s : σ) : Prop :=
  ∀ s', O.env.inv s' → O.part s' = O.part s → Owns O code s'

variable {O}

theorem Owned.of_part {code : Code ι σ ε} {s s' : σ} (h : Owned O code s)
    (hpart : O.part s' = O.part s) : Owned O code s' :=
  fun s'' hi hs => h s'' hi (hs.trans hpart)

/-- The part has not changed, so what is true of it still is. -/
theorem Ownership.Rests.of_part {s s' : σ} (h : O.Rests s) (hi : O.env.inv s')
    (hpart : O.part s' = O.part s) : O.Rests s' :=
  ⟨hi, by rw [hpart]; exact h.2⟩

theorem Owns.block {code : Code ι σ ε} {s : σ} (h : Owns O code s) :
    O.Rests (code.block s).1 ∧ Owned O (code.block s).2.1 (code.block s).1 ∧
      (code.block s).2.2 = [] := by
  induction code generalizing s with
  | done =>
      refine ⟨h.1, fun s' hi hs => ⟨h.1.of_part hi hs, ?_⟩, rfl⟩
      change O.part s' = O.part s at hs
      rw [hs]
      exact h.2
  | fail exc =>
      refine ⟨h.1, fun s' hi hs => ⟨h.1.of_part hi hs, ?_⟩, rfl⟩
      change O.part s' = O.part s at hs
      rw [hs]
      exact h.2
  | act effect next ih => exact ih s h
  | wait ready rest _ =>
      exact ⟨h.1, fun s' hi hs => ⟨h.1.of_part hi hs, fun s'' hi' hs' =>
        h.2 s'' hi' (hs'.trans hs)⟩, rfl⟩
  | waitFor ready rest late _ _ =>
      exact ⟨h.1, fun s' hi hs => ⟨h.1.of_part hi hs, fun s'' hi' hs' =>
        h.2 s'' hi' (hs'.trans hs)⟩, rfl⟩
  | fork child code rest _ _ => exact h.elim

theorem Owned.resume {code rest : Code ι σ ε} {s s' : σ} {forks : List (ι × Code ι σ ε)}
    (h : Owned O code s) (hi : O.env.inv s) (hb : code.resume s = some (s', rest, forks)) :
    O.Rests s' ∧ Owned O rest s' ∧ forks = [] := by
  have hs := h s hi rfl
  cases code with
  | done => cases hb
  | fail exc => cases hb
  | act effect next =>
      have hblock := Owns.block hs
      rw [Option.some.inj hb] at hblock
      exact hblock
  | wait ready code =>
      by_cases hready : ready s
      · have hblock := Owns.block (hs.2 s hi rfl hready)
        have he : code.block s = (s', rest, forks) := by simpa [Code.resume, hready] using hb
        rw [he] at hblock
        exact hblock
      · simp [Code.resume, hready] at hb
  | waitFor ready code late =>
      by_cases hready : ready s
      · have hblock := Owns.block ((hs.2 s hi rfl).1 hready)
        have he : code.block s = (s', rest, forks) := by simpa [Code.resume, hready] using hb
        rw [he] at hblock
        exact hblock
      · simp [Code.resume, hready] at hb
  | fork child code rest' => exact hs.elim

theorem Owned.expire {code rest : Code ι σ ε} {s s' : σ} {forks : List (ι × Code ι σ ε)}
    (h : Owned O code s) (hi : O.env.inv s) (hexpired : O.expired)
    (hb : code.expire s = some (s', rest, forks)) :
    O.Rests s' ∧ Owned O rest s' ∧ forks = [] := by
  cases code with
  | waitFor ready code late =>
      have hblock := Owns.block (((h s hi rfl).2 s hi rfl).2 hexpired)
      rw [Option.some.inj hb] at hblock
      exact hblock
  | done => cases hb
  | fail exc => cases hb
  | act effect next => cases hb
  | wait ready code => cases hb
  | fork child code rest' => cases hb

/-! ## Whole runs -/

variable (O) in
/-- Thread number `i` is the owner, cancelled by now if `cancelled`, and the others keep to the
protocol. -/
structure OwnedBy (i : ℕ) (owner : ι) (cancelled : Prop) (c : Config ι σ ε) : Prop where
  rests : O.Rests c.state
  others : ∀ j thread, j ≠ i → c.threads[j]? = some thread → Stable O.env thread c.state
  owner : ∃ code, c.threads[i]? = some (owner, code) ∧
    (cancelled ∧ code = .done ∨ Owned O code c.state)

theorem thread_after {threads forks : List (ι × Code ι σ ε)} {j k : ℕ}
    {moved thread : ι × Code ι σ ε} (h : (threads.set j moved ++ forks)[k]? = some thread) :
    (k = j ∧ thread = moved) ∨ (k ≠ j ∧ threads[k]? = some thread) ∨ thread ∈ forks := by
  rw [List.getElem?_append] at h
  split_ifs at h with hlt
  · by_cases hk : k = j
    · subst hk
      rw [List.getElem?_set_self (by simpa using hlt)] at h
      exact .inl ⟨rfl, (Option.some.inj h).symm⟩
    · rw [List.getElem?_set_ne (Ne.symm hk)] at h
      exact .inr (.inl ⟨hk, h⟩)
  · exact .inr (.inr (List.mem_of_getElem? h))

/-- A move of the owner, which creates no threads. -/
theorem Owned.moves {code rest : Code ι σ ε} {i : ℕ} {p : Pick} {s s' : σ}
    {forks : List (ι × Code ι σ ε)} {cancelled : Prop}
    (h : cancelled ∧ code = .done ∨ Owned O code s) (hrests : O.Rests s)
    (hexpired : p = .expire i → O.expired) (hm : Config.Moves i code s p s' rest forks) :
    O.Rests s' ∧ ((cancelled ∨ p = .cancel i) ∧ rest = .done ∨ Owned O rest s') ∧ forks = [] := by
  cases hm with
  | run block =>
      rcases h with ⟨_, rfl⟩ | h
      · cases block
      · obtain ⟨hrests', hrest, hforks⟩ := h.resume hrests.1 block
        exact ⟨hrests', .inr hrest, hforks⟩
  | expire block =>
      rcases h with ⟨_, rfl⟩ | h
      · cases block
      · obtain ⟨hrests', hrest, hforks⟩ := h.expire hrests.1 (hexpired rfl) block
        exact ⟨hrests', .inr hrest, hforks⟩
  | cancel => exact ⟨hrests, .inl ⟨.inr rfl, rfl⟩, rfl⟩

theorem OwnedBy.step {c c' : Config ι σ ε} {i : ℕ} {owner name : ι} {cancelled : Prop} {p : Pick}
    (h : OwnedBy O i owner cancelled c) (hexpired : p = .expire i → O.expired)
    (hs : c.step p = some (name, c')) :
    OwnedBy O i owner (cancelled ∨ p = .cancel i) c' := by
  obtain ⟨j, code, s, rest, forks, hthread, hm, rfl⟩ := Config.step_moves hs
  obtain ⟨own, hown, howned⟩ := h.owner
  have hlt : i < c.threads.length := (List.getElem?_eq_some_iff.mp hown).1
  by_cases hj : j = i
  · subst hj
    rw [hown, Option.some.injEq, Prod.mk.injEq] at hthread
    obtain ⟨rfl, rfl⟩ := hthread
    obtain ⟨hrests, hrest, rfl⟩ := Owned.moves howned h.rests hexpired hm
    refine ⟨hrests, ?_, rest, ?_, hrest⟩
    · intro k thread hk hthread'
      rcases thread_after hthread' with ⟨hkj, _⟩ | ⟨_, ht⟩ | ht
      · exact absurd hkj hk
      · exact (h.others k thread hk ht).of_rely (O.anyhow _ _)
      · cases ht
    · rw [List.append_nil]
      exact List.getElem?_set_self hlt
  · have hstable := h.others j _ hj hthread
    obtain ⟨hg, hrest, hforks⟩ := hstable.moves h.rests.1 (O.anytime _ _) hm
    have hpart := O.others _ _ _ hg.2
    refine ⟨h.rests.of_part hg.1 hpart, ?_, own, ?_, ?_⟩
    · intro k thread hk hthread'
      rcases thread_after hthread' with ⟨_, rfl⟩ | ⟨_, ht⟩ | ht
      · exact hrest
      · exact (h.others k thread hk ht).of_rely (O.anyhow _ _)
      · exact hforks thread ht
    · rw [List.getElem?_append_left (by simpa using hlt), List.getElem?_set_ne hj]
      exact hown
    · rcases howned with ⟨hc, hdone⟩ | howned
      · exact .inl ⟨.inl hc, hdone⟩
      · exact .inr (howned.of_part hpart)

/-- After any schedule the part is as the owner leaves it. -/
theorem owned_of_follow {c₀ c : Config ι σ ε} {ps : List Pick} {i : ℕ} {owner : ι}
    (h₀ : OwnedBy O i owner False c₀) (hexpired : .expire i ∈ ps → O.expired)
    (h : c₀.follow ps = some c) : OwnedBy O i owner (.cancel i ∈ ps) c := by
  induction ps using List.reverseRecOn generalizing c with
  | nil =>
      cases h
      obtain ⟨hrests, hothers, code, hthread, howned⟩ := h₀
      exact ⟨hrests, hothers, code, hthread, .inr (howned.resolve_left fun hc => hc.1)⟩
  | append_singleton ps p ih =>
      obtain ⟨d, name, hd, hstep⟩ := follow_concat.mp h
      have hbefore := ih (fun hi => hexpired (List.mem_append_left _ hi)) hd
      obtain ⟨hrests, hothers, code, hthread, howned⟩ := hbefore.step
        (fun hp => hexpired (List.mem_append_right _ (hp ▸ List.mem_cons_self))) hstep
      refine ⟨hrests, hothers, code, hthread, howned.imp_left fun hc => ⟨?_, hc.2⟩⟩
      simpa [eq_comm] using hc.1

/-- An owner that has ended without being cancelled has done all it had to. -/
theorem OwnedBy.ends {c : Config ι σ ε} {i : ℕ} {owner : ι} {cancelled : Prop}
    (h : OwnedBy O i owner cancelled c) (hc : ¬ cancelled)
    (hdone : c.threads[i]? = some (owner, .done)) : O.ends none (O.part c.state) := by
  obtain ⟨code, hthread, howned⟩ := h.owner
  rw [hdone, Option.some.injEq, Prod.mk.injEq] at hthread
  obtain ⟨_, rfl⟩ := hthread
  exact (howned.resolve_left fun hc' => hc hc'.1) c.state h.rests.1 rfl |>.2

theorem OwnedBy.ends_of_fail {c : Config ι σ ε} {i : ℕ} {owner : ι} {cancelled : Prop} {exc : ε}
    (h : OwnedBy O i owner cancelled c) (hfail : c.threads[i]? = some (owner, .fail exc)) :
    O.ends (some exc) (O.part c.state) := by
  obtain ⟨code, hthread, howned⟩ := h.owner
  rw [hfail, Option.some.injEq, Prod.mk.injEq] at hthread
  obtain ⟨_, rfl⟩ := hthread
  exact (howned.resolve_left fun hc' => nomatch hc'.2) c.state h.rests.1 rfl |>.2

/-! ## Programs -/

variable {α β : Type}

variable (O) in
/-- Started in a state with `pre`, the owner's program hands over to its continuation in one with
`post`. -/
def Runs (pre : σ → Prop) (p : Proc ι σ ε α) (post : α → σ → Prop) : Prop :=
  ∀ (k : α → Code ι σ ε) (s : σ), pre s → (∀ a s', post a s' → Owns O (k a) s') → Owns O (p k) s

variable (O) in
/-- The part is `v`. -/
def Holds (v : π) (s : σ) : Prop := O.env.inv s ∧ O.part s = v

theorem runs_pure {a : α} {pre : σ → Prop} {post : α → σ → Prop} (h : ∀ s, pre s → post a s) :
    Runs O pre (pure a : Proc ι σ ε α) post :=
  fun _ s hpre hk => hk a s (h s hpre)

theorem runs_bind {p : Proc ι σ ε α} {f : α → Proc ι σ ε β} {pre : σ → Prop}
    {mid : α → σ → Prop} {post : β → σ → Prop} (hp : Runs O pre p mid)
    (hf : ∀ a, Runs O (mid a) (f a) post) : Runs O pre (p >>= f) post :=
  fun k s hpre hk => hp _ s hpre fun a s' hmid => hf a k s' hmid hk

theorem Runs.weaken {p : Proc ι σ ε α} {pre : σ → Prop} {post post' : α → σ → Prop}
    (h : Runs O pre p post) (hpost : ∀ a s, post a s → post' a s) : Runs O pre p post' :=
  fun k s hpre hk => h k s hpre fun a s' hs => hk a s' (hpost a s' hs)

theorem runs_atomically {f : σ → α × σ} {pre : σ → Prop} {post : α → σ → Prop}
    (h : ∀ s, pre s → post (f s).1 (f s).2) :
    Runs O pre (Proc.atomically f : Proc ι σ ε α) post :=
  fun _ s hpre hk => hk _ _ (h s hpre)

theorem runs_raise {exc : ε} {v : π} {post : α → σ → Prop} (hmid : O.mid v)
    (hends : O.ends (some exc) v) :
    Runs O (Holds O v) (Proc.raise exc : Proc ι σ ε α) post := by
  intro _ s hs _
  obtain ⟨hi, rfl⟩ := hs
  exact ⟨⟨hi, hmid⟩, hends⟩

theorem runs_awaiting {ready : σ → Bool} {v : π} (hmid : O.mid v) :
    Runs O (Holds O v) (Proc.awaiting ready : Proc ι σ ε Unit) fun _ => Holds O v := by
  intro k s hs hk
  obtain ⟨hi, rfl⟩ := hs
  exact ⟨⟨hi, hmid⟩, fun s' hi' hs' _ => hk () s' ⟨hi', hs'⟩⟩

theorem runs_suspend {v : π} (hmid : O.mid v) :
    Runs O (Holds O v) (Proc.suspend : Proc ι σ ε Unit) fun _ => Holds O v :=
  runs_awaiting hmid

/-- A bounded wait goes on with what it waits for, or it has expired. -/
theorem runs_awaitingOr {ready : σ → Bool} {v : π} (hmid : O.mid v) :
    Runs O (Holds O v) (Proc.awaitingOr ready : Proc ι σ ε Bool) fun b s =>
      (b = false → O.expired) ∧ (b = true → ready s = true) ∧ Holds O v s := by
  intro k s hs hk
  obtain ⟨hi, rfl⟩ := hs
  refine ⟨⟨hi, hmid⟩, fun s' hi' hs' => ⟨fun hready => ?_, fun hexpired => ?_⟩⟩
  · exact hk true s' ⟨nofun, fun _ => hready, hi', hs'⟩
  · exact hk false s' ⟨fun _ => hexpired, nofun, hi', hs'⟩

theorem runs_bind_of {p : Proc ι σ ε α} {f : α → Proc ι σ ε β} {pre : σ → Prop} {Q : α → Prop}
    {mid : α → σ → Prop} {post : β → σ → Prop} (hp : Runs O pre p fun a s => Q a ∧ mid a s)
    (hf : ∀ a, Q a → Runs O (mid a) (f a) post) : Runs O pre (p >>= f) post :=
  fun k s hpre hk => hp _ s hpre fun a s' hs => hf a hs.1 k s' hs.2 hk

theorem owned_code {p : Proc ι σ ε Unit} {v : π} {post : Unit → σ → Prop}
    (hp : Runs O (Holds O v) p post)
    (hpost : ∀ s, post () s → O.Rests s ∧ O.ends none (O.part s)) {s : σ} (hs : O.part s = v) :
    Owned O p.code s :=
  fun s' hi hs' => hp _ s' ⟨hi, hs'.trans hs⟩ fun _ s'' h => hpost s'' h

end Coroutine
