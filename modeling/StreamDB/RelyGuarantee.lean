import StreamDB.Coroutine

/-!
# Rely-guarantee reasoning for cooperative threads

A protocol has an invariant of the shared state, says what one block of each thread may do to it
(`guarantee`), what any number of blocks of all threads may do (`rely`), and from which states a
thread is ever picked (`allowed`). `Safe` follows the code of one thread: invariant and guarantee
are owed at suspension points only, and what is known after one is what survives `rely`.
`Triple` is the same for a program with a pre- and a postcondition, with one rule for each
construct; `run_inv` and `run_step_guarantee` are the rules for whole runs.
-/

namespace Coroutine

variable {ι σ ε : Type}

structure Protocol (ι σ : Type) where
  inv : σ → Prop
  allowed : ι → σ → Prop
  rely : σ → σ → Prop
  guarantee : ι → σ → σ → Prop
  rely_refl : ∀ s, rely s s
  rely_trans : ∀ {s s' s''}, rely s s' → rely s' s'' → rely s s''
  guarantee_refl : ∀ name s, guarantee name s s
  guarantee_trans : ∀ {name s s' s''}, guarantee name s s' → guarantee name s' s'' →
    guarantee name s s''
  rely_of_guarantee : ∀ {name s s'}, guarantee name s s' → rely s s'

/-- What keeps to the first protocol keeps to the second. -/
structure Protocol.Within (P Q : Protocol ι σ) : Prop where
  inv : ∀ s, P.inv s ↔ Q.inv s
  allowed : ∀ name s, Q.allowed name s → P.allowed name s
  rely : ∀ s s', Q.rely s s' → P.rely s s'
  guarantee : ∀ name s s', P.guarantee name s s' → Q.guarantee name s s'

variable (P : Protocol ι σ)

/-- The rest of the block that thread `name` started in `s₀` and has brought to `s`, and all its
later blocks, keep the invariant and the guarantee. -/
def Safe : Code ι σ ε → ι → σ → σ → Prop
  | .done, name, s₀, s => P.inv s ∧ P.guarantee name s₀ s
  | .fail _, name, s₀, s => P.inv s ∧ P.guarantee name s₀ s
  | .act effect next, name, s₀, s => Safe (next s) name s₀ (effect s)
  | .wait ready rest, name, s₀, s => (P.inv s ∧ P.guarantee name s₀ s) ∧
      ∀ s', P.inv s' → P.rely s s' → P.allowed name s' → ready s' → Safe rest name s' s'
  | .waitFor ready rest late, name, s₀, s => (P.inv s ∧ P.guarantee name s₀ s) ∧
      ∀ s', P.inv s' → P.rely s s' → P.allowed name s' →
        (ready s' → Safe rest name s' s') ∧ Safe late name s' s'
  | .fork child code rest, name, s₀, s =>
      (∀ s', P.inv s' → P.rely s₀ s' → P.allowed child s' → Safe code child s' s') ∧
        Safe rest name s₀ s

/-- A thread that may be picked in any state the others can bring about from `s`. -/
def Stable (thread : ι × Code ι σ ε) (s : σ) : Prop :=
  ∀ s', P.inv s' → P.rely s s' → P.allowed thread.1 s' → Safe P thread.2 thread.1 s' s'

variable {P}

theorem Stable.of_rely {thread : ι × Code ι σ ε} {s s' : σ} (h : Stable P thread s)
    (hr : P.rely s s') : Stable P thread s' :=
  fun _ hi hs ha => h _ hi (P.rely_trans hr hs) ha

theorem Safe.within {Q : Protocol ι σ} (hPQ : P.Within Q) {code : Code ι σ ε} {name : ι}
    {s₀ s : σ} (h : Safe P code name s₀ s) : Safe Q code name s₀ s := by
  induction code generalizing name s₀ s with
  | done => exact ⟨(hPQ.inv s).mp h.1, hPQ.guarantee _ _ _ h.2⟩
  | fail exc => exact ⟨(hPQ.inv s).mp h.1, hPQ.guarantee _ _ _ h.2⟩
  | act effect next ih => exact ih s h
  | wait ready rest ih =>
      refine ⟨⟨(hPQ.inv s).mp h.1.1, hPQ.guarantee _ _ _ h.1.2⟩, ?_⟩
      intro s' hi hr ha hready
      exact ih (h.2 s' ((hPQ.inv s').mpr hi) (hPQ.rely _ _ hr) (hPQ.allowed _ _ ha) hready)
  | waitFor ready rest late ih ihLate =>
      refine ⟨⟨(hPQ.inv s).mp h.1.1, hPQ.guarantee _ _ _ h.1.2⟩, ?_⟩
      intro s' hi hr ha
      obtain ⟨hrest, hlate⟩ :=
        h.2 s' ((hPQ.inv s').mpr hi) (hPQ.rely _ _ hr) (hPQ.allowed _ _ ha)
      exact ⟨fun hready => ih (hrest hready), ihLate hlate⟩
  | fork child code rest ihCode ih =>
      refine ⟨?_, ih h.2⟩
      intro s' hi hr ha
      exact ihCode (h.1 s' ((hPQ.inv s').mpr hi) (hPQ.rely _ _ hr) (hPQ.allowed _ _ ha))

theorem Stable.within {Q : Protocol ι σ} (hPQ : P.Within Q) {thread : ι × Code ι σ ε} {s : σ}
    (h : Stable P thread s) : Stable Q thread s :=
  fun s' hi hr ha =>
    (h s' ((hPQ.inv s').mpr hi) (hPQ.rely _ _ hr) (hPQ.allowed _ _ ha)).within hPQ

theorem stable_done (name : ι) (s : σ) : Stable P (name, (.done : Code ι σ ε)) s :=
  fun _ hi _ _ => ⟨hi, P.guarantee_refl _ _⟩

/-- What a block leaves behind: invariant and guarantee, and threads that are stable where it
ends. -/
theorem Safe.block {code : Code ι σ ε} {name : ι} {s₀ s : σ} (h : Safe P code name s₀ s) :
    (P.inv (code.block s).1 ∧ P.guarantee name s₀ (code.block s).1) ∧
      Stable P (name, (code.block s).2.1) (code.block s).1 ∧
      ∀ thread ∈ (code.block s).2.2, Stable P thread (code.block s).1 := by
  induction code generalizing s with
  | done => exact ⟨h, stable_done _ _, by simp [Code.block]⟩
  | fail exc => exact ⟨h, fun _ hi _ _ => ⟨hi, P.guarantee_refl _ _⟩, by simp [Code.block]⟩
  | act effect next ih => exact ih s h
  | wait ready rest _ =>
      refine ⟨h.1, ?_, by simp [Code.block]⟩
      intro s' hi hs' _
      exact ⟨⟨hi, P.guarantee_refl _ _⟩,
        fun s'' hi' hs'' => h.2 s'' hi' (P.rely_trans hs' hs'')⟩
  | waitFor ready rest late _ _ =>
      refine ⟨h.1, ?_, by simp [Code.block]⟩
      intro s' hi hs' _
      exact ⟨⟨hi, P.guarantee_refl _ _⟩,
        fun s'' hi' hs'' => h.2 s'' hi' (P.rely_trans hs' hs'')⟩
  | fork child code rest _ ih =>
      obtain ⟨hg, hr, hf⟩ := ih h.2
      refine ⟨hg, hr, ?_⟩
      intro thread hm
      rcases List.mem_cons.mp hm with rfl | hm
      · intro s' hi hs' ha
        exact h.1 s' hi (P.rely_trans (P.rely_of_guarantee hg.2) hs') ha
      · exact hf thread hm

theorem Stable.resume {code : Code ι σ ε} {name : ι} {s s' : σ} {rest : Code ι σ ε}
    {forks : List (ι × Code ι σ ε)} (h : Stable P (name, code) s) (hi : P.inv s)
    (ha : P.allowed name s) (hb : code.resume s = some (s', rest, forks)) :
    (P.inv s' ∧ P.guarantee name s s') ∧ Stable P (name, rest) s' ∧
      ∀ thread ∈ forks, Stable P thread s' := by
  have hs := h s hi (P.rely_refl s) ha
  cases code with
  | done => cases hb
  | fail exc => cases hb
  | act effect next =>
      have hblock := Safe.block hs
      rw [Option.some.inj hb] at hblock
      exact hblock
  | wait ready code =>
      by_cases hready : ready s
      · have hblock := Safe.block (hs.2 s hi (P.rely_refl s) ha hready)
        have he : code.block s = (s', rest, forks) := by simpa [Code.resume, hready] using hb
        rw [he] at hblock
        exact hblock
      · simp [Code.resume, hready] at hb
  | waitFor ready code late =>
      by_cases hready : ready s
      · have hblock := Safe.block ((hs.2 s hi (P.rely_refl s) ha).1 hready)
        have he : code.block s = (s', rest, forks) := by simpa [Code.resume, hready] using hb
        rw [he] at hblock
        exact hblock
      · simp [Code.resume, hready] at hb
  | fork child code rest' =>
      have hblock := Safe.block hs
      rw [Option.some.inj hb] at hblock
      exact hblock

theorem Stable.expire {code : Code ι σ ε} {name : ι} {s s' : σ} {rest : Code ι σ ε}
    {forks : List (ι × Code ι σ ε)} (h : Stable P (name, code) s) (hi : P.inv s)
    (ha : P.allowed name s) (hb : code.expire s = some (s', rest, forks)) :
    (P.inv s' ∧ P.guarantee name s s') ∧ Stable P (name, rest) s' ∧
      ∀ thread ∈ forks, Stable P thread s' := by
  cases code with
  | waitFor ready code late =>
      have hblock := Safe.block ((h s hi (P.rely_refl s) ha).2 s hi (P.rely_refl s) ha).2
      rw [Option.some.inj hb] at hblock
      exact hblock
  | done => cases hb
  | fail exc => cases hb
  | act effect next => cases hb
  | wait ready code => cases hb
  | fork child code rest' => cases hb

theorem Stable.moves {code : Code ι σ ε} {name : ι} {i : ℕ} {p : Pick} {s s' : σ}
    {rest : Code ι σ ε} {forks : List (ι × Code ι σ ε)} (h : Stable P (name, code) s)
    (hi : P.inv s) (ha : P.allowed name s) (hm : Config.Moves i code s p s' rest forks) :
    (P.inv s' ∧ P.guarantee name s s') ∧ Stable P (name, rest) s' ∧
      ∀ thread ∈ forks, Stable P thread s' := by
  cases hm with
  | run block => exact h.resume hi ha block
  | expire block => exact h.expire hi ha block
  | cancel => exact ⟨⟨hi, P.guarantee_refl _ _⟩, stable_done _ _, by simp⟩

/-- One step of the scheduler keeps the invariant and the guarantee of the thread it picks. -/
theorem step_stable {c c' : Config ι σ ε} {p : Pick} {name : ι} (hi : P.inv c.state)
    (hc : ∀ thread ∈ c.threads, Stable P thread c.state)
    (hs : c.step p = some (name, c')) (ha : P.allowed name c.state) :
    (P.inv c'.state ∧ P.guarantee name c.state c'.state) ∧
      ∀ thread ∈ c'.threads, Stable P thread c'.state := by
  obtain ⟨i, code, s, rest, forks, hthread, hm, rfl⟩ := Config.step_moves hs
  obtain ⟨hg, hrest, hforks⟩ := (hc _ (List.mem_of_getElem? hthread)).moves hi ha hm
  refine ⟨hg, ?_⟩
  intro t ht
  rcases List.mem_append.mp ht with ht | ht
  · rcases List.mem_or_eq_of_mem_set ht with ht | rfl
    · exact (hc t ht).of_rely (P.rely_of_guarantee hg.2)
    · exact hrest
  · exact hforks t ht

theorem run_stable {c₀ c : Config ι σ ε} (hrun : Reaches P.allowed c₀ c) (hi : P.inv c₀.state)
    (h₀ : ∀ thread ∈ c₀.threads, Stable P thread c₀.state) :
    (P.inv c.state ∧ P.rely c₀.state c.state) ∧
      ∀ thread ∈ c.threads, Stable P thread c.state := by
  induction hrun with
  | refl => exact ⟨⟨hi, P.rely_refl _⟩, h₀⟩
  | step _ next ok ih =>
      obtain ⟨hg, ht⟩ := step_stable ih.1.1 ih.2 next ok
      exact ⟨⟨hg.1, P.rely_trans ih.1.2 (P.rely_of_guarantee hg.2)⟩, ht⟩

theorem run_inv {c₀ c : Config ι σ ε} (hrun : Reaches P.allowed c₀ c) (hi : P.inv c₀.state)
    (h₀ : ∀ thread ∈ c₀.threads, Stable P thread c₀.state) : P.inv c.state :=
  (run_stable hrun hi h₀).1.1

/-- Every step of a run keeps the guarantee of the thread that takes it. -/
theorem run_step_guarantee {c₀ c c' : Config ι σ ε} {p : Pick} {name : ι}
    (hrun : Reaches P.allowed c₀ c) (hi : P.inv c₀.state)
    (h₀ : ∀ thread ∈ c₀.threads, Stable P thread c₀.state)
    (hs : c.step p = some (name, c')) (ha : P.allowed name c.state) :
    P.guarantee name c.state c'.state :=
  (step_stable (run_inv hrun hi h₀) (run_stable hrun hi h₀).2 hs ha).1.2

/-- What every guarantee keeps holds of every state of a run. -/
theorem run_keeps {K : σ → Prop} {c₀ c : Config ι σ ε} (hrun : Reaches P.allowed c₀ c)
    (hi : P.inv c₀.state) (h₀ : ∀ thread ∈ c₀.threads, Stable P thread c₀.state)
    (hK : K c₀.state) (hkeep : ∀ name s s', P.guarantee name s s' → K s → K s') : K c.state := by
  induction hrun with
  | refl => exact hK
  | step run next ok ih => exact hkeep _ _ _ (run_step_guarantee run hi h₀ next ok) ih

/-- What every step keeps of the entries the threads have appended to a log, and of the state. -/
theorem run_signed {α : Type} {log : σ → List α} {K : List (ι × α) → σ → Prop}
    {c₀ c : Config ι σ ε} {ps : List Pick} (hallowed : ∀ name s, P.allowed name s)
    (hrun : c₀.follow ps = some c) (hi : P.inv c₀.state)
    (h₀ : ∀ thread ∈ c₀.threads, Stable P thread c₀.state) (hK : K [] c₀.state)
    (hkeep : ∀ name s s' entries, P.guarantee name s s' → K entries s →
      K (entries ++ ((log s').drop (log s).length).map (Prod.mk name)) s') :
    K (c₀.signed log ps) c.state := by
  induction ps using List.reverseRecOn generalizing c with
  | nil =>
      cases hrun
      exact hK
  | append_singleton ps p ih =>
      obtain ⟨d, name, hd, hs⟩ := follow_concat.mp hrun
      have hreaches : Reaches P.allowed c₀ d :=
        (reaches_of_follow hd).mono fun name s _ => hallowed name s
      rw [Config.signed_concat hd hs]
      exact hkeep name _ _ _
        (run_step_guarantee hreaches hi h₀ hs (hallowed name d.state)) (ih hd)

/-! ## Programs -/

variable {α β : Type} {name : ι}

variable (P) in
/-- Started within a block in a state with `pre`, the program hands over to its continuation in a
state with `post`, within the same block or a later one. -/
def Triple (name : ι) (pre : σ → Prop) (p : Proc ι σ ε α) (post : α → σ → Prop) : Prop :=
  ∀ (k : α → Code ι σ ε) (s₀ s : σ), P.inv s₀ → P.allowed name s₀ → P.guarantee name s₀ s →
    pre s →
    (∀ a s₀' s', P.inv s₀' → P.allowed name s₀' → P.guarantee name s₀' s' → post a s' →
      Safe P (k a) name s₀' s') →
    Safe P (p k) name s₀ s

theorem triple_pure {a : α} {pre : σ → Prop} {post : α → σ → Prop}
    (hpost : ∀ s, pre s → post a s) : Triple P name pre (pure a : Proc ι σ ε α) post :=
  fun _ _ s hi ha hg hpre hk => hk a _ s hi ha hg (hpost s hpre)

theorem triple_bind {p : Proc ι σ ε α} {f : α → Proc ι σ ε β} {pre : σ → Prop}
    {mid : α → σ → Prop} {post : β → σ → Prop} (hp : Triple P name pre p mid)
    (hf : ∀ a, Triple P name (mid a) (f a) post) : Triple P name pre (p >>= f) post := by
  intro k s₀ s hi ha hg hpre hk
  apply hp _ s₀ s hi ha hg hpre
  intro a s₀' s' hi' ha' hg' hmid
  exact hf a k s₀' s' hi' ha' hg' hmid hk

theorem triple_atomically {f : σ → α × σ} {pre : σ → Prop} {post : α → σ → Prop}
    (hf : ∀ s, pre s → P.guarantee name s (f s).2 ∧ post (f s).1 (f s).2) :
    Triple P name pre (Proc.atomically f : Proc ι σ ε α) post := by
  intro k s₀ s hi ha hg hpre hk
  exact hk _ _ _ hi ha (P.guarantee_trans hg (hf s hpre).1) (hf s hpre).2

theorem triple_raise {exc : ε} {pre : σ → Prop} {post : α → σ → Prop}
    (hpre : ∀ s, pre s → P.inv s) :
    Triple P name pre (Proc.raise exc : Proc ι σ ε α) post :=
  fun _ _ s _ _ hg h _ => ⟨hpre s h, hg⟩

theorem triple_awaiting {ready : σ → Bool} {pre : σ → Prop} {post : Unit → σ → Prop}
    (hpre : ∀ s, pre s → P.inv s)
    (hpost : ∀ s s', pre s → P.inv s' → P.rely s s' → P.allowed name s' → ready s' →
      post () s') :
    Triple P name pre (Proc.awaiting ready : Proc ι σ ε Unit) post := by
  intro k s₀ s _ _ hg h hk
  refine ⟨⟨hpre s h, hg⟩, ?_⟩
  intro s' hi' hr ha' hready
  exact hk () s' s' hi' ha' (P.guarantee_refl _ _) (hpost s s' h hi' hr ha' hready)

theorem triple_suspend {pre : σ → Prop} {post : Unit → σ → Prop}
    (hpre : ∀ s, pre s → P.inv s)
    (hpost : ∀ s s', pre s → P.inv s' → P.rely s s' → P.allowed name s' → post () s') :
    Triple P name pre (Proc.suspend : Proc ι σ ε Unit) post :=
  triple_awaiting hpre fun s s' h hi hr ha _ => hpost s s' h hi hr ha

theorem triple_awaitingOr {ready : σ → Bool} {pre : σ → Prop} {post : Bool → σ → Prop}
    (hpre : ∀ s, pre s → P.inv s)
    (hpost : ∀ s s' b, pre s → P.inv s' → P.rely s s' → P.allowed name s' →
      (b = true → ready s') → post b s') :
    Triple P name pre (Proc.awaitingOr ready : Proc ι σ ε Bool) post := by
  intro k s₀ s _ _ hg h hk
  refine ⟨⟨hpre s h, hg⟩, ?_⟩
  intro s' hi' hr ha'
  refine ⟨fun hready => ?_, ?_⟩
  · exact hk true s' s' hi' ha' (P.guarantee_refl _ _)
      (hpost s s' true h hi' hr ha' fun _ => hready)
  · exact hk false s' s' hi' ha' (P.guarantee_refl _ _)
      (hpost s s' false h hi' hr ha' fun hb => nomatch hb)

/-- A thread with this code may be picked in any state of the invariant. -/
theorem stable_code {p : Proc ι σ ε Unit} {pre : σ → Prop} {post : Unit → σ → Prop}
    (hp : Triple P name pre p post) (hpre : ∀ s, P.inv s → P.allowed name s → pre s)
    (hpost : ∀ s, post () s → P.inv s) (s : σ) : Stable P (name, p.code) s := by
  intro s' hi _ ha
  apply hp _ s' s' hi ha (P.guarantee_refl _ _) (hpre s' hi ha)
  intro _ s₀ s'' _ _ hg h
  exact ⟨hpost s'' h, hg⟩

theorem triple_spawn {childName : ι} {child : Proc ι σ ε Unit} {pre childPre : σ → Prop}
    {childPost : Unit → σ → Prop} (hchild : Triple P childName childPre child childPost)
    (hpre : ∀ s, P.inv s → P.allowed childName s → childPre s)
    (hpost : ∀ s, childPost () s → P.inv s) :
    Triple P name pre (Proc.spawn childName child : Proc ι σ ε Unit) (fun _ => pre) := by
  intro k s₀ s hi ha hg h hk
  refine ⟨?_, hk () s₀ s hi ha hg h⟩
  intro s' hi' hr ha'
  exact stable_code hchild hpre hpost s₀ s' hi' hr ha'

/-! ## Programs that keep the invariant -/

variable (P) in
/-- Started in a state of the invariant, the program hands over in one. -/
def Preserves (name : ι) (p : Proc ι σ ε α) : Prop := Triple P name P.inv p fun _ => P.inv

theorem preserves_pure (a : α) : Preserves P name (pure a : Proc ι σ ε α) :=
  triple_pure fun _ h => h

theorem preserves_bind {p : Proc ι σ ε α} {f : α → Proc ι σ ε β} (hp : Preserves P name p)
    (hf : ∀ a, Preserves P name (f a)) : Preserves P name (p >>= f) :=
  triple_bind hp hf

/-- What the first program is known to return may be used of the second. -/
theorem preserves_bind_of {p : Proc ι σ ε α} {f : α → Proc ι σ ε β} {Q : α → Prop}
    (hp : Triple P name P.inv p fun a s => P.inv s ∧ Q a)
    (hf : ∀ a, Q a → Preserves P name (f a)) : Preserves P name (p >>= f) := by
  apply triple_bind hp
  intro a k s₀ s hi ha hg h hk
  exact hf a h.2 k s₀ s hi ha hg h.1 hk

theorem preserves_ite_of {c : Prop} [Decidable c] {p q : Proc ι σ ε α}
    (hp : c → Preserves P name p) (hq : ¬ c → Preserves P name q) :
    Preserves P name (if c then p else q) := by
  by_cases h : c
  · rw [if_pos h]
    exact hp h
  · rw [if_neg h]
    exact hq h

theorem preserves_ite {c : Prop} [Decidable c] {p q : Proc ι σ ε α} (hp : Preserves P name p)
    (hq : Preserves P name q) : Preserves P name (if c then p else q) :=
  preserves_ite_of (fun _ => hp) fun _ => hq

theorem preserves_raise (exc : ε) : Preserves P name (Proc.raise exc : Proc ι σ ε α) :=
  triple_raise fun _ h => h

theorem preserves_suspend : Preserves P name (Proc.suspend : Proc ι σ ε Unit) :=
  triple_suspend (fun _ h => h) fun _ _ _ hi _ _ => hi

theorem preserves_awaiting (ready : σ → Bool) :
    Preserves P name (Proc.awaiting ready : Proc ι σ ε Unit) :=
  triple_awaiting (fun _ h => h) fun _ _ _ hi _ _ _ => hi

theorem preserves_awaitingOr (ready : σ → Bool) :
    Preserves P name (Proc.awaitingOr ready : Proc ι σ ε Bool) :=
  triple_awaitingOr (fun _ h => h) fun _ _ _ _ hi _ _ _ => hi

theorem preserves_spawn {childName : ι} {child : Proc ι σ ε Unit}
    (hchild : Preserves P childName child) :
    Preserves P name (Proc.spawn childName child : Proc ι σ ε Unit) :=
  triple_spawn hchild (fun _ h _ => h) fun _ h => h

theorem preserves_spawn_of_stable {childName : ι} {child : Proc ι σ ε Unit}
    (hchild : ∀ s, Stable P (childName, child.code) s) :
    Preserves P name (Proc.spawn childName child : Proc ι σ ε Unit) := by
  intro k s₀ s hi ha hg h hk
  exact ⟨hchild s₀, hk () s₀ s hi ha hg h⟩

theorem preserves_asyncFor {ready : ℕ → σ → Bool} {body : α → Proc ι σ ε Unit} {items : List α}
    (hbody : ∀ item ∈ items, Preserves P name (body item)) (i : ℕ) :
    Preserves P name (Proc.asyncFor ready body i items) := by
  induction items generalizing i with
  | nil => exact preserves_pure ()
  | cons item items ih =>
      apply preserves_bind (preserves_awaiting _)
      intro _
      apply preserves_bind (hbody item List.mem_cons_self)
      intro _
      exact ih (fun other hm => hbody other (List.mem_cons_of_mem _ hm)) _

theorem preserves_atomically {f : σ → α × σ}
    (hf : ∀ s, P.inv s → P.guarantee name s (f s).2 ∧ P.inv (f s).2) :
    Preserves P name (Proc.atomically f : Proc ι σ ε α) :=
  triple_atomically hf

theorem stable_of_preserves {p : Proc ι σ ε Unit} (h : Preserves P name p) (s : σ) :
    Stable P (name, p.code) s :=
  stable_code h (fun _ h _ => h) (fun _ h => h) s

end Coroutine
