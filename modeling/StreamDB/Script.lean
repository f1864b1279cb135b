import StreamDB.Ownership

/-!
# Programs that write a log of their own

The part of the state that a thread owns is a log. A `Script` is the sequential meaning of a
program of the owner: the entries it adds, and the exception it then fails with, if any. However
the other threads are interleaved with it, the log shows the first entries of the whole script,
and all of them once the owner has ended.
-/

namespace Coroutine

structure Script (μ ε : Type) where
  entries : List μ
  failure : Option ε

namespace Script

variable {ι σ ε π μ α β : Type}

def done : Script μ ε := ⟨[], none⟩

def entry (m : μ) : Script μ ε := ⟨[m], none⟩

def fail (exc : ε) : Script μ ε := ⟨[], some exc⟩

/-- The second script follows if the first has not failed. -/
def andThen (r r' : Script μ ε) : Script μ ε :=
  match r.failure with
  | none => ⟨r.entries ++ r'.entries, r'.failure⟩
  | some exc => ⟨r.entries, some exc⟩

def forEach (f : α → Script μ ε) : List α → Script μ ε
  | [] => done
  | item :: items => (f item).andThen (forEach f items)

theorem andThen_assoc (r r' r'' : Script μ ε) :
    (r.andThen r').andThen r'' = r.andThen (r'.andThen r'') := by
  obtain ⟨es, failure⟩ := r
  obtain ⟨es', failure'⟩ := r'
  cases failure with
  | some exc => rfl
  | none =>
      cases failure' with
      | some exc => rfl
      | none => simp [andThen]

theorem andThen_done (r : Script μ ε) : r.andThen done = r := by
  obtain ⟨es, failure⟩ := r
  cases failure with
  | some exc => rfl
  | none => simp [andThen, done]

theorem andThen_of_silent {r : Script μ ε} (hentries : r.entries = []) (hfailure : r.failure = none)
    (r' : Script μ ε) : r.andThen r' = r' := by
  rw [andThen, hfailure]
  change Script.mk _ _ = _
  rw [hentries, List.nil_append]

theorem entries_andThen_eq_nil {r r' : Script μ ε} (h : r.entries = []) (h' : r'.entries = []) :
    (r.andThen r').entries = [] := by
  rw [andThen]
  cases r.failure with
  | none => exact List.append_eq_nil_iff.mpr ⟨h, h'⟩
  | some exc => exact h

theorem forEach_append (f : α → Script μ ε) (items items' : List α) :
    forEach f (items ++ items') = (forEach f items).andThen (forEach f items') := by
  induction items with
  | nil => simp [forEach, done, andThen]
  | cons item items ih => rw [List.cons_append, forEach, forEach, ih, andThen_assoc]

theorem forEach_entry (f : α → μ) (items : List α) :
    forEach (fun item => (entry (f item) : Script μ ε)) items = ⟨items.map f, none⟩ := by
  induction items with
  | nil => rfl
  | cons item items ih =>
      rw [forEach, ih]
      rfl

/-- Items that add no entries may still fail. -/
theorem entries_forEach_eq_nil {f : α → Script μ ε} {items : List α}
    (h : ∀ item ∈ items, (f item).entries = []) : (forEach f items).entries = [] := by
  induction items with
  | nil => rfl
  | cons item items ih =>
      rw [List.forall_mem_cons] at h
      exact entries_andThen_eq_nil h.1 (ih h.2)

theorem failure_of_forEach {f : α → Script μ ε} {items : List α} {exc : ε}
    (h : (forEach f items).failure = some exc) : ∃ item ∈ items, (f item).failure = some exc := by
  induction items with
  | nil => cases h
  | cons item items ih =>
      rw [forEach, andThen] at h
      cases hfailure : (f item).failure with
      | some exc' =>
          rw [hfailure] at h
          exact ⟨item, List.mem_cons_self, hfailure.trans h⟩
      | none =>
          rw [hfailure] at h
          obtain ⟨other, hmem, hother⟩ := ih h
          exact ⟨other, List.mem_cons_of_mem _ hmem, hother⟩

/-- The part shows the entries of a script, the first ones while the owner is suspended and all of
them when it has ended. -/
structure Logs (O : Ownership ι σ ε π) (shows : List μ → π → Prop) (whole : Script μ ε) :
    Prop where
  mid : ∀ es v, es <+: whole.entries → shows es v → O.mid v
  ends : ∀ v, shows whole.entries v → O.ends whole.failure v

/-- The log shows the given entries. -/
def At (O : Ownership ι σ ε π) (shows : List μ → π → Prop) (es : List μ) (s : σ) : Prop :=
  O.env.inv s ∧ shows es (O.part s)

/-- Wherever it stands in the whole script, the program adds the entries of its own script and
fails when that does. -/
def Performs (O : Ownership ι σ ε π) (shows : List μ → π → Prop) (whole : Script μ ε)
    (p : Proc ι σ ε Unit) (r : Script μ ε) : Prop :=
  ∀ es later, whole = (⟨es, none⟩ : Script μ ε).andThen (r.andThen later) →
    Runs O (At O shows es) p fun _ s => r.failure = none ∧ At O shows (es ++ r.entries) s

variable {O : Ownership ι σ ε π} {shows : List μ → π → Prop} {whole : Script μ ε}

/-- A program that is followed from every part can be followed from a set of parts. -/
theorem runs_at {p : Proc ι σ ε α} {es : List μ} (es' : List μ)
    (h : ∀ v, shows es v → Runs O (Holds O v) p fun _ => At O shows es') :
    Runs O (At O shows es) p fun _ => At O shows es' :=
  fun k s hs hk => h _ hs.2 k s ⟨hs.1, rfl⟩ hk

theorem prefix_entries {es : List μ} {r : Script μ ε}
    (h : whole = (⟨es, none⟩ : Script μ ε).andThen r) : es <+: whole.entries := by
  rw [h]
  exact List.prefix_append _ _

theorem runs_awaiting_at (hlogs : Logs O shows whole) {es : List μ} (hes : es <+: whole.entries)
    (ready : σ → Bool) : Runs O (At O shows es) (Proc.awaiting ready : Proc ι σ ε Unit)
      fun _ => At O shows es :=
  runs_at es fun v hv => (runs_awaiting (hlogs.mid es v hes hv)).weaken fun _ s hs =>
    ⟨hs.1, by rw [hs.2]; exact hv⟩

theorem performs_pure : Performs O shows whole (pure ()) done := by
  intro es _ _
  refine runs_pure fun s hs => ⟨rfl, ?_⟩
  rw [done, List.append_nil]
  exact hs

theorem performs_raise (hlogs : Logs O shows whole) (exc : ε) :
    Performs O shows whole (Proc.raise exc) (fail exc) := by
  intro es later hwhole k s hs hk
  have hentries : whole = ⟨es, some exc⟩ := by
    rw [hwhole]
    simp [andThen, fail]
  have hshows : shows whole.entries (O.part s) := by
    rw [hentries]
    exact hs.2
  have hends := hlogs.ends _ hshows
  rw [hentries] at hends
  exact ⟨⟨hs.1, hlogs.mid _ _ List.prefix_rfl hshows⟩, hends⟩

theorem performs_bind {p : Proc ι σ ε Unit} {f : Unit → Proc ι σ ε Unit} {r r' : Script μ ε}
    (hp : Performs O shows whole p r) (hf : Performs O shows whole (f ()) r') :
    Performs O shows whole (p >>= f) (r.andThen r') := by
  intro es later hwhole
  rw [andThen_assoc] at hwhole
  refine runs_bind (hp es _ hwhole) fun _ => ?_
  cases hfailure : r.failure with
  | some exc => exact fun _ _ hs => nomatch hs.1
  | none =>
      have hwhole' : whole =
          (⟨es ++ r.entries, none⟩ : Script μ ε).andThen (r'.andThen later) := by
        rw [hwhole]
        simp [andThen, hfailure]
      intro k s hs hk
      refine hf _ later hwhole' k s hs.2 fun _ s' hs' => hk () s' ?_
      simp only [andThen, hfailure, ← List.append_assoc]
      exact hs'

/-- A program that adds nothing may come first. -/
theorem performs_done_bind {p : Proc ι σ ε Unit} {f : Unit → Proc ι σ ε Unit} {r : Script μ ε}
    (hp : Performs O shows whole p done) (hf : Performs O shows whole (f ()) r) :
    Performs O shows whole (p >>= f) r := performs_bind hp hf

theorem performs_ite {c : Prop} [Decidable c] {p q : Proc ι σ ε Unit} {r r' : Script μ ε}
    (hp : c → Performs O shows whole p r) (hq : Performs O shows whole q r') :
    Performs O shows whole (if c then p else q) (if c then r else r') := by
  by_cases h : c
  · rw [if_pos h, if_pos h]
    exact hp h
  · rw [if_neg h, if_neg h]
    exact hq

/-- Items that are handled one after the other, as soon as they are there. -/
theorem performs_asyncFor (hlogs : Logs O shows whole) {ready : ℕ → σ → Bool}
    {body : α → Proc ι σ ε Unit} {f : α → Script μ ε} (i : ℕ) {items : List α}
    (hbody : ∀ item ∈ items, Performs O shows whole (body item) (f item)) :
    Performs O shows whole (Proc.asyncFor ready body i items) (forEach f items) := by
  induction items generalizing i with
  | nil => exact performs_pure
  | cons item items ih =>
      have hhere := performs_bind (hbody item List.mem_cons_self)
        (f := fun _ => Proc.asyncFor ready body (i + 1) items)
        (ih (i + 1) fun other hm => hbody other (List.mem_cons_of_mem _ hm))
      intro es later hwhole
      exact runs_bind (runs_awaiting_at hlogs (prefix_entries hwhole) _) fun _ =>
        hhere es later hwhole

/-- A program that performs the whole script. -/
theorem runs_of_performs (hlogs : Logs O shows whole) {p : Proc ι σ ε Unit}
    (hp : Performs O shows whole p whole) {v : π} (hv : shows [] v) :
    Runs O (Holds O v) p fun _ s => O.Rests s ∧ O.ends none (O.part s) := by
  have hwhole : whole = (⟨[], none⟩ : Script μ ε).andThen (whole.andThen done) := by
    rw [andThen_done]
    rfl
  rintro k s ⟨hi, rfl⟩ hk
  refine hp [] done hwhole k s ⟨hi, hv⟩ fun _ s' hend => hk () s' ?_
  obtain ⟨hfailure, hi', hshows⟩ := hend
  rw [List.nil_append] at hshows
  have hends := hlogs.ends _ hshows
  rw [hfailure] at hends
  exact ⟨⟨hi', hlogs.mid _ _ List.prefix_rfl hshows⟩, hends⟩

theorem owned_of_performs (hlogs : Logs O shows whole) {p : Proc ι σ ε Unit}
    (hp : Performs O shows whole p whole) {s : σ} (hs : shows [] (O.part s)) :
    Owned O p.code s :=
  owned_code (runs_of_performs hlogs hp hs) (fun _ h => h) rfl

end Script

end Coroutine
