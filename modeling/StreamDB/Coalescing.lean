import Mathlib.Data.List.Forall2
import Mathlib.Data.List.Induction

/-!
# Coalesced streams

A writer that coalesces cuts a stream of tokens into pieces, each of which goes out under the next
number. A later stream under the same numbers is laid over the earlier ones.
-/

namespace Coalescing

variable {α β : Type}

/-- What is pending goes out as soon as it has `limit` elements, and what is left at the end. -/
def pieces (limit : ℕ) : List α → List (List α) → List (List α)
  | pending, [] => if pending.isEmpty then [] else [pending]
  | pending, token :: tokens =>
      if limit ≤ (pending ++ token).length then (pending ++ token) :: pieces limit [] tokens
      else pieces limit (pending ++ token) tokens

variable {limit : ℕ}

/-- Nothing is lost or repeated. -/
theorem flatten_pieces (pending : List α) (tokens : List (List α)) :
    (pieces limit pending tokens).flatten = pending ++ tokens.flatten := by
  induction tokens generalizing pending with
  | nil =>
      cases pending with
      | nil => rfl
      | cons a pending => simp [pieces]
  | cons token tokens ih =>
      rw [pieces]
      split_ifs
      · rw [List.flatten_cons, ih, List.nil_append, List.flatten_cons, List.append_assoc]
      · rw [ih, List.flatten_cons, List.append_assoc]

theorem ne_nil_of_mem_pieces (hlimit : 0 < limit) (pending : List α) (tokens : List (List α)) :
    ∀ piece ∈ pieces limit pending tokens, piece ≠ [] := by
  induction tokens generalizing pending with
  | nil =>
      cases pending with
      | nil => simp [pieces]
      | cons a pending => simp [pieces]
  | cons token tokens ih =>
      rw [pieces]
      split_ifs with hlen
      · intro piece hpiece
        rcases List.mem_cons.mp hpiece with rfl | hpiece
        · exact List.ne_nil_of_length_pos (by omega)
        · exact ih [] piece hpiece
      · exact ih _

/-! ## Before the end -/

/-- One more token: the pieces that have gone out, and what is pending. -/
def push (limit : ℕ) (r : List (List α) × List α) (token : List α) : List (List α) × List α :=
  if limit ≤ (r.2 ++ token).length then (r.1 ++ [r.2 ++ token], []) else (r.1, r.2 ++ token)

def cut (limit : ℕ) (tokens : List (List α)) : List (List α) × List α :=
  tokens.foldl (push limit) ([], [])

theorem cut_concat (tokens : List (List α)) (token : List α) :
    cut limit (tokens ++ [token]) = push limit (cut limit tokens) token := by
  rw [cut, List.foldl_append]
  rfl

/-- At the end only what is pending is added. -/
theorem pieces_eq_cut (tokens : List (List α)) :
    pieces limit [] tokens = (cut limit tokens).1 ++ pieces limit (cut limit tokens).2 [] := by
  suffices hfold : ∀ r : List (List α) × List α, r.1 ++ pieces limit r.2 tokens =
      (tokens.foldl (push limit) r).1 ++ pieces limit (tokens.foldl (push limit) r).2 [] from
    hfold ([], [])
  induction tokens with
  | nil => exact fun _ => rfl
  | cons token tokens ih =>
      intro r
      rw [List.foldl_cons, ← ih, push, pieces]
      split_ifs
      · rw [List.append_assoc, List.singleton_append]
      · rfl

theorem flatten_cut (tokens : List (List α)) :
    (cut limit tokens).1.flatten ++ (cut limit tokens).2 = tokens.flatten := by
  induction tokens using List.reverseRecOn with
  | nil => rfl
  | append_singleton tokens token ih =>
      rw [cut_concat, List.flatten_append, List.flatten_singleton, ← ih, push]
      split_ifs
      · rw [List.flatten_append, List.flatten_singleton, List.append_nil, List.append_assoc]
      · rw [List.append_assoc]

theorem length_cut_lt (hlimit : 0 < limit) (tokens : List (List α)) :
    (cut limit tokens).2.length < limit := by
  induction tokens using List.reverseRecOn with
  | nil => exact hlimit
  | append_singleton tokens token ih =>
      rw [cut_concat, push]
      split_ifs with hlen
      · exact hlimit
      · exact Nat.lt_of_not_le hlen

theorem le_length_of_mem_cut (tokens : List (List α)) :
    ∀ piece ∈ (cut limit tokens).1, limit ≤ piece.length := by
  induction tokens using List.reverseRecOn with
  | nil => exact fun piece hpiece => absurd hpiece List.not_mem_nil
  | append_singleton tokens token ih =>
      rw [cut_concat, push]
      split_ifs with hlen
      · intro piece hpiece
        rcases List.mem_append.mp hpiece with hpiece | hpiece
        · exact ih piece hpiece
        · rw [List.mem_singleton.mp hpiece]
          exact hlen
      · exact ih

/-- Only the last piece may be short. -/
theorem le_length_of_mem_dropLast (tokens : List (List α)) :
    ∀ piece ∈ (pieces limit [] tokens).dropLast, limit ≤ piece.length := by
  intro piece hpiece
  rw [pieces_eq_cut, pieces] at hpiece
  split_ifs at hpiece
  · rw [List.append_nil] at hpiece
    exact le_length_of_mem_cut tokens piece (List.dropLast_subset _ hpiece)
  · rw [List.dropLast_concat] at hpiece
    exact le_length_of_mem_cut tokens piece hpiece

/-- What has gone out: the pieces so far, or all of them once the rest has landed. -/
def sent (limit : ℕ) (landed : Bool) (tokens : List (List α)) : List (List α) :=
  if landed then pieces limit [] tokens else (cut limit tokens).1

theorem ne_nil_of_mem_sent (hlimit : 0 < limit) (landed : Bool) (tokens : List (List α)) :
    ∀ piece ∈ sent limit landed tokens, piece ≠ [] := by
  cases landed with
  | true => exact ne_nil_of_mem_pieces hlimit [] tokens
  | false =>
      intro piece hpiece
      have hlen := le_length_of_mem_cut tokens piece hpiece
      exact List.ne_nil_of_length_pos (by omega)

theorem le_length_of_mem_dropLast_sent (landed : Bool) (tokens : List (List α)) :
    ∀ piece ∈ (sent limit landed tokens).dropLast, limit ≤ piece.length := by
  cases landed with
  | true => exact le_length_of_mem_dropLast tokens
  | false =>
      exact fun piece hpiece => le_length_of_mem_cut tokens piece (List.dropLast_subset _ hpiece)

/-- A rest shorter than a piece is all that is held back, and nothing once it has landed. -/
theorem flatten_sent (hlimit : 0 < limit) (landed : Bool) (tokens : List (List α)) :
    ∃ pending, tokens.flatten = (sent limit landed tokens).flatten ++ pending ∧
      pending.length < limit ∧ (landed = true → pending = []) := by
  cases landed with
  | true =>
      refine ⟨[], ?_, hlimit, fun _ => rfl⟩
      rw [sent, if_pos rfl, flatten_pieces, List.nil_append, List.append_nil]
  | false =>
      refine ⟨(cut limit tokens).2, ?_, length_cut_lt hlimit tokens, fun h => ?_⟩
      · rw [sent, if_neg Bool.false_ne_true, flatten_cut]
      · cases h

/-! ## Streams over one another -/

/-- A new stream over the first positions of an old one. -/
def overlay (old new : List β) : List β := new ++ old.drop new.length

def overlays (streams : List (List β)) : List β := streams.foldl overlay []

theorem overlays_concat (streams : List (List β)) (new : List β) :
    overlays (streams ++ [new]) = overlay (overlays streams) new := by
  rw [overlays, List.foldl_append]
  rfl

theorem getElem?_overlay (old new : List β) (i : ℕ) :
    (overlay old new)[i]? = (new[i]?).or old[i]? := by
  rw [overlay, List.getElem?_append]
  split_ifs with hlt
  · rw [List.getElem?_eq_getElem hlt]
    rfl
  · have hnew : new[i]? = none := List.getElem?_eq_none (by omega)
    have hi : new.length + (i - new.length) = i := by omega
    rw [List.getElem?_drop, hnew, Option.none_or, hi]

theorem length_overlay (old new : List β) :
    (overlay old new).length = max old.length new.length := by
  rw [overlay, List.length_append, List.length_drop]
  omega

theorem length_overlays_le {streams : List (List β)} {n : ℕ} :
    (overlays streams).length ≤ n ↔ ∀ stream ∈ streams, stream.length ≤ n := by
  induction streams using List.reverseRecOn with
  | nil => simp [overlays]
  | append_singleton streams new ih =>
      rw [overlays_concat, length_overlay, Nat.max_le, ih]
      simp [or_imp, forall_and]

theorem mem_overlays {streams : List (List β)} {b : β} (h : b ∈ overlays streams) :
    ∃ stream ∈ streams, b ∈ stream := by
  induction streams using List.reverseRecOn with
  | nil => cases h
  | append_singleton streams new ih =>
      rw [overlays_concat, overlay] at h
      rcases List.mem_append.mp h with h | h
      · exact ⟨new, by simp, h⟩
      · obtain ⟨stream, hstream, hb⟩ := ih (List.mem_of_mem_drop h)
        exact ⟨stream, List.mem_append_left _ hstream, hb⟩

theorem overlays_append_of_nil (streams : List (List β)) {later : List (List β)}
    (h : ∀ stream ∈ later, stream = []) : overlays (streams ++ later) = overlays streams := by
  induction later using List.reverseRecOn with
  | nil => rw [List.append_nil]
  | append_singleton later new ih =>
      rw [← List.append_assoc, overlays_concat, h new (by simp), overlay,
        ih fun stream hs => h stream (List.mem_append_left _ hs)]
      rfl

variable {R : α → β → Prop}

theorem forall₂_overlay {old new : List α} {old' new' : List β} (hold : List.Forall₂ R old old')
    (hnew : List.Forall₂ R new new') : List.Forall₂ R (overlay old new) (overlay old' new') := by
  rw [overlay, overlay, hnew.length_eq]
  exact List.rel_append hnew (List.forall₂_drop _ hold)

theorem forall₂_overlays {streams : List (List α)} {streams' : List (List β)}
    (h : List.Forall₂ (List.Forall₂ R) streams streams') :
    List.Forall₂ R (overlays streams) (overlays streams') := by
  suffices hfold : ∀ old old', List.Forall₂ R old old' →
      List.Forall₂ R (streams.foldl overlay old) (streams'.foldl overlay old') from
    hfold [] [] .nil
  induction h with
  | nil => exact fun _ _ h => h
  | cons hnew _ ih => exact fun old old' hold => ih _ _ (forall₂_overlay hold hnew)

end Coalescing
