import StreamDB.FirstSeen
import StreamDB.StateProtocol

/-!
# First-seen numbers stamped on rows

A counter stamps the selected rows of a log: each key is numbered at its first row, every later
row of the key repeats the number, and the counter has met exactly the keys that have a row.
-/

namespace StreamDB

open FirstSeen

def selectedKeys (sel : Frame → Bool) (frames : List Frame) : List String :=
  (frames.filter sel).map Frame.key

theorem selectedKeys_append (sel : Frame → Bool) (frames later : List Frame) :
    selectedKeys sel (frames ++ later) = selectedKeys sel frames ++ selectedKeys sel later := by
  rw [selectedKeys, List.filter_append, List.map_append]
  rfl

structure Stamps (sel : Frame → Bool) (number : Frame → Option ℤ) (start : ℤ)
    (d : OrderedDict String ℤ) (next : ℤ) (frames : List Frame) : Prop where
  numbered : Numbered start d next
  keys_eq : d.keys = firstSeen (selectedKeys sel frames)
  stamped : ∀ f ∈ frames, sel f → ∃ o, number f = some o ∧ d.get f.key = some o

namespace Stamps

variable {sel : Frame → Bool} {number : Frame → Option ℤ} {start next : ℤ}
  {d : OrderedDict String ℤ} {frames : List Frame}

theorem nil (start : ℤ) : Stamps sel number start .empty start [] :=
  ⟨numbered_empty start, rfl, by simp⟩

/-- A selected row carries the number its key is assigned. -/
theorem write (h : Stamps sel number start d next frames) {f : Frame} (hsel : sel f)
    (hnum : number f = some (assign d next f.key).1) :
    Stamps sel number start (assign d next f.key).2.1 (assign d next f.key).2.2
      (frames ++ [f]) := by
  have hkeys := assign_keys next h.keys_eq f.key
  refine ⟨h.numbered.assign f.key, ?_, ?_⟩
  · simpa [selectedKeys, List.filter_append, hsel] using hkeys
  · intro g hg hgsel
    rcases List.mem_append.mp hg with hg | hg
    · obtain ⟨o, ho, hd⟩ := h.stamped g hg hgsel
      exact ⟨o, ho, assign_extends d next f.key g.key o hd⟩
    · rw [List.mem_singleton.mp hg]
      exact ⟨_, hnum, assign_get d next f.key⟩

/-- A row of another kind leaves the counter alone. -/
theorem skip (h : Stamps sel number start d next frames) {f : Frame} (hsel : sel f = false) :
    Stamps sel number start d next (frames ++ [f]) := by
  refine ⟨h.numbered, ?_, ?_⟩
  · simpa [selectedKeys, List.filter_append, hsel] using h.keys_eq
  · intro g hg hgsel
    rcases List.mem_append.mp hg with hg | hg
    · exact h.stamped g hg hgsel
    · rw [List.mem_singleton.mp hg, hsel] at hgsel
      cases hgsel

/-- A key has one number on all its rows. -/
theorem number_unique (h : Stamps sel number start d next frames) {f g : Frame}
    (hf : f ∈ frames) (hg : g ∈ frames) (hfsel : sel f) (hgsel : sel g) (hk : f.key = g.key) :
    number f = number g := by
  obtain ⟨o, ho, hd⟩ := h.stamped f hf hfsel
  obtain ⟨o', ho', hd'⟩ := h.stamped g hg hgsel
  rw [hk, hd'] at hd
  rw [ho, ho', hd]

theorem number_bounds (h : Stamps sel number start d next frames) {f : Frame} (hf : f ∈ frames)
    (hsel : sel f) : ∃ o, number f = some o ∧ start ≤ o ∧ o < next := by
  obtain ⟨o, ho, hd⟩ := h.stamped f hf hsel
  exact ⟨o, ho, h.numbered.get_bounds hd⟩

theorem size_eq (h : Stamps sel number start d next frames) :
    d.size = (firstSeen (selectedKeys sel frames)).length := by
  rw [← OrderedDict.length_keys, h.keys_eq]

theorem values_eq (h : Stamps sel number start d next frames) :
    d.values = (List.range (firstSeen (selectedKeys sel frames)).length).map
      fun i : ℕ => start + i := by
  rw [← h.size_eq]
  exact h.numbered.values_eq

/-- The counter stands at its start plus the number of distinct keys. -/
theorem next_eq (h : Stamps sel number start d next frames) :
    next = start + (firstSeen (selectedKeys sel frames)).length := by
  rw [h.numbered.next_eq, h.size_eq]

/-- The highest number handed out is on a row. -/
theorem exists_last (h : Stamps sel number start d next frames) (hlt : start < next) :
    ∃ f ∈ frames, sel f ∧ number f = some (next - 1) := by
  obtain ⟨k, hk⟩ := h.numbered.exists_key (o := next - 1) (by omega) (by omega)
  have hm := OrderedDict.mem_keys_of_get hk
  rw [h.keys_eq, mem_firstSeen, selectedKeys, List.mem_map] at hm
  obtain ⟨f, hf, rfl⟩ := hm
  obtain ⟨hf, hsel⟩ := List.mem_filter.mp hf
  obtain ⟨o, ho, hd⟩ := h.stamped f hf hsel
  rw [hk] at hd
  exact ⟨f, hf, hsel, by rw [ho, Option.some.inj hd]⟩

end Stamps

end StreamDB
