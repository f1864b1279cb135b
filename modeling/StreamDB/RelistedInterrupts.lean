import StreamDB.InterruptKeys

/-!
# Interrupts that are listed again

An open interrupt is listed by the live run, by the restore and by a resumed run, with others
before it or without. Its row has one id in two listings when it is the first of its raw id in
both or in neither, and, if it has no tool call id, has as many of them before it.
-/

namespace StreamDB

/-- How many interrupts before position `i` share the raw id. -/
def earlierOf (rawId : String) (interrupts : List Interrupt) (i : ℕ) : ℕ :=
  ((interrupts.take i).map Interrupt.rawId).count rawId

def rowIdAt (rt : Runtime) (uuids : ℕ) (threadId : String) (interrupts : List Interrupt)
    (i : ℕ) : Option PyValue :=
  (agUiInterruptRows rt uuids threadId interrupts)[i]?.bind fun row => row.2.get "id"

def Listable (interrupts : List Interrupt) : Prop :=
  ∀ interrupt ∈ interrupts, dictPayload interrupt ≠ none ∧ interrupt.rawId ≠ ""

theorem rowIdAt_eq (rt : Runtime) (uuids : ℕ) (threadId : String) {interrupts : List Interrupt}
    (h : Listable interrupts) {i : ℕ} {x : Interrupt} (hx : interrupts[i]? = some x) :
    rowIdAt rt uuids threadId interrupts i =
      some (.str (Interrupt.rekeying.key (x, earlierOf x.rawId interrupts i))) := by
  have hkeys : (agUiInterruptRows rt uuids threadId interrupts).map Prod.fst =
      (counted interrupts).map Interrupt.rekeying.key :=
    keys_interruptRowsFrom rt threadId (fun _ => rfl) uuids (fun i hi => (h i hi).1)
      fun i hi => (h i hi).2
  have hcounted : (counted interrupts)[i]? = some (x, earlierOf x.rawId interrupts i) := by
    rw [counted, Rekeying.getElem?_numberFrom, hx, Option.map_some, List.count_nil, Nat.zero_add]
    rfl
  have hkey := congrArg (fun keys => keys[i]?) hkeys
  simp only [List.getElem?_map, hcounted, Option.map_some, Option.map_eq_some_iff] at hkey
  obtain ⟨row, hrow, hid⟩ := hkey
  rw [rowIdAt, hrow, Option.bind_some,
    id_interruptRowsFrom _ _ _ _ _ row (List.mem_of_getElem? hrow), hid]

theorem suffix_eq_iff (x : Interrupt) (m n : ℕ) :
    x.suffix m = x.suffix n ↔ (x.toolCallId = none → m = n) := by
  rw [Interrupt.suffix, Interrupt.suffix]
  cases x.toolCallId with
  | none => exact ⟨fun h _ => toString_injective h, fun h => congrArg toString (h rfl)⟩
  | some tool => simp

/-- An interrupt that is listed twice has one row id if and only if it is the first of its raw id
in both lists or in neither and, without a tool call id, at the same place among them. -/
theorem row_id_kept_iff (rt : Runtime) (uuids uuids' : ℕ) (threadId : String)
    {xs ys : List Interrupt} (hxs : Listable xs) (hys : Listable ys) {i j : ℕ} {x : Interrupt}
    (hi : xs[i]? = some x) (hj : ys[j]? = some x) :
    rowIdAt rt uuids threadId xs i = rowIdAt rt uuids' threadId ys j ↔
      (earlierOf x.rawId xs i = 0 ↔ earlierOf x.rawId ys j = 0) ∧
        (x.toolCallId = none → earlierOf x.rawId xs i = earlierOf x.rawId ys j) := by
  rw [rowIdAt_eq rt uuids threadId hxs hi, rowIdAt_eq rt uuids' threadId hys hj,
    Option.some.injEq, PyValue.str.injEq, Rekeying.key_eq_key_iff]
  apply and_congr_right
  intro hfirst
  change (_ → _ → x.suffix _ = x.suffix _) ↔ _
  rw [suffix_eq_iff]
  constructor
  · intro h hnone
    rcases Nat.eq_zero_or_pos (earlierOf x.rawId xs i) with hzero | hpos
    · rw [hzero, hfirst.mp hzero]
    · exact h hpos (by omega) hnone
  · exact fun h _ _ => h

theorem listable_repeated (toolCallIds : List (Option String)) :
    Listable (toolCallIds.map repeated) := by
  intro interrupt hmem
  obtain ⟨toolCallId, _, rfl⟩ := List.mem_map.mp hmem
  simp [repeated, dictPayload, Interrupt.rawId]

def twoCalls : List Interrupt := [some "call-1", some "call-2"].map repeated

theorem row_id_kept_iff_twoCalls :
    rowIdAt plainRuntime 0 "t" twoCalls 1 = rowIdAt plainRuntime 0 "t" twoCalls.reverse 0 ↔
      (earlierOf "dup" twoCalls 1 = 0 ↔ earlierOf "dup" twoCalls.reverse 0 = 0) ∧
        ((repeated (some "call-2")).toolCallId = none →
          earlierOf "dup" twoCalls 1 = earlierOf "dup" twoCalls.reverse 0) :=
  have hlast : twoCalls[1]? = some (repeated (some "call-2")) := rfl
  row_id_kept_iff plainRuntime 0 0 "t" (listable_repeated [some "call-1", some "call-2"])
    (listable_repeated [some "call-2", some "call-1"]) hlast rfl

/-- Once the first of two interrupts with one raw id has been answered, the other is listed under
the raw id. -/
theorem not_row_id_kept :
    ¬ ∀ (rt : Runtime) (uuids uuids' : ℕ) (threadId : String) (xs ys : List Interrupt)
      (i j : ℕ) (x : Interrupt), Listable xs → Listable ys →
      (xs.map Interrupt.toolCallId).Nodup → (ys.map Interrupt.toolCallId).Nodup →
      xs[i]? = some x → ys[j]? = some x →
      rowIdAt rt uuids threadId xs i = rowIdAt rt uuids' threadId ys j := by
  intro h
  have hboth : Listable twoCalls := listable_repeated [some "call-1", some "call-2"]
  have hone := listable_repeated [some "call-2"]
  have hkept := h plainRuntime 0 0 "t" _ _ 1 0 _ hboth hone (by decide) (by decide) rfl rfl
  rw [rowIdAt_eq plainRuntime 0 "t" hboth rfl, rowIdAt_eq plainRuntime 0 "t" hone rfl,
    Option.some.injEq, PyValue.str.injEq] at hkept
  revert hkept
  decide

end StreamDB
