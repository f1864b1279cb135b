import StreamDB.InterruptRows
import StreamDB.Rekeying

/-!
# Interrupts that share an id

Interrupts of parallel tool calls can share their raw id. All but the first are re-keyed, with
their tool call id or, failing that, an ordinal as the suffix. This tells them apart unless the
raw ids, the tool call ids and the ordinals run into each other.
-/

namespace StreamDB

namespace Interrupt

def rawId (interrupt : Interrupt) : String := interrupt.id.getD ""

def toolCallId (interrupt : Interrupt) : Option String :=
  (dictPayload interrupt).bind fun payload => (Entries.get payload "tool_call_id").nonemptyStr

/-- What an interrupt is re-keyed with, as the one after `earlier` others. -/
def suffix (interrupt : Interrupt) (earlier : ℕ) : String :=
  interrupt.toolCallId.getD (toString earlier)

def rekeying : Rekeying Interrupt String where
  separator := .ofChar ':'
  raw := rawId
  suffix := suffix

end Interrupt

theorem adapted_of_dict (rt : Runtime) (fresh : String) {interrupt : Interrupt}
    (hdict : dictPayload interrupt ≠ none) (hid : interrupt.rawId ≠ "") :
    ∃ item, langgraphInterruptToAgUiInterrupt rt fresh interrupt = some item ∧
      item.id = interrupt.rawId ∧ item.toolCallId = interrupt.toolCallId := by
  unfold langgraphInterruptToAgUiInterrupt Interrupt.toolCallId
  unfold dictPayload at hdict ⊢
  unfold Interrupt.rawId at hid ⊢
  cases hvalue : interrupt.value with
  | dict payload => exact ⟨_, rfl, by rw [if_neg hid], rfl⟩
  | _ => simp [hvalue] at hdict

/-! ## The keys of the rows -/

theorem keys_interruptRowsFrom (rt : Runtime) (threadId : String)
    {seen : OrderedDict String ℕ} {met : List String} (hseen : ∀ k, seen.getD k 0 = met.count k)
    (uuids : ℕ) {interrupts : List Interrupt}
    (hdict : ∀ interrupt ∈ interrupts, dictPayload interrupt ≠ none)
    (hid : ∀ interrupt ∈ interrupts, interrupt.rawId ≠ "") :
    (interruptRowsFrom rt threadId seen uuids interrupts).map Prod.fst =
      (Rekeying.numberFrom Interrupt.rawId met interrupts).map Interrupt.rekeying.key := by
  induction interrupts generalizing seen met uuids with
  | nil => rfl
  | cons interrupt interrupts ih =>
      obtain ⟨item, hitem, hraw, htool⟩ :=
        adapted_of_dict rt (rt.uuidHex uuids) (hdict _ (.head _)) (hid _ (.head _))
      have hseen' : ∀ k, (seen.set item.id (seen.getD item.id 0 + 1)).getD k 0 =
          (interrupt.rawId :: met).count k := by
        intro k
        rw [OrderedDict.getD_set, hraw, hseen, hseen, List.count_cons]
        by_cases hk : interrupt.rawId = k
        · simp [hk]
        · simp [hk]
      have htail := ih hseen' (if interrupt.id.getD "" = "" then uuids + 1 else uuids)
        (fun i hi => hdict i (.tail _ hi)) fun i hi => hid i (.tail _ hi)
      simp only [interruptRowsFrom, hitem, List.map_cons, Rekeying.numberFrom]
      rw [htail, hseen, hraw, htool]
      rfl

theorem id_row (item : AgUiInterrupt) (threadId : String) :
    (item.row threadId).get "id" = some (.str item.id) := by
  simp [AgUiInterrupt.row, OrderedDict.get_set, OrderedDict.get_setSome, OrderedDict.ofEntries]

theorem id_interruptRowsFrom (rt : Runtime) (threadId : String) (seen : OrderedDict String ℕ)
    (uuids : ℕ) (interrupts : List Interrupt) :
    ∀ row ∈ interruptRowsFrom rt threadId seen uuids interrupts,
      row.2.get "id" = some (.str row.1) := by
  induction interrupts generalizing seen uuids with
  | nil => exact fun _ h => nomatch h
  | cons interrupt interrupts ih =>
      intro row hrow
      rw [interruptRowsFrom] at hrow
      cases hitem : langgraphInterruptToAgUiInterrupt rt (rt.uuidHex uuids) interrupt with
      | none =>
          rw [hitem] at hrow
          exact ih _ _ row hrow
      | some item =>
          rw [hitem] at hrow
          rcases List.mem_cons.mp hrow with rfl | hrow
          · exact id_row _ threadId
          · exact ih _ _ row hrow

/-- A row is upserted under its own id. -/
theorem id_agUiInterruptRows (rt : Runtime) (uuids : ℕ) (threadId : String)
    (interrupts : List Interrupt) :
    (agUiInterruptRows rt uuids threadId interrupts).map (fun row => row.2.get "id") =
      ((agUiInterruptRows rt uuids threadId interrupts).map Prod.fst).map fun k =>
        some (.str k) := by
  rw [List.map_map]
  exact List.map_congr_left fun row hrow => id_interruptRowsFrom _ _ _ _ _ row hrow

/-! ## When they are distinct -/

/-- The interrupts, each with the number of earlier ones that share its raw id. -/
def counted (interrupts : List Interrupt) : List (Interrupt × ℕ) :=
  Rekeying.numberFrom Interrupt.rawId [] interrupts

/-- The raw ids, tool call ids and ordinals do not run into each other. -/
structure KeysApart (items : List (Interrupt × ℕ)) : Prop where
  /-- No raw id reads like a repeated one with the suffix of a repeat. -/
  raw : ∀ p ∈ items, ∀ q ∈ items, 0 < p.2 → q.1.rawId ≠ p.1.rawId ++ ":" ++ p.1.suffix p.2
  /-- No two repeats read alike where the raw id of one continues that of the other. -/
  nested : ∀ p ∈ items, ∀ q ∈ items, 0 < p.2 → 0 < q.2 → ∀ e,
    q.1.rawId = p.1.rawId ++ ":" ++ e → p.1.suffix p.2 ≠ e ++ ":" ++ q.1.suffix q.2
  /-- No tool call id reads like the ordinal of an interrupt with the same raw id and none. -/
  ordinal : ∀ p ∈ items, ∀ q ∈ items, 0 < p.2 → 0 < q.2 → p.1.rawId = q.1.rawId →
    q.1.toolCallId = none → p.1.toolCallId ≠ some (toString q.2)

/-- No two interrupts share both the raw id and a tool call id. -/
def ToolsApart (interrupts : List Interrupt) : Prop :=
  interrupts.Pairwise fun i j =>
    i.rawId = j.rawId → i.toolCallId = j.toolCallId → i.toolCallId = none

theorem eq_of_toolsApart {interrupts : List Interrupt} (h : ToolsApart interrupts)
    {p q : Interrupt × ℕ} (hp : p ∈ counted interrupts) (hq : q ∈ counted interrupts)
    (hraw : p.1.rawId = q.1.rawId) (htool : p.1.toolCallId = q.1.toolCallId)
    (hsome : p.1.toolCallId ≠ none) : p = q := by
  rw [ToolsApart, ← Rekeying.map_fst_numberFrom Interrupt.rawId [] interrupts,
    List.pairwise_map] at h
  refine List.Pairwise.forall_of_forall_of_flip
    (R := fun p q => p.1.rawId = q.1.rawId → p.1.toolCallId = q.1.toolCallId →
      p.1.toolCallId ≠ none → p = q) (fun _ _ _ _ _ => rfl) ?_ ?_ hp hq hraw htool hsome
  · exact h.imp fun hnone hraw htool hsome => absurd (hnone hraw htool) hsome
  · exact h.imp fun hnone hraw htool hsome =>
      absurd (htool.trans (hnone hraw.symm htool.symm)) hsome

/-- Two repeats have the same suffix when one has the ordinal of the other as its tool call id. -/
theorem eq_of_suffix {interrupts : List Interrupt} (htools : ToolsApart interrupts)
    (hapart : KeysApart (counted interrupts)) {p q : Interrupt × ℕ}
    (hp : p ∈ counted interrupts) (hq : q ∈ counted interrupts) (hpos : 0 < p.2) (hpos' : 0 < q.2)
    (hraw : p.1.rawId = q.1.rawId) (hsuffix : p.1.suffix p.2 = q.1.suffix q.2) : p = q := by
  unfold Interrupt.suffix at hsuffix
  cases htool : p.1.toolCallId with
  | none =>
      cases htool' : q.1.toolCallId with
      | none =>
          rw [htool, htool'] at hsuffix
          exact (Rekeying.numbered_numberFrom Interrupt.rekeying interrupts).eq_of hp hq hraw
            (toString_injective hsuffix)
      | some tool =>
          rw [htool, htool'] at hsuffix
          have hne := hapart.ordinal q hq p hp hpos' hpos hraw.symm htool
          rw [htool'] at hne
          exact absurd (congrArg some hsuffix.symm) hne
  | some tool =>
      cases htool' : q.1.toolCallId with
      | none =>
          rw [htool, htool'] at hsuffix
          have hne := hapart.ordinal p hp q hq hpos hpos' hraw htool'
          rw [htool] at hne
          exact absurd (congrArg some hsuffix) hne
      | some tool' =>
          rw [htool, htool'] at hsuffix
          refine eq_of_toolsApart htools hp hq hraw ?_ (by simp [htool])
          rw [htool, htool']
          exact congrArg some hsuffix

theorem keysApart_iff {interrupts : List Interrupt} (htools : ToolsApart interrupts) :
    Interrupt.rekeying.Apart (counted interrupts) ↔ KeysApart (counted interrupts) := by
  constructor
  · intro h
    refine ⟨h.raw, h.nested, ?_⟩
    intro p hp q hq hpos hpos' hraw hnone hsome
    have hsuffix : p.1.suffix p.2 = q.1.suffix q.2 := by
      simp [Interrupt.suffix, hnone, hsome]
    rw [h.suffix p hp q hq hpos hpos' hraw hsuffix, hnone] at hsome
    cases hsome
  · intro h
    exact ⟨h.raw, h.nested, fun p hp q hq => eq_of_suffix htools h hp hq⟩

/-- Of interrupts with a dictionary and an id, no two with the raw id and a tool call id in
common, every row has an id of its own, and the collection keeps every row, if and only if the
raw ids, tool call ids and ordinals do not run into each other. -/
theorem interrupt_ids_nodup_iff (rt : Runtime) (uuids : ℕ) (threadId : String)
    {interrupts : List Interrupt}
    (hdict : ∀ interrupt ∈ interrupts, dictPayload interrupt ≠ none)
    (hid : ∀ interrupt ∈ interrupts, interrupt.rawId ≠ "") (htools : ToolsApart interrupts) :
    (((agUiInterruptRows rt uuids threadId interrupts).map fun row => row.2.get "id").Nodup ↔
        KeysApart (counted interrupts)) ∧
      ((OrderedDict.ofEntries (agUiInterruptRows rt uuids threadId interrupts)).size =
          interrupts.length ↔ KeysApart (counted interrupts)) := by
  have hkeys : (agUiInterruptRows rt uuids threadId interrupts).map Prod.fst =
      (counted interrupts).map Interrupt.rekeying.key :=
    keys_interruptRowsFrom rt threadId (fun _ => rfl) uuids hdict hid
  have hnodup : ((agUiInterruptRows rt uuids threadId interrupts).map Prod.fst).Nodup ↔
      KeysApart (counted interrupts) := by
    rw [hkeys, ← keysApart_iff htools]
    exact Rekeying.nodup_keys_iff (Rekeying.numbered_numberFrom Interrupt.rekeying interrupts)
  have hlength : (agUiInterruptRows rt uuids threadId interrupts).length = interrupts.length :=
    calc
      (agUiInterruptRows rt uuids threadId interrupts).length =
          ((agUiInterruptRows rt uuids threadId interrupts).map Prod.fst).length :=
        (List.length_map Prod.fst).symm
      _ = ((counted interrupts).map Prod.fst).length := by
        rw [hkeys, List.length_map, List.length_map]
      _ = interrupts.length := by rw [counted, Rekeying.map_fst_numberFrom]
  constructor
  · rw [id_agUiInterruptRows, List.nodup_map_iff fun k k' h => by simpa using h]
    exact hnodup
  · rw [← hlength, OrderedDict.size_ofEntries_eq_iff]
    exact hnodup

def repeated (toolCallId : Option String) : Interrupt :=
  ⟨.dict (("type", .str "ask_question") ::
    (toolCallId.map fun tool => ("tool_call_id", PyValue.str tool)).toList), some "dup"⟩

theorem interrupt_ids_nodup_iff_repeated :
    (((agUiInterruptRows plainRuntime 0 "t"
          [repeated (some "call-1"), repeated (some "call-2"), repeated none]).map
        fun row => row.2.get "id").Nodup ↔
        KeysApart (counted
          [repeated (some "call-1"), repeated (some "call-2"), repeated none])) ∧
      ((OrderedDict.ofEntries (agUiInterruptRows plainRuntime 0 "t"
          [repeated (some "call-1"), repeated (some "call-2"), repeated none])).size = 3 ↔
        KeysApart (counted
          [repeated (some "call-1"), repeated (some "call-2"), repeated none])) :=
  interrupt_ids_nodup_iff plainRuntime 0 "t" (by simp [repeated, dictPayload])
    (by simp [repeated, Interrupt.rawId]) (by unfold ToolsApart; decide)

/-- The tool call id `2` reads like the ordinal of the third interrupt. -/
theorem not_interrupt_ids_nodup :
    ¬ ∀ (rt : Runtime) (uuids : ℕ) (threadId : String) (interrupts : List Interrupt),
      (∀ interrupt ∈ interrupts, dictPayload interrupt ≠ none) →
      (∀ interrupt ∈ interrupts, interrupt.rawId ≠ "") → ToolsApart interrupts →
      ((agUiInterruptRows rt uuids threadId interrupts).map fun row => row.2.get "id").Nodup := by
  intro h
  have hnodup := h plainRuntime 0 "t"
    [repeated (some "call-1"), repeated (some "2"), repeated none]
    (by simp [repeated, dictPayload]) (by simp [repeated, Interrupt.rawId])
    (by unfold ToolsApart; decide)
  rw [id_agUiInterruptRows] at hnodup
  have hkeys := hnodup.of_map
  revert hkeys
  decide

end StreamDB
