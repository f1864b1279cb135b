import StreamDB.Completion
import StreamDB.CustomDrain
import StreamDB.LandedResults

/-!
# Custom payloads that cannot be handled

A custom payload is handled without an exception unless its content type cannot be hashed or it
carries a frontend update that is neither a report nor anything `dict` accepts. Then its
well-formed reports and effects are all written; otherwise those after the malformed one are lost
with the run.
-/

namespace StreamDB

open Coroutine Execution

def isReport : PyValue → Bool
  | .dict entries => (Entries.get entries "type").isStr "report_generated"
  | _ => false

/-- The frontend updates a payload carries. -/
def updatesOf : PyValue → List PyValue
  | .dict payload =>
      if (Entries.get payload "content_type").isStr "tool_end" then
        match Entries.get payload "frontend_updates" with
        | .list ops => ops
        | _ => []
      else []
  | _ => []

def hashableType : PyValue → Bool
  | .dict payload => (Entries.get payload "content_type").hashable
  | _ => true

/-- An update that is written or skipped, not raised on. -/
def acceptable (rt : Runtime) (op : PyValue) : Bool := isReport op || (dictOf rt op).isSome

/-- Reports that name their file, and effects that are mappings. -/
inductive WellFormed : PyValue → Prop
  | report {entries : Entries} {fileId : String} (type : isReport (.dict entries))
      (file : (Entries.get entries "file_id").nonemptyStr = some fileId) :
      WellFormed (.dict entries)
  | effect {entries : Entries} (type : isReport (.dict entries) = false) :
      WellFormed (.dict entries)

/-- The frame of an update. -/
inductive WrittenAs (rt : Runtime) : PyValue → Frame → Prop
  | report {entries : Entries} {fileId threadId : String} {createdAt : ℤ}
      {toolCallId : Option String} (type : isReport (.dict entries))
      (file : (Entries.get entries "file_id").nonemptyStr = some fileId) :
      WrittenAs rt (.dict entries)
        (upsertFrame .report fileId (reportRow rt threadId fileId entries createdAt toolCallId)
          none)
  | effect {op : PyValue} {entries : Entries} {effectId : String} (type : isReport op = false)
      (mapping : dictOf rt op = some entries) :
      WrittenAs rt op (upsertFrame .effect effectId
        ((OrderedDict.ofEntries [("id", .str effectId)]).update entries) none)

variable (rt : Runtime) (starts : ℕ → World)

/-! ## One update -/

theorem finish_emitEffect_of_none {op : PyValue} (h : dictOf rt op = none)
    (k : Unit → TaskCode) (i : ℕ) (w₀ w : World) :
    ((emitEffect rt op k).finish starts i w₀ w).2 = some notAMapping := by
  simp only [emitEffect, freshId, Proc.bind_apply, Proc.atomically, h]
  rfl

theorem finish_emitEffect_of_some {op : PyValue} {entries : Entries}
    (h : dictOf rt op = some entries) (k : Unit → TaskCode) (i : ℕ) (w₀ w : World) :
    ∃ effectId, (emitEffect rt op k).finish starts i w₀ w =
      ((w₀, { w with uuids := w.uuids + 1 }.write (upsertFrame .effect effectId
          ((OrderedDict.ofEntries [("id", PyValue.str effectId)]).update entries) none)) ::
          ((k ()).finish starts (i + 1) (starts i) (starts i)).1,
        ((k ()).finish starts (i + 1) (starts i) (starts i)).2) := by
  refine ⟨"effect_" ++ rt.uuidHex w.uuids, ?_⟩
  simp only [emitEffect, freshId, Proc.bind_apply, Proc.atomically, h]
  rfl

/-- What one update does to the run of the rest, `rest` from the state in which it is resumed. -/
inductive Updates (toolCallId : Option String) (op : PyValue) (k : Unit → TaskCode) (i : ℕ)
    (w₀ w : World) : Prop
  | raises (malformed : acceptable rt op = false)
      (raised : ((frontendUpdate rt toolCallId op k).finish starts i w₀ w).2 ≠ none)
  | skips (fine : acceptable rt op) (nameless : ¬ WellFormed op)
      (same : (frontendUpdate rt toolCallId op k).finish starts i w₀ w =
        (k ()).finish starts i w₀ w)
  | writes (fine : acceptable rt op) {f : Frame} {w' : World} (written : WrittenAs rt op f)
      (frame : newFrames w₀ w' = [f])
      (later : (frontendUpdate rt toolCallId op k).finish starts i w₀ w =
        ((w₀, w') :: ((k ()).finish starts (i + 1) (starts i) (starts i)).1,
          ((k ()).finish starts (i + 1) (starts i) (starts i)).2))

variable {rt starts} {k : Unit → TaskCode} {i : ℕ} {w₀ w : World} {toolCallId : Option String}

theorem updates_effect {op : PyValue} (htype : isReport op = false)
    (hop : frontendUpdate rt toolCallId op = emitEffect rt op) (hw : w.frames = w₀.frames) :
    Updates rt starts toolCallId op k i w₀ w := by
  cases hmapping : dictOf rt op with
  | none =>
      refine .raises (by simp [acceptable, htype, hmapping]) ?_
      rw [hop, finish_emitEffect_of_none rt starts hmapping k i w₀ w]
      simp
  | some entries =>
      obtain ⟨effectId, hfinish⟩ := finish_emitEffect_of_some rt starts hmapping k i w₀ w
      have hframes : { w with uuids := w.uuids + 1 }.frames = w₀.frames := hw
      rw [← hop] at hfinish
      exact .writes (by simp [acceptable, hmapping]) (.effect htype hmapping)
        (newFrames_write hframes _) hfinish

theorem updates_report {entries : Entries} (htype : isReport (.dict entries))
    (hw : w.frames = w₀.frames) :
    Updates rt starts toolCallId (.dict entries) k i w₀ w := by
  have hop : frontendUpdate rt toolCallId (.dict entries) = emitReport rt entries toolCallId :=
    if_pos htype
  have hfine : acceptable rt (.dict entries) := by simp [acceptable, htype]
  cases hfile : (Entries.get entries "file_id").nonemptyStr with
  | none =>
      refine .skips hfine ?_ ?_
      · intro hwell
        cases hwell with
        | report _ file =>
            rw [hfile] at file
            cases file
        | effect type =>
            rw [htype] at type
            cases type
      · rw [hop, emitReport, hfile]
        rfl
  | some fileId =>
      let f : Frame := upsertFrame .report fileId
        (reportRow rt w.self.threadId fileId entries (rt.clockMs w.clockReads) toolCallId) none
      have hwritten : WrittenAs rt (.dict entries) f := .report htype hfile
      have hframes : { w with clockReads := w.clockReads + 1 }.frames = w₀.frames := hw
      refine .writes hfine hwritten (newFrames_write hframes f) ?_
      rw [hop, emitReport, hfile]
      rfl

theorem updates_frontendUpdate (op : PyValue) (hw : w.frames = w₀.frames) :
    Updates rt starts toolCallId op k i w₀ w := by
  cases op with
  | dict entries =>
      cases htype : isReport (.dict entries) with
      | true => exact updates_report htype hw
      | false => exact updates_effect htype (if_neg (Bool.eq_false_iff.mp htype)) hw
  | _ => exact updates_effect rfl rfl hw

/-! ## All of them -/

/-- A run without an exception that writes a frame for every well-formed update. -/
structure WritesAll (rt : Runtime) (ops : List PyValue)
    (run : List (World × World) × Option PyException) : Prop where
  completes : run.2 = none
  written : ∀ op ∈ ops, WellFormed op → ∃ f ∈ frames run.1, WrittenAs rt op f

theorem finish_frontendUpdates_raises {ops : List PyValue}
    (h : ∃ op ∈ ops, acceptable rt op = false)
    (hw : w.frames = w₀.frames) :
    ((frontendUpdates rt toolCallId ops k).finish starts i w₀ w).2 ≠ none := by
  induction ops generalizing i w₀ w with
  | nil =>
      obtain ⟨op, hop, -⟩ := h
      cases hop
  | cons op ops ih =>
      have hlater : acceptable rt op → ∃ op ∈ ops, acceptable rt op = false := by
        intro hfine
        obtain ⟨bad, hbad, hmalformed⟩ := h
        rcases List.mem_cons.mp hbad with rfl | hbad
        · rw [hfine] at hmalformed
          cases hmalformed
        · exact ⟨bad, hbad, hmalformed⟩
      rw [frontendUpdates, Proc.bind_apply]
      cases updates_frontendUpdate op hw with
      | raises _ raised => exact raised
      | skips fine _ same =>
          rw [same]
          exact ih (hlater fine) hw
      | writes fine _ _ later =>
          rw [later]
          exact ih (hlater fine) rfl

theorem finish_frontendUpdates_writes {ops : List PyValue} (h : ∀ op ∈ ops, acceptable rt op)
    (hw : w.frames = w₀.frames) :
    WritesAll rt ops ((frontendUpdates rt toolCallId ops).code.finish starts i w₀ w) := by
  induction ops generalizing i w₀ w with
  | nil => exact ⟨rfl, fun _ hop => nomatch hop⟩
  | cons op ops ih =>
      have hlater := fun bad hbad => h bad (List.mem_cons_of_mem _ hbad)
      change WritesAll rt (op :: ops) ((frontendUpdate rt toolCallId op fun _ =>
        (frontendUpdates rt toolCallId ops).code).finish starts i w₀ w)
      cases updates_frontendUpdate op hw with
      | raises malformed _ =>
          rw [h op List.mem_cons_self] at malformed
          cases malformed
      | skips _ nameless same =>
          rw [same]
          refine ⟨(ih hlater hw).completes, fun bad hbad hwell => ?_⟩
          rcases List.mem_cons.mp hbad with rfl | hbad
          · exact absurd hwell nameless
          · exact (ih hlater hw).written bad hbad hwell
      | writes _ written frame later =>
          rw [later]
          have hrest : WritesAll rt ops ((frontendUpdates rt toolCallId ops).code.finish starts
              (i + 1) (starts i) (starts i)) := ih hlater rfl
          refine ⟨hrest.completes, fun bad hbad hwell => ?_⟩
          rw [frames_cons, frame]
          rcases List.mem_cons.mp hbad with rfl | hbad
          · exact ⟨_, List.mem_cons_self, written⟩
          · obtain ⟨f, hf, hwritten⟩ := hrest.written bad hbad hwell
            exact ⟨f, List.mem_append_right _ hf, hwritten⟩

/-! ## A payload -/

/-- Run from any state to its end, the task raises nothing. -/
def Completes (p : Task Unit) : Prop :=
  ∀ (starts : ℕ → World) (i : ℕ) (w₀ w : World), (p.code.finish starts i w₀ w).2 = none

theorem completes_ite_of {c : Prop} [Decidable c] {p q : Task Unit} (hp : c → Completes p)
    (hq : ¬ c → Completes q) : Completes (if c then p else q) := by
  by_cases h : c
  · rw [if_pos h]
    exact hp h
  · rw [if_neg h]
    exact hq h

theorem completes_emitEffect (entries : Entries) : Completes (emitEffect rt (.dict entries)) := by
  intro starts i w₀ w
  have hmapping : dictOf rt (.dict entries) = some entries := rfl
  obtain ⟨_, hfinish⟩ := finish_emitEffect_of_some rt starts hmapping (fun _ => .done) i w₀ w
  exact congrArg Prod.snd hfinish

theorem completes_emitThreadEffect (kind : String) (active : Option Bool) :
    Completes (emitThreadEffect rt kind active) := by
  intro starts i w₀ w
  exact completes_emitEffect (_ ++ _) starts i w₀ w

theorem completes_handleToolSummary (payload : Entries) :
    Completes (handleToolSummary payload) := by
  intro starts i w₀ w
  unfold handleToolSummary
  split
  · rfl
  · rfl

theorem completes_handleToolAction (payload : Entries) :
    Completes (handleToolAction payload) := by
  intro starts i w₀ w
  unfold handleToolAction
  split
  · rfl
  · rfl

/-- Where there are no updates to go through, a hashable content type is enough. -/
theorem completes_handlePayload {payload : Entries}
    (hupdates : (payload.get "content_type").isStr "tool_end" = false)
    (hhashable : (payload.get "content_type").hashable) : Completes (handlePayload rt payload) := by
  have hpure : Completes (pure () : Task Unit) := fun _ _ _ _ => rfl
  unfold handlePayload
  refine completes_ite_of (fun _ => completes_handleToolSummary payload) fun _ => ?_
  refine completes_ite_of (fun _ => completes_handleToolAction payload) fun _ => ?_
  refine completes_ite_of (fun h => ?_) fun _ => ?_
  · rw [hupdates] at h
    cases h
  refine completes_ite_of (fun h => ?_) fun _ => ?_
  · rw [hhashable] at h
    cases h
  refine completes_ite_of (fun _ => hpure) fun _ => ?_
  refine completes_ite_of (fun _ _ _ _ _ => rfl) fun _ => ?_
  refine completes_ite_of (fun _ => hpure) fun _ => ?_
  refine completes_ite_of (fun _ => completes_emitThreadEffect _ _) fun _ => ?_
  refine completes_ite_of (fun _ => completes_emitThreadEffect _ _) fun _ => ?_
  exact completes_ite_of (fun _ => completes_emitThreadEffect _ _) fun _ => completes_emitEffect _

theorem isStr_of_not_hashable {v : PyValue} (h : v.hashable = false) (s : String) :
    v.isStr s = false := by
  cases v with
  | str _ => cases h
  | _ => rfl

theorem handlePayload_unhashable {payload : Entries}
    (h : (payload.get "content_type").hashable = false) :
    handlePayload rt payload = Proc.raise unhashable := by
  simp [handlePayload, isStr_of_not_hashable h, h]

variable (rt) in
theorem handlePayload_updates {payload : Entries} {ops : List PyValue}
    (htype : payload.get "content_type" = .str "tool_end")
    (hops : payload.get "frontend_updates" = .list ops) :
    ∃ toolCallId, handlePayload rt payload = frontendUpdates rt toolCallId ops := by
  have hend : handlePayload rt payload = handleToolEnd rt payload := by
    simp [handlePayload, htype, PyValue.isStr]
  rw [hend, handleToolEnd, hops]
  exact ⟨_, rfl⟩

/-- Whatever the others do at its waits, the payload is handled without an exception and every
well-formed update it carries is written. -/
def Handles (rt : Runtime) (payload : PyValue) : Prop :=
  ∀ (starts : ℕ → World) (w : World),
    WritesAll rt (updatesOf payload) ((handleCustom rt payload).code.finish starts 0 w w)

/-- So is every run of the blocks of the drain that comes to its end. -/
theorem Handles.run {payload : PyValue} (h : Handles rt payload) {w : World} {ss : List World}
    {later : List (World × World)} {rest : TaskCode} {result : Option PyException}
    (hrest : rest.ending = some result)
    (hlegs : ((handleCustom rt payload).code.block w).2.1.legs (ss.map Leg.resume) =
      some (later, rest)) :
    WritesAll rt (updatesOf payload)
      ((w, ((handleCustom rt payload).code.block w).1) :: later, result) := by
  have hstarts : ∀ j s, ss[j]? = some s → ss.getD (0 + j) w = s := by
    intro j s hs
    rw [Nat.zero_add, List.getD_eq_getElem?_getD, hs]
    rfl
  have hall := h (fun i => ss.getD i w) w
  rw [Code.computes_finish hrest _ 0 w w ss later hstarts hlegs] at hall
  exact hall

theorem handles_updates {payload : Entries} {ops : List PyValue}
    (htype : payload.get "content_type" = .str "tool_end")
    (hops : payload.get "frontend_updates" = .list ops) :
    Handles rt (.dict payload) ↔ ∀ op ∈ ops, acceptable rt op := by
  obtain ⟨toolCallId, hhandle⟩ := handlePayload_updates rt htype hops
  have hupdates : updatesOf (.dict payload) = ops := by simp [updatesOf, htype, hops, PyValue.isStr]
  constructor
  · intro h op hop
    by_contra hbad
    have hw := World.start (Translator.init "" "" "")
    have hcompletes := (h (fun _ => hw) hw).completes
    rw [handleCustom, hhandle] at hcompletes
    exact finish_frontendUpdates_raises ⟨op, hop, Bool.eq_false_iff.mpr hbad⟩ rfl hcompletes
  · intro h starts w
    rw [handleCustom, hhandle, hupdates]
    exact finish_frontendUpdates_writes h rfl

theorem handles_no_updates {payload : PyValue} (h : updatesOf payload = [])
    (hcompletes : Completes (handleCustom rt payload)) : Handles rt payload := by
  intro starts w
  rw [h]
  exact ⟨hcompletes starts 0 w w, fun _ hop => nomatch hop⟩

theorem hashable_of_isStr {v : PyValue} {s : String} (h : v.isStr s) : v.hashable := by
  cases v with
  | str _ => rfl
  | _ => cases h

theorem eq_str_of_isStr {v : PyValue} {s : String} (h : v.isStr s) : v = .str s := by
  cases v with
  | str t => rw [of_decide_eq_true h]
  | _ => cases h

theorem not_handles_of_unhashable {payload : Entries}
    (h : (payload.get "content_type").hashable = false) : ¬ Handles rt (.dict payload) := by
  intro hhandles
  let w := World.start (Translator.init "" "" "")
  have hcompletes := (hhandles (fun _ => w) w).completes
  rw [handleCustom, handlePayload_unhashable h] at hcompletes
  cases hcompletes

/-- A payload without a list of updates. -/
theorem handles_plain {payload : Entries} (hnone : updatesOf (.dict payload) = [])
    (hcompletes : (payload.get "content_type").hashable → Completes (handlePayload rt payload)) :
    Handles rt (.dict payload) ↔ (payload.get "content_type").hashable := by
  constructor
  · intro h
    by_contra hbad
    exact not_handles_of_unhashable (Bool.eq_false_iff.mpr hbad) h
  · exact fun h => handles_no_updates hnone (hcompletes h)

/-- A custom payload is handled, and its well-formed updates written, if and only if its content
type can be hashed and every update that is not a report can be read as a mapping. -/
theorem custom_handled_iff (rt : Runtime) (payload : PyValue) :
    Handles rt payload ↔
      hashableType payload ∧ ∀ op ∈ updatesOf payload, acceptable rt op := by
  cases payload with
  | dict payload =>
      by_cases hend : (Entries.get payload "content_type").isStr "tool_end"
      · have htype := eq_str_of_isStr hend
        have hhashable : hashableType (.dict payload) := hashable_of_isStr hend
        cases hops : Entries.get payload "frontend_updates" with
        | list ops =>
            have hupdates : updatesOf (.dict payload) = ops := by
              simp [updatesOf, htype, hops, PyValue.isStr]
            rw [handles_updates htype hops, hupdates]
            exact (and_iff_right hhashable).symm
        | _ =>
            have hnone : updatesOf (.dict payload) = [] := by simp [updatesOf, hops]
            have hcompletes : Completes (handlePayload rt payload) := by
              intro starts i w₀ w
              simp [handlePayload, htype, handleToolEnd, hops, PyValue.isStr]
              rfl
            rw [handles_plain hnone fun _ => hcompletes, hnone]
            exact (and_iff_left (List.forall_mem_nil _)).symm
      · have hnone : updatesOf (.dict payload) = [] := if_neg hend
        rw [handles_plain hnone (completes_handlePayload (Bool.eq_false_iff.mpr hend)), hnone]
        exact (and_iff_left (List.forall_mem_nil _)).symm
  | _ =>
      exact ⟨fun _ => ⟨rfl, List.forall_mem_nil _⟩,
        fun _ => handles_no_updates rfl fun _ _ _ _ => rfl⟩

/-- A missing update in front of a report. -/
def missingUpdate : Entries :=
  [("content_type", .str "tool_end"), ("frontend_updates", .list
    [.none, .dict [("type", .str "report_generated"), ("file_id", .str "f1")]])]

/-- The report is never written, and the run is torn down. -/
theorem not_custom_handled : ¬ ∀ (rt : Runtime) (payload : PyValue), Handles rt payload := by
  intro h
  have hops : missingUpdate.get "frontend_updates" = .list
      [.none, .dict [("type", .str "report_generated"), ("file_id", .str "f1")]] := rfl
  have hfine := (handles_updates rfl hops).mp (h plainRuntime (.dict missingUpdate)) .none
    List.mem_cons_self
  revert hfine
  decide

end StreamDB
