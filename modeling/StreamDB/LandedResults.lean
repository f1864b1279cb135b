import StreamDB.SubagentDrain
import StreamDB.ToolRows

/-!
# Results that have landed

A tool row of the store may hold a result from an earlier execution of the call, or from a replay.
Whoever executes the call again starts with a whole row without one, so that only an execution
that is cut off before this row leaves the result in place.
-/

namespace StreamDB

open Coroutine

variable (rt : Runtime)

/-- One execution of a call, at the top level or for a subagent. -/
inductive Execution where
  | top (tc : ToolCallExecution)
  | nested (subagentId : String) (tc : ToolCallExecution)

namespace Execution

def call : Execution → ToolCallExecution
  | top tc => tc
  | nested _ tc => tc

def task : Execution → Task Unit
  | top tc => consumeToolCallExecution rt tc
  | nested subagentId tc => consumeSubagentTool rt subagentId tc

def frames (blocks : List (World × World)) : List Frame :=
  (blocks.map fun b => newFrames b.1 b.2).flatten

/-- The execution is cut off before it has a row to write: a top-level one before it starts, a
nested one before it gets its link. -/
def NeverStarts (legs : List (Leg World)) : Execution → Prop
  | top _ => legs = []
  | nested subagentId _ => ∀ w, legs[1]? = some (.resume w) →
      w.self.subagentToolCall.get subagentId = none

end Execution

def HoldsResult (log : List Frame) (toolCallId : String) : Prop :=
  ∃ row, (collection .tool log).get toolCallId = some row ∧ (row.get "result").isSome

/-- After every frame of an execution the row still holds a result. -/
def KeepsResult (log frames : List Frame) (toolCallId : String) : Prop :=
  ∀ n, HoldsResult (log ++ frames.take n) toolCallId

variable {rt}

theorem startedRow_result (threadId : String) (agentId : Option String) (tc : ToolCallExecution)
    (order : ℤ) : (startedRow rt threadId agentId tc order).get "result" = none := by
  simp [startedRow, OrderedDict.ofEntries, OrderedDict.get_setSome, OrderedDict.get_set]

theorem collection_concat (type : RowType) (log : List Frame) (key : String) (row : Row)
    (txid : Option String) :
    (collection type (log ++ [upsertFrame type key row txid])).get key = some row := by
  have hlast : [upsertFrame type key row txid].filter (fun f => f.type = type) =
      [upsertFrame type key row txid] := List.filter_cons_of_pos (by simp)
  rw [collection, List.filter_append, hlast, List.map_append, List.map_singleton,
    LastWriter.get_collect_concat]
  exact if_pos rfl

theorem not_keepsResult {log : List Frame} {threadId toolCallId : String}
    {agentId : Option String} {tc : ToolCallExecution} {order : ℤ} {rest : List Frame} :
    ¬ KeepsResult log
      (upsertFrame .tool toolCallId (startedRow rt threadId agentId tc order) none :: rest)
      toolCallId := by
  intro h
  obtain ⟨row, hrow, hresult⟩ := h 1
  rw [List.take_succ_cons, List.take_zero, collection_concat] at hrow
  rw [← Option.some.inj hrow, startedRow_result] at hresult
  cases hresult

theorem keepsResult_nil {log : List Frame} {toolCallId : String}
    (h : HoldsResult log toolCallId) : KeepsResult log [] toolCallId := by
  intro n
  rwa [List.take_nil, List.append_nil]

namespace Execution

variable {legs : List (Leg World)} {blocks : List (World × World)} {rest : TaskCode}

theorem newFrames_write {w w' : World} (h : w'.frames = w.frames) (f : Frame) :
    newFrames w (w'.write f) = [f] := by
  rw [newFrames, World.write, h]
  exact List.drop_left

variable (rt) in
theorem first_frame (agentId : Option String) (tc : ToolCallExecution) (k : Unit → TaskCode)
    {w w' : World} (h : w'.frames = w.frames) :
    ∃ order, newFrames w ((projectToolCall rt agentId tc k).block w').1 =
      [upsertFrame .tool tc.toolCallId (startedRow rt w'.self.threadId agentId tc order) none] :=
  ⟨_, newFrames_write
    (show ({ w' with self := (w'.self.renderOrder tc.toolCallId).2 } : World).frames = w.frames
      from h) _⟩

theorem frames_cons (b : World × World) (bs : List (World × World)) :
    frames (b :: bs) = newFrames b.1 b.2 ++ frames bs := by
  rw [frames, List.map_cons, List.flatten_cons]
  rfl

theorem frames_of_projected {agentId : Option String} {tc : ToolCallExecution} {w w' s : World}
    {next : TaskCode} {forks : List (TaskName × TaskCode)} (later : List (World × World))
    (h : w'.frames = w.frames)
    (hblock : some ((projectToolCall rt agentId tc fun _ => .done).block w') =
      some (s, next, forks)) :
    ∃ order, frames ((w, s) :: later) =
      upsertFrame .tool tc.toolCallId (startedRow rt w'.self.threadId agentId tc order) none ::
        frames later := by
  obtain ⟨order, hfirst⟩ := first_frame rt agentId tc (fun _ => .done) h
  have hs : ((projectToolCall rt agentId tc fun _ => .done).block w').1 = s :=
    congrArg Prod.fst (Option.some.inj hblock)
  rw [hs] at hfirst
  rw [frames_cons]
  exact ⟨order, congrArg (· ++ _) hfirst⟩

theorem frames_of_done {w : World} {later : List (World × World)}
    (hlater : (Code.done : TaskCode).legs legs = some (later, rest)) :
    frames ((w, w) :: later) = [] := by
  rw [frames_cons, Code.legs_done hlater]
  exact List.append_nil _ ▸ List.drop_length

theorem frames_top {tc : ToolCallExecution} {leg : Leg World}
    (h : ((top tc).task rt).code.legs (leg :: legs) = some (blocks, rest)) :
    ∃ threadId order later, frames blocks =
      upsertFrame .tool tc.toolCallId (startedRow rt threadId none tc order) none :: later := by
  obtain ⟨s, next, forks, later, hblock, _, rfl⟩ := Code.legs_cons h
  cases leg with
  | expire w => cases hblock
  | resume w =>
      let w' : World := { w with self := { w.self with
        emittedToolCallIds := FirstSeen.insertNew w.self.emittedToolCallIds tc.toolCallId } }
      change some ((projectToolCall rt none tc fun _ => .done).block w') = _ at hblock
      obtain ⟨order, hframes⟩ :=
        frames_of_projected later (show w'.frames = w.frames from rfl) hblock
      exact ⟨_, order, frames later, hframes⟩

/-- What a nested execution does once it has waited for its link. -/
def linkedTask (rt : Runtime) (tc : ToolCallExecution) (agentId : Option String) : Task Unit :=
  match agentId with
  | none => pure ()
  | some agentId => projectToolCall rt (some agentId) tc

/-- A nested execution that gets its link starts with its first row, any other writes nothing. -/
theorem frames_linked {subagentId : String} {tc : ToolCallExecution} {code : TaskCode}
    (hcode : code = .waitFor (fun w => w.self.subagentLinked subagentId)
      (.act id fun w => (linkedTask rt tc (w.self.subagentToolCall.get subagentId)).code) .done)
    (h : code.legs legs = some (blocks, rest)) :
    ((∀ w, legs[0]? = some (.resume w) → w.self.subagentToolCall.get subagentId = none) →
        frames blocks = []) ∧
      (¬ (∀ w, legs[0]? = some (.resume w) → w.self.subagentToolCall.get subagentId = none) →
        ∃ threadId agentId order later, frames blocks =
          upsertFrame .tool tc.toolCallId (startedRow rt threadId (some agentId) tc order) none ::
            later) := by
  subst hcode
  cases legs with
  | nil =>
      cases h
      exact ⟨fun _ => rfl, fun hstarts => absurd nofun hstarts⟩
  | cons leg legs =>
      obtain ⟨s, next, forks, later, hblock, hlater, rfl⟩ := Code.legs_cons h
      cases leg with
      | expire w =>
          cases hblock
          exact ⟨fun _ => frames_of_done hlater, fun hstarts => absurd nofun hstarts⟩
      | resume w =>
          change (if w.self.subagentLinked subagentId then
            some ((linkedTask rt tc (w.self.subagentToolCall.get subagentId)).code.block w)
          else none) =
              _ at hblock
          split_ifs at hblock
          cases htag : w.self.subagentToolCall.get subagentId with
          | none =>
              rw [htag] at hblock
              cases hblock
              refine ⟨fun _ => frames_of_done hlater, fun hstarts => absurd ?_ hstarts⟩
              rintro w' ⟨⟩
              exact htag
          | some agentId =>
              refine ⟨fun hnever => ?_, fun _ => ?_⟩
              · have hnone := hnever w rfl
                rw [htag] at hnone
                cases hnone
              · rw [htag] at hblock
                obtain ⟨order, hframes⟩ := frames_of_projected later rfl hblock
                exact ⟨_, agentId, order, frames later, hframes⟩

theorem frames_nested {subagentId : String} {tc : ToolCallExecution}
    (h : ((nested subagentId tc).task rt).code.legs legs = some (blocks, rest)) :
    (NeverStarts legs (nested subagentId tc) → frames blocks = []) ∧
      (¬ NeverStarts legs (nested subagentId tc) → ∃ threadId agentId order later, frames blocks =
        upsertFrame .tool tc.toolCallId (startedRow rt threadId (some agentId) tc order) none ::
          later) := by
  cases legs with
  | nil =>
      cases h
      exact ⟨fun _ => rfl, fun hstarts => absurd nofun hstarts⟩
  | cons leg legs =>
      obtain ⟨s, next, forks, later, hblock, hlater, rfl⟩ := Code.legs_cons h
      cases leg with
      | expire w => cases hblock
      | resume w =>
          have hnext : next = .waitFor (fun w => w.self.subagentLinked subagentId)
              (.act id fun w =>
                (linkedTask rt tc (w.self.subagentToolCall.get subagentId)).code) .done := by
            exact (congrArg (fun r => r.2.1) (Option.some.inj hblock)).symm
          have hnone : newFrames w s = [] := by
            have hs := congrArg Prod.fst (Option.some.inj hblock)
            change { w with self := w.self.subagentEvent subagentId } = s at hs
            rw [← hs]
            exact List.drop_length
          have hframes : frames ((w, s) :: later) = frames later := by
            rw [frames_cons, hnone]
            rfl
          rw [show (Leg.resume w).start = w from rfl, hframes]
          exact frames_linked hnext hlater

end Execution

/-- An execution keeps the result of the call if and only if it is cut off before its first row,
and then it writes nothing at all. -/
theorem keepsResult_iff_neverStarts (rt : Runtime) {log : List Frame} {e : Execution}
    (hheld : HoldsResult log e.call.toolCallId) {legs : List (Leg World)}
    {blocks : List (World × World)} {rest : TaskCode}
    (hlegs : (e.task rt).code.legs legs = some (blocks, rest)) :
    (KeepsResult log (Execution.frames blocks) e.call.toolCallId ↔ e.NeverStarts legs) ∧
      (e.NeverStarts legs → Execution.frames blocks = []) := by
  have hwrites : (e.NeverStarts legs → Execution.frames blocks = []) ∧
      (¬ e.NeverStarts legs → ∃ threadId agentId order later, Execution.frames blocks =
        upsertFrame .tool e.call.toolCallId (startedRow rt threadId agentId e.call order) none ::
          later) := by
    cases e with
    | top tc =>
        cases legs with
        | nil =>
            cases hlegs
            exact ⟨fun _ => rfl, fun hstarts => absurd rfl hstarts⟩
        | cons leg legs =>
            obtain ⟨threadId, order, later, hframes⟩ := Execution.frames_top hlegs
            exact ⟨nofun, fun _ => ⟨threadId, none, order, later, hframes⟩⟩
    | nested subagentId tc =>
        obtain ⟨hnever, hstarts⟩ := Execution.frames_nested hlegs
        refine ⟨hnever, fun h => ?_⟩
        obtain ⟨threadId, agentId, order, later, hframes⟩ := hstarts h
        exact ⟨threadId, some agentId, order, later, hframes⟩
  refine ⟨⟨fun hkeeps => ?_, fun hnever => ?_⟩, hwrites.1⟩
  · by_contra hstarts
    obtain ⟨threadId, agentId, order, later, hframes⟩ := hwrites.2 hstarts
    rw [hframes] at hkeeps
    exact not_keepsResult hkeeps
  · rw [hwrites.1 hnever]
    exact keepsResult_nil hheld

def settledHistory : List Frame :=
  (replayHistory plainRuntime "t"
    [.ai ⟨some "a1", .str "", [(settledCall "c1" (.dict [("q", .str "x")])).recorded]⟩,
      .tool (settledResult "c1")] none "summarization-").frames

theorem holdsResult_settledHistory : HoldsResult settledHistory "c1" := ⟨_, rfl, rfl⟩

/-- A nested call that waits for a link in vain. -/
def unlinkedLegs : List (Leg World) := [.resume idleWorld, .expire idleWorld]

theorem keepsResult_iff_neverStarts_unlinked :
    ∃ blocks rest, ((Execution.nested "sa1" (settledCall "c1" (.dict []))).task
        plainRuntime).code.legs unlinkedLegs = some (blocks, rest) ∧
      (KeepsResult settledHistory (Execution.frames blocks) "c1" ↔
        (Execution.nested "sa1" (settledCall "c1" (.dict []))).NeverStarts unlinkedLegs) :=
  ⟨_, _, rfl, (keepsResult_iff_neverStarts plainRuntime
    (e := .nested "sa1" (settledCall "c1" (.dict []))) holdsResult_settledHistory rfl).1⟩

/-- The first row of a call that is executed again takes back the result of the replay. -/
theorem not_result_kept :
    ¬ ∀ (rt : Runtime) (log : List Frame) (e : Execution) (legs : List (Leg World))
      (blocks : List (World × World)) (rest : TaskCode),
      HoldsResult log e.call.toolCallId → (e.task rt).code.legs legs = some (blocks, rest) →
      KeepsResult log (Execution.frames blocks) e.call.toolCallId := by
  intro h
  obtain ⟨row, hrow, hresult⟩ := h plainRuntime settledHistory
    (.top (settledCall "c1" (.dict [("q", .str "x")]))) [.resume idleWorld] _ _
    holdsResult_settledHistory rfl 1
  cases hrow
  cases hresult

end StreamDB
