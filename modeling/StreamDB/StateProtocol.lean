import StreamDB.LastWriter
import StreamDB.PyValue

/-!
# Wire frames

A frame carries the whole current row of one collection under its key, or deletes it. The
materialised collection keeps the last frame of each key.
-/

namespace StreamDB

def rowText (row : Row) (key : String) : String :=
  match row.get key with
  | some (.str s) => s
  | _ => ""

inductive RowType where
  | message
  | messageChunk
  | tool
  | run
  | agentState
  | suggestion
  | toolSummary
  | toolAction
  | interrupt
  | effect
  | report
  deriving DecidableEq, Repr

/-- The rows no counter numbers, run rows apart. -/
def RowType.auxiliary : RowType → Bool
  | .message => false
  | .tool => false
  | .run => false
  | _ => true

theorem RowType.ne_of_auxiliary {type : RowType} (h : type.auxiliary) :
    type ≠ .message ∧ type ≠ .tool ∧ type ≠ .run := by
  cases type with
  | message => cases h
  | tool => cases h
  | run => cases h
  | _ => simp

inductive Operation where
  | upsert
  | delete
  deriving DecidableEq, Repr

structure Frame where
  type : RowType
  key : String
  operation : Operation
  value : Option Row
  txid : Option String

def runRowId : String := "run"

def changeEvent (type : RowType) (key : String) (operation : Operation) (value : Option Row)
    (txid : Option String) : Frame :=
  { type, key, operation, value, txid }

def upsertFrame (type : RowType) (key : String) (value : Row) (txid : Option String) : Frame :=
  changeEvent type key .upsert (some value) txid

def deleteFrame (type : RowType) (key : String) : Frame := changeEvent type key .delete none none

@[simp] theorem type_upsertFrame (type : RowType) (key : String) (value : Row)
    (txid : Option String) : (upsertFrame type key value txid).type = type := rfl

@[simp] theorem type_deleteFrame (type : RowType) (key : String) :
    (deleteFrame type key).type = type := rfl

namespace Frame

def field (f : Frame) (name : String) : Option PyValue := f.value.bind fun row => row.get name

def intField (f : Frame) (name : String) : Option ℤ :=
  match f.field name with
  | some (.int n) => some n
  | _ => none

def textField (f : Frame) (name : String) : Option String :=
  match f.field name with
  | some (.str s) => some s
  | _ => none

def order (f : Frame) : Option ℤ := f.intField "order"

def ordinal (f : Frame) : Option ℤ := f.intField "ordinal"

/-- Message and tool rows are the ones the client sorts by `order`. -/
def placed (f : Frame) : Bool := f.type = .message || f.type = .tool

/-- Rows of the main transcript carry no tag. -/
def untagged (f : Frame) : Bool := (f.field "agentId").isNone

def transcript (f : Frame) : Bool := f.type = .message && f.untagged

def isMessage (f : Frame) : Bool := f.type = .message

theorem placed_of_transcript {f : Frame} (h : f.transcript) : f.placed := by
  simp only [transcript, Bool.and_eq_true, decide_eq_true_eq] at h
  simp [placed, h.1]

/-- What decides where the client shows a row. -/
def placement (f : Frame) : RowType × Bool × String × Option ℤ :=
  (f.type, f.untagged, f.key, f.order)

end Frame

theorem exists_frame_of_placement {frames : List Frame} {type : RowType} {untagged : Bool}
    {key : String} {order : Option ℤ}
    (h : (type, untagged, key, order) ∈ frames.map Frame.placement) :
    ∃ f ∈ frames, f.type = type ∧ f.untagged = untagged ∧ f.key = key ∧ f.order = order := by
  obtain ⟨f, hf, hplacement⟩ := List.mem_map.mp h
  simp only [Frame.placement, Prod.mk.injEq] at hplacement
  exact ⟨f, hf, hplacement⟩

theorem field_upsertFrame (type : RowType) (key : String) (row : Row) (txid : Option String)
    (name : String) : (upsertFrame type key row txid).field name = row.get name := rfl

theorem intField_upsertFrame {row : Row} {name : String} {i : ℤ}
    (h : row.get name = some (.int i)) (type : RowType) (key : String) (txid : Option String) :
    (upsertFrame type key row txid).intField name = some i := by
  rw [Frame.intField, field_upsertFrame, h]

theorem textField_upsertFrame {row : Row} {name s : String} (h : row.get name = some (.str s))
    (type : RowType) (key : String) (txid : Option String) :
    (upsertFrame type key row txid).textField name = some s := by
  rw [Frame.textField, field_upsertFrame, h]

/-! ## Collections -/

def Frame.change (f : Frame) : String × Option Row := (f.key, f.value)

/-- A collection of the store after a log. -/
def collection (type : RowType) (frames : List Frame) : OrderedDict String Row :=
  LastWriter.collect ((frames.filter fun f => f.type = type).map Frame.change)

theorem get_collection (type : RowType) (frames : List Frame) (key : String) :
    (collection type frames).get key =
      (frames.filter fun f => f.type = type && f.key = key).getLast?.bind Frame.value := by
  have hfilter : (frames.filter fun f => f.type = type && f.key = key) =
      (frames.filter fun f => f.type = type).filter fun f => f.key = key := by
    rw [List.filter_filter]
    exact List.filter_congr fun f _ => Bool.and_comm _ _
  rw [collection, LastWriter.get_collect_eq_getLast, List.filter_map, List.getLast?_map,
    Option.bind_map, hfilter]
  rfl

end StreamDB
