import Mathlib.Data.List.DropRight
import StreamDB.ReplayListing

/-!
# The user turns of a windowed replay

The window is cut by human messages, rendered or not; the replay writes a row for the rendered
ones. The promised number of user rows is there when the window wastes no place on an unrendered
message, or when there is no rendered one before it.
-/

namespace StreamDB

def humans (messages : List BaseMessage) : List BaseMessage := messages.filter BaseMessage.isHuman

/-- The user row of a message. -/
def userKeys (summaryPrefix : String) : BaseMessage → List String
  | .human message => if rendersId summaryPrefix message.id then [message.id.getD ""] else []
  | _ => []

/-- The user turns of a list: the human messages that are rendered. -/
def userTurns (summaryPrefix : String) (messages : List BaseMessage) : List String :=
  messages.flatMap (userKeys summaryPrefix)

def Frame.isUser (f : Frame) : Bool := f.type = .message && f.textField "role" = some "user"

def userRows (frames : List Frame) : List String := (frames.filter Frame.isUser).map Frame.key

/-! ## What the window keeps -/

theorem humanPositions_cons (m : BaseMessage) (messages : List BaseMessage) :
    humanPositions (m :: messages) =
      (if m.isHuman then [0] else []) ++ (humanPositions messages).map Nat.succ := by
  rw [humanPositions, List.length_cons, List.range_succ_eq_map, List.filter_cons, List.filter_map]
  cases hm : m.isHuman with
  | true => exact if_pos hm
  | false => exact if_neg (Bool.eq_false_iff.mp hm)

theorem length_humanPositions (messages : List BaseMessage) :
    (humanPositions messages).length = (humans messages).length := by
  induction messages with
  | nil => rfl
  | cons m messages ih =>
      rw [humanPositions_cons, humans, List.filter_cons]
      cases m.isHuman with
      | true => simpa [humans, Nat.add_comm 1] using ih
      | false => simpa [humans] using ih

/-- From the position of a human message on, the list has that message and the later ones. -/
theorem humans_drop_position (messages : List BaseMessage) {i : ℕ}
    (h : i < (humanPositions messages).length) :
    humans (messages.drop ((humanPositions messages).getD i 0)) = (humans messages).drop i := by
  induction messages generalizing i with
  | nil => cases h
  | cons m messages ih =>
      rw [humanPositions_cons] at h ⊢
      cases hm : m.isHuman with
      | true =>
          cases i with
          | zero => simp
          | succ i =>
              have hi : i < (humanPositions messages).length := by simpa [hm] using h
              have hpos : ((if m.isHuman then [0] else []) ++
                  (humanPositions messages).map Nat.succ).getD (i + 1) 0 =
                    (humanPositions messages).getD i 0 + 1 := by
                simp [hm, hi]
              rw [hm] at hpos
              rw [hpos, List.drop_succ_cons, ih hi]
              simp [humans, hm]
      | false =>
          have hi : i < (humanPositions messages).length := by simpa [hm] using h
          have hpos : ((if m.isHuman then [0] else []) ++
              (humanPositions messages).map Nat.succ).getD i 0 =
                (humanPositions messages).getD i 0 + 1 := by
            simp [hm, hi]
          rw [hm] at hpos
          rw [hpos, List.drop_succ_cons, ih hi]
          simp [humans, hm]

/-- The window keeps the last human messages. -/
theorem humans_window (messages : List BaseMessage) {maxTurns : ℤ} (hpos : 0 < maxTurns) :
    humans (windowToLastTurns messages maxTurns) = (humans messages).rtake maxTurns.toNat := by
  have hlength := length_humanPositions messages
  rw [windowToLastTurns, if_neg (by omega)]
  dsimp only
  rw [List.rtake]
  split_ifs with hfew
  · have hzero : (humans messages).length - maxTurns.toNat = 0 := by omega
    rw [hzero, List.drop_zero]
  · rw [humans_drop_position messages (by omega), hlength]

/-! ## What the replay writes -/

variable (rt : Runtime) (threadId summaryPrefix : String)

theorem isUser_humanRow (id : String) (message : HumanMessage) (st : ReplayState) :
    (upsertFrame .message id (humanRow rt threadId id message st) none).isUser = true := by
  simp [Frame.isUser, textField_upsertFrame (humanRow_role ..)]

theorem isUser_aiRow (id : String) (message : AIMessage) (st : ReplayState) :
    (upsertFrame .message id (aiRow rt threadId id message st) none).isUser = false := by
  simp [Frame.isUser, textField_upsertFrame (aiRow_role ..)]

theorem userRows_putMessage (st : ReplayState) (id : String) (row : Row) :
    userRows (st.putMessage id row).frames =
      userRows st.frames ++
        if (upsertFrame .message id row none).isUser then [id] else [] := by
  rw [ReplayState.putMessage, userRows, List.filter_append, List.map_append, List.filter_singleton]
  cases (upsertFrame .message id row none).isUser with
  | true => rfl
  | false => rfl

theorem userRows_replayMessage (st : ReplayState) (m : BaseMessage) :
    userRows (replayMessage rt threadId summaryPrefix st m).frames =
      userRows st.frames ++ userKeys summaryPrefix m := by
  cases m with
  | human message =>
      rw [replayMessage, userKeys]
      split_ifs
      · rw [userRows_putMessage, isUser_humanRow, if_pos rfl]
      · rw [List.append_nil]
  | ai message =>
      rw [replayMessage]
      split_ifs
      · rw [replayCalls_frames, userRows_putMessage, isUser_aiRow]
        rfl
      · exact (List.append_nil _).symm
  | tool message =>
      cases hrow : st.toolRows.get message.toolCallId with
      | none => simp [replayMessage, hrow, userKeys]
      | some row => simp [replayMessage, hrow, userKeys]
  | other id => simp [replayMessage, userKeys]

theorem userTurns_append (messages later : List BaseMessage) :
    userTurns summaryPrefix (messages ++ later) =
      userTurns summaryPrefix messages ++ userTurns summaryPrefix later := List.flatMap_append

theorem userTurns_cons (m : BaseMessage) (messages : List BaseMessage) :
    userTurns summaryPrefix (m :: messages) =
      userKeys summaryPrefix m ++ userTurns summaryPrefix messages := List.flatMap_cons

theorem userRows_foldl_replayMessage (messages : List BaseMessage) (st : ReplayState) :
    userRows (messages.foldl (replayMessage rt threadId summaryPrefix) st).frames =
      userRows st.frames ++ userTurns summaryPrefix messages := by
  induction messages generalizing st with
  | nil => exact (List.append_nil _).symm
  | cons m messages ih =>
      rw [List.foldl_cons, ih, userRows_replayMessage, userTurns_cons, List.append_assoc]

/-- A replay writes a user row for each rendered human message of its window. -/
theorem userRows_replayHistory (messages : List BaseMessage) (maxTurns : Option ℤ) :
    userRows (replayHistory rt threadId messages maxTurns summaryPrefix).frames =
      userTurns summaryPrefix (replayWindow messages maxTurns) := by
  have htools : ∀ toolRows, (toolFrames toolRows).filter Frame.isUser = [] := by
    intro toolRows
    rw [List.filter_eq_nil_iff]
    intro f hf
    obtain ⟨row, _, rfl⟩ := mem_toolFrames hf
    simp [Frame.isUser]
  rw [replayHistory_frames, userRows, List.filter_append, htools, List.append_nil]
  exact userRows_foldl_replayMessage rt threadId summaryPrefix _ .initial

variable {summaryPrefix}

theorem userTurns_humans (messages : List BaseMessage) :
    userTurns summaryPrefix (humans messages) = userTurns summaryPrefix messages := by
  induction messages with
  | nil => rfl
  | cons m messages ih =>
      rw [humans] at ih ⊢
      rw [List.filter_cons, userTurns_cons]
      cases m with
      | human message => exact (userTurns_cons _ _ _).trans (congrArg _ ih)
      | _ => exact ih

variable (summaryPrefix) in
theorem length_userTurns {messages : List BaseMessage} (h : ∀ m ∈ messages, m.isHuman) :
    (userTurns summaryPrefix messages).length = messages.countP (carriesOrdinal summaryPrefix) := by
  induction messages with
  | nil => rfl
  | cons m messages ih =>
      have hlater := ih fun n hn => h n (List.mem_cons_of_mem _ hn)
      rw [userTurns_cons, List.length_append, hlater, List.countP_cons, Nat.add_comm]
      cases m with
      | human message =>
          rw [userKeys, carriesOrdinal]
          split_ifs
          · rfl
          · rfl
      | _ => cases h _ List.mem_cons_self

/-- The replay writes the promised number of user rows, and they are the last ones. -/
def KeepsTurns (rt : Runtime) (threadId summaryPrefix : String) (messages : List BaseMessage)
    (maxTurns : ℤ) : Prop :=
  let rows := userRows (replayHistory rt threadId messages (some maxTurns) summaryPrefix).frames
  rows.length = min maxTurns.toNat (userTurns summaryPrefix messages).length ∧
    rows <:+ userTurns summaryPrefix messages

/-- The window keeps its number of user turns if and only if it has no unrendered human message
among the last ones or there is no rendered one before these. -/
theorem window_keeps_turns_iff (rt : Runtime) (threadId summaryPrefix : String)
    (messages : List BaseMessage) {maxTurns : ℤ} (hpos : 0 < maxTurns) :
    KeepsTurns rt threadId summaryPrefix messages maxTurns ↔
      (∀ m ∈ (humans messages).rtake maxTurns.toNat, carriesOrdinal summaryPrefix m) ∨
        ∀ m ∈ (humans messages).rdrop maxTurns.toNat, ¬ carriesOrdinal summaryPrefix m := by
  let early := (humans messages).rdrop maxTurns.toNat
  let late := (humans messages).rtake maxTurns.toNat
  have hsplit : humans messages = early ++ late := (List.take_append_drop _ _).symm
  have hhuman : ∀ m ∈ humans messages, m.isHuman := fun m hm => (List.mem_filter.mp hm).2
  have hearly : early.length = (humans messages).length - maxTurns.toNat :=
    List.length_take_of_le (Nat.sub_le _ _)
  have hlate : late.length = (humans messages).length - early.length := by
    rw [hearly]
    exact List.length_drop
  have hwritten : userRows
      (replayHistory rt threadId messages (some maxTurns) summaryPrefix).frames =
        userTurns summaryPrefix late := by
    rw [userRows_replayHistory, replayWindow, ← userTurns_humans, humans_window messages hpos]
  have hturns : userTurns summaryPrefix messages =
      userTurns summaryPrefix early ++ userTurns summaryPrefix late := by
    rw [← userTurns_humans, hsplit, userTurns_append]
  have hcountEarly := length_userTurns summaryPrefix
    fun m hm => hhuman m (hsplit ▸ List.mem_append_left late hm)
  have hcountLate := length_userTurns summaryPrefix
    fun m hm => hhuman m (hsplit ▸ List.mem_append_right early hm)
  have hkeeps : KeepsTurns rt threadId summaryPrefix messages maxTurns ↔
      late.countP (carriesOrdinal summaryPrefix) = min maxTurns.toNat
        (early.countP (carriesOrdinal summaryPrefix) +
          late.countP (carriesOrdinal summaryPrefix)) := by
    rw [KeepsTurns, hwritten, hturns, List.length_append, hcountEarly, hcountLate]
    exact and_iff_left (List.suffix_append _ _)
  have hearlyLe : early.countP (carriesOrdinal summaryPrefix) ≤ early.length :=
    List.countP_le_length
  have hlateLe : late.countP (carriesOrdinal summaryPrefix) ≤ late.length :=
    List.countP_le_length
  rw [hkeeps, ← List.countP_eq_length, ← List.countP_eq_zero]
  change _ ↔ late.countP (carriesOrdinal summaryPrefix) = late.length ∨
    early.countP (carriesOrdinal summaryPrefix) = 0
  omega

/-- Two turns with a note of the compaction between them. -/
def compacted : List BaseMessage :=
  [.human ⟨some "u0", .str "hello", []⟩, .human ⟨some "summarization-1", .str "so far", []⟩,
    .human ⟨some "u1", .str "go on", []⟩]

theorem window_keeps_turns_iff_compacted :
    KeepsTurns plainRuntime "t" "summarization-" compacted 1 ↔
      (∀ m ∈ (humans compacted).rtake (1 : ℤ).toNat, carriesOrdinal "summarization-" m) ∨
        ∀ m ∈ (humans compacted).rdrop (1 : ℤ).toNat, ¬ carriesOrdinal "summarization-" m :=
  window_keeps_turns_iff plainRuntime "t" "summarization-" compacted (by decide)

/-- The note takes the place of a turn in a window of two. -/
theorem not_window_keeps_turns :
    ¬ ∀ (rt : Runtime) (threadId summaryPrefix : String) (messages : List BaseMessage)
      (maxTurns : ℤ), 0 < maxTurns → (messageIds (transcript summaryPrefix messages)).Nodup →
      KeepsTurns rt threadId summaryPrefix messages maxTurns := by
  intro h
  have hkeeps := h plainRuntime "t" "summarization-" compacted 2 (by decide) (by decide)
  have hcount := hkeeps.1
  revert hcount
  decide

end StreamDB
