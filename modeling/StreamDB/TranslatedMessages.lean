import StreamDB.CounterInvariant
import StreamDB.MessageLog
import StreamDB.SubagentTags

/-!
# The rows of one message

Whatever runs next to it, at the top level or for a subagent of any depth, a model message whose id
is like no other of the run gets an anchor and the chunks of its stream, in their order. A client
shows a beginning of what the model said, and in the end all of it.
-/

namespace StreamDB

open Coroutine

/-! ## What a message leaves on the stream -/

/-- The frames of the message so far, if it has any, and who has written them. -/
def MessageRuns (F : Setting) (m : ModelMessage) (key : String) (frames : List Frame) : Prop :=
  frames = [] ∨ ∃ name agentId cs, F.MessageAuthor name agentId key ∧ cs <+: m.sent ∧
    MessageLog F.threadId key agentId cs frames

/-- A channel of messages, and the task that drains it. -/
inductive MessageChannel (rt : Runtime) (activities : List Activity) :
    TaskName → Feed ModelMessage → Prop
  | top {feed : Feed ModelMessage} (mem : .messages feed ∈ activities) :
      MessageChannel rt activities .messages feed
  | nested {feed : Feed Subgraph} (mem : .subgraphs feed ∈ activities) {sg : Subgraph}
      (within : sg.Within feed.items) (agent : sg.isSubagent) {subagentId : String}
      (id : ResolvesTo rt "sa_" sg.triggerCallId subagentId) {channel : Feed ModelMessage}
      (projection : sg.messages = some channel) :
      MessageChannel rt activities (.subagentMessages subagentId) channel

theorem MessageChannel.drains {rt : Runtime} {activities : List Activity} {name : TaskName}
    {feed : Feed ModelMessage} (h : MessageChannel rt activities name feed) {m : ModelMessage}
    (item : m ∈ feed.items) : drains rt activities name (.message m) := by
  cases h with
  | top mem => exact .message mem item
  | nested mem within agent id projection =>
      exact .nestedMessage mem within agent id projection item

/-- What is known of the run besides its setting: whether the wait for the link of the message has
expired, and which messages come before it on its channel. -/
structure Circumstances where
  expired : Prop
  before : ModelMessage → Prop

/-- Why a message may leave no frames, where its drain has ended with `failure`. -/
inductive Unsaid (F : Setting) (K : Circumstances) (m : ModelMessage)
    (failure : Option PyException) : Prop
  | hidden (item : F.source .messages (.message m))
      (skipped : rendersMessage F.summaryPrefix m = false)
  | inner {subagentId : String} (item : F.source (.subagentMessages subagentId) (.message m))
      (node : m.node ≠ some modelNode)
  | unlinked {subagentId : String} (item : F.source (.subagentMessages subagentId) (.message m))
      (late : K.expired) (ended : failure = none)
  | behind {other : ModelMessage} (before : K.before other) {exc : PyException}
      (broken : other.failure = some exc) (ended : failure = some exc)

/-- The frames of a message whose drain has ended. -/
def MessageEnds (F : Setting) (K : Circumstances) (m : ModelMessage) (key : String)
    (failure : Option PyException) (frames : List Frame) : Prop :=
  frames = [] ∧ Unsaid F K m failure ∨ ∃ name agentId, F.MessageAuthor name agentId key ∧
    MessageLog F.threadId key agentId m.sent frames ∧
    ∀ exc, m.failure = some exc → failure = some exc

/-! ## The script of a channel -/

/-- A message of the channel, to the owner of the key. -/
def turnScript (renders : ModelMessage → Bool) (key : String) (m : ModelMessage) :
    Script MessageEntry PyException :=
  if renders m then
    if m.messageId.getD "" = key then
      speechScript (.entry .anchor) (fun chunk => .entry (.chunk chunk)) m
    else ⟨[], m.failure⟩
  else .done

def channelScript (renders : ModelMessage → Bool) (key : String) (feed : Feed ModelMessage) :
    Script MessageEntry PyException :=
  (Script.forEach (turnScript renders key) feed.items).andThen ⟨[], feed.error⟩

theorem speechScript_entry (m : ModelMessage) :
    (speechScript (.entry .anchor) (fun chunk => .entry (.chunk chunk)) m :
      Script MessageEntry PyException) = ⟨.anchor :: m.sent.map .chunk, m.failure⟩ := by
  rw [speechScript, Script.forEach_entry]
  simp [Script.andThen, Script.entry]

section Channel

variable {renders : ModelMessage → Bool} {key : String} {m : ModelMessage}

theorem turnScript_other (h : m.messageId.getD "" ≠ key) :
    (turnScript renders key m).entries = [] ∧ ∀ exc,
      (turnScript renders key m).failure = some exc → m.failure = some exc := by
  rw [turnScript]
  split_ifs
  · exact ⟨rfl, fun _ h => h⟩
  · exact ⟨rfl, nofun⟩

variable (renders) in
/-- A channel with one message of the key: the message is not come to, or not rendered, or said. -/
theorem channelScript_cases (error : Option PyException) {before after : List ModelMessage}
    (hkey : m.messageId.getD "" = key)
    (hothers : ∀ other ∈ before ++ after, other.messageId.getD "" ≠ key) :
    (∃ other ∈ before, ∃ exc, other.failure = some exc ∧
        channelScript renders key ⟨before ++ m :: after, error⟩ = ⟨[], some exc⟩) ∨
      (renders m = false ∧
        (channelScript renders key ⟨before ++ m :: after, error⟩).entries = []) ∨
      (renders m ∧ (channelScript renders key ⟨before ++ m :: after, error⟩).entries =
          .anchor :: m.sent.map .chunk ∧
        ∀ exc, m.failure = some exc →
          (channelScript renders key ⟨before ++ m :: after, error⟩).failure = some exc) := by
  have hsilent : ∀ items : List ModelMessage, items ⊆ before ++ after →
      (Script.forEach (turnScript renders key) items).entries = [] := fun items hsub =>
    Script.entries_forEach_eq_nil fun other hmem => (turnScript_other (hothers other (hsub hmem))).1
  have hbefore := hsilent before (List.subset_append_left _ _)
  have hafter := hsilent after (List.subset_append_right _ _)
  rw [channelScript, Script.forEach_append, Script.forEach, Script.andThen_assoc,
    Script.andThen_assoc]
  cases hbroken : (Script.forEach (turnScript renders key) before).failure with
  | some exc =>
      obtain ⟨other, hmem, hother⟩ := Script.failure_of_forEach hbroken
      have hfailure := (turnScript_other (hothers other (List.mem_append_left _ hmem))).2 exc hother
      refine .inl ⟨other, hmem, exc, hfailure, ?_⟩
      rw [Script.andThen, hbroken]
      exact congrArg (Script.mk · (some exc)) hbefore
  | none =>
      rw [Script.andThen_of_silent hbefore hbroken]
      have hrest : ((Script.forEach (turnScript renders key) after).andThen
          (⟨[], error⟩ : Script MessageEntry PyException)).entries = [] :=
        Script.entries_andThen_eq_nil hafter rfl
      refine .inr ?_
      cases hrenders : renders m with
      | false =>
          refine .inl ⟨rfl, ?_⟩
          rw [turnScript, hrenders, if_neg Bool.false_ne_true]
          exact hrest
      | true =>
          refine .inr ⟨rfl, ?_⟩
          rw [turnScript, hrenders, if_pos rfl, if_pos hkey, speechScript_entry, Script.andThen]
          cases m.failure with
          | none => exact ⟨by rw [hrest, List.append_nil], fun _ h => by cases h⟩
          | some exc => exact ⟨rfl, fun _ h => h⟩

end Channel

/-! ## The task of the message -/

section Task

variable {rt : Runtime} {threadId summaryPrefix : String} {activities : List Activity}
  {m : ModelMessage} {key : String} {expired : Prop}

def ComesBefore (rt : Runtime) (activities : List Activity) (m other : ModelMessage) : Prop :=
  ∃ name feed before after, MessageChannel rt activities name feed ∧
    feed.items = before ++ m :: after ∧ other ∈ before

variable (threadId summaryPrefix activities m expired) in
def messageOwnership (hdrawn : Undrawn rt key) :
    Ownership TaskName World PyException (List Frame) where
  env := (othersOf rt threadId summaryPrefix activities (Item.clashes key)).rowProtocol
  part w := framesOfMessage key w.frames
  mid := MessageRuns (settingOf rt threadId summaryPrefix activities anyStep) m key
  ends := MessageEnds (settingOf rt threadId summaryPrefix activities anyStep)
    ⟨expired, ComesBefore rt activities m⟩ m key
  anytime _ _ := trivial
  anyhow _ _ := trivial
  others _ _ _ h := framesOfMessage_of_advances hdrawn h
  owner name := drains rt activities name (.message m)
  expired := expired

theorem mem_of_once {items : List ModelMessage} {p : Item → Bool}
    (once : (items.map Item.message).filter p = [.message m]) : m ∈ items := by
  obtain ⟨before, own, after, rfl, hown, _⟩ := split_of_filter_map once
  cases hown
  exact List.mem_append_right _ List.mem_cons_self

theorem resolves_given {tag : String} (given : m.messageId.getD "" = key) (nonempty : key ≠ "") :
    ResolvesTo rt tag m.messageId key := by
  rw [← given]
  exact .given (by rw [given]; exact nonempty)

variable (rt threadId summaryPrefix activities m key) in
/-- A channel the message is on, and how its drain renders it. -/
structure Speaks (name : TaskName) (agentId : Option String) (renders : ModelMessage → Bool)
    (feed : Feed ModelMessage) : Prop where
  given : m.messageId.getD "" = key
  nonempty : key ≠ ""
  once : (feed.items.map Item.message).filter (Item.clashes key) = [.message m]
  channel : MessageChannel rt activities name feed
  author : renders m →
    (settingOf rt threadId summaryPrefix activities anyStep).MessageAuthor name agentId key
  unsaid : renders m = false → ∀ K failure,
    Unsaid (settingOf rt threadId summaryPrefix activities anyStep) K m failure

namespace Speaks

variable {name : TaskName} {agentId : Option String} {renders : ModelMessage → Bool}
  {feed : Feed ModelMessage}
  (h : Speaks rt threadId summaryPrefix activities m key name agentId renders feed)

include h

theorem clashes_own {other : ModelMessage} (hid : other.messageId.getD "" = key) :
    (Item.message other).clashes key = true := by
  simp [Item.clashes, hid, h.nonempty, idsClash]

theorem other_apart {other : ModelMessage} (hmem : other ∈ feed.items)
    (hid : other.messageId.getD "" ≠ key) :
    (Item.message other).clashes key = false := by
  rw [Bool.eq_false_iff]
  intro hclash
  have hfilter : Item.message other ∈ (feed.items.map Item.message).filter (Item.clashes key) :=
    List.mem_filter.mpr ⟨List.mem_map_of_mem hmem, hclash⟩
  rw [h.once, List.mem_singleton, Item.message.injEq] at hfilter
  rw [hfilter] at hid
  exact hid h.given

theorem cases :
    (∃ other, ComesBefore rt activities m other ∧ ∃ exc, other.failure = some exc ∧
        channelScript renders key feed = ⟨[], some exc⟩) ∨
      (renders m = false ∧ (channelScript renders key feed).entries = []) ∨
      (renders m ∧ (channelScript renders key feed).entries = .anchor :: m.sent.map .chunk ∧
        ∀ exc, m.failure = some exc → (channelScript renders key feed).failure = some exc) := by
  obtain ⟨before, own, after, hitems, hown, hothers⟩ := split_of_filter_map h.once
  cases hown
  obtain ⟨items, error⟩ := feed
  obtain rfl : items = before ++ m :: after := hitems
  have hids : ∀ other ∈ before ++ after, other.messageId.getD "" ≠ key := by
    intro other hmem hid
    have hclash := h.clashes_own hid
    rw [hothers other hmem] at hclash
    cases hclash
  rcases channelScript_cases renders error h.given hids with
    ⟨other, hmem, exc, hfailure, hscript⟩ | hcase
  · exact .inl ⟨other, ⟨_, _, _, _, h.channel, rfl, hmem⟩, exc, hfailure, hscript⟩
  · exact .inr hcase

theorem logs (hdrawn : Undrawn rt key) :
    Script.Logs (messageOwnership threadId summaryPrefix activities m expired hdrawn)
      (Says threadId key agentId) (channelScript renders key feed) where
  mid es v hes hv := by
    rcases h.cases with ⟨_, _, exc, _, hscript⟩ | ⟨_, hnil⟩ | ⟨hrenders, hentries, _⟩
    · rw [hscript, List.prefix_nil] at hes
      subst hes
      cases hv
      exact .inl rfl
    · rw [hnil, List.prefix_nil] at hes
      subst hes
      cases hv
      exact .inl rfl
    · rw [hentries] at hes
      rcases exists_log_of_says hes hv with rfl | ⟨sent, hsent, hlog⟩
      · exact .inl rfl
      · exact .inr ⟨name, agentId, sent, h.author hrenders, hsent, hlog⟩
  ends v hv := by
    rcases h.cases with ⟨other, hbefore, exc, hbroken, hscript⟩ | ⟨hskipped, hnil⟩ |
      ⟨hrenders, hentries, hfailure⟩
    · rw [hscript] at hv ⊢
      cases hv
      exact .inl ⟨rfl, .behind hbefore hbroken rfl⟩
    · rw [hnil] at hv
      cases hv
      exact .inl ⟨rfl, h.unsaid hskipped _ _⟩
    · rw [hentries] at hv
      exact .inr ⟨name, agentId, h.author hrenders, messageLog_of_says hv, hfailure⟩

variable (expired) in
theorem drain (hdrawn : Undrawn rt key) :
    ScriptedDrain (messageOwnership threadId summaryPrefix activities m expired hdrawn)
      (othersOf rt threadId summaryPrefix activities (Item.clashes key))
      (Says threadId key agentId) (channelScript renders key feed) where
  env := rfl
  frames _ _ hframes := congrArg (framesOfMessage key) hframes
  logs := h.logs hdrawn

variable {tag : String} {other : ModelMessage}

theorem voices_own (hdrawn : Undrawn rt key) (hid : other.messageId.getD "" = key) :
    ScriptedDrain.Voices (messageOwnership threadId summaryPrefix activities m expired hdrawn)
      (Says threadId key agentId) (channelScript renders key feed) rt tag agentId other
      (.entry .anchor) fun chunk => .entry (.chunk chunk) where
  anchor msgId hresolves ordinal createdAt := by
    rw [id_of_resolves hresolves hid h.nonempty]
    let D := h.drain expired hdrawn
    refine D.performs_atomically_bind (fun _ => ⟨rfl, rfl, rfl⟩) (fun _ => rfl) fun w _ => ?_
    refine D.performs_readSelf_bind fun t ht _ => ?_
    rw [ht]
    refine D.performs_write fun es w hes => ?_
    change Says _ _ _ _ (framesOfMessage key (w.write _).frames)
    rw [framesOfMessage_write (isMessageRow_message.mpr rfl)]
    exact List.rel_append hes (.cons (.anchor ordinal _ createdAt) .nil)
  chunk msgId hresolves chunk := by
    rw [id_of_resolves hresolves hid h.nonempty]
    let D := h.drain expired hdrawn
    refine D.performs_readSelf_bind fun t ht _ => ?_
    rw [ht]
    refine D.performs_write fun es w hes => ?_
    change Says _ _ _ _ (framesOfMessage key (w.write _).frames)
    rw [framesOfMessage_write (isMessageRow_chunk.mpr rfl)]
    exact List.rel_append hes (.cons (.chunk chunk) .nil)

variable (expired) in
theorem voices_other (hdrawn : Undrawn rt key)
    (htag : ∀ n, idsClash (tag ++ rt.uuidHex n) key = false)
    (hother : (Item.message other).clashes key = false) :
    ScriptedDrain.Voices (messageOwnership threadId summaryPrefix activities m expired hdrawn)
      (Says threadId key agentId) (channelScript renders key feed) rt tag agentId other
      .done fun _ => .done where
  anchor msgId hresolves ordinal createdAt := by
    have hne : msgId ≠ key := ne_of_not_clash (apart_of_resolves htag hresolves hother)
    let D := h.drain expired hdrawn
    refine D.performs_atomically_bind (fun _ => ⟨rfl, rfl, rfl⟩) (fun _ => rfl) fun w _ => ?_
    refine D.performs_readSelf_bind fun t ht _ => ?_
    refine D.performs_write fun es w hes => ?_
    change Says _ _ _ _ (framesOfMessage key (w.write _).frames)
    rw [framesOfMessage_write_other fun hrow => hne (isMessageRow_message.mp hrow),
      List.append_nil]
    exact hes
  chunk msgId hresolves chunk := by
    have hne : msgId ≠ key := ne_of_not_clash (apart_of_resolves htag hresolves hother)
    let D := h.drain expired hdrawn
    refine D.performs_readSelf_bind fun t ht _ => ?_
    refine D.performs_write fun es w hes => ?_
    change Says _ _ _ _ (framesOfMessage key (w.write _).frames)
    rw [framesOfMessage_write_other fun hrow => hne (isMessageRow_chunk.mp hrow),
      List.append_nil]
    exact hes

end Speaks

/-! ## The drains on the way to it -/

variable (given : m.messageId.getD "" = key) (nonempty : key ≠ "") (hdrawn : Undrawn rt key)

include given nonempty

theorem speaks_top {feed : Feed ModelMessage} (mem : .messages feed ∈ activities)
    (once : (feed.items.map Item.message).filter (Item.clashes key) = [.message m]) :
    Speaks rt threadId summaryPrefix activities m key .messages none
      (rendersMessage summaryPrefix) feed where
  given := given
  nonempty := nonempty
  once := once
  channel := .top mem
  author hrenders := .top (.message mem (mem_of_once once)) hrenders (resolves_given given nonempty)
  unsaid hskipped _ _ := .hidden (.message mem (mem_of_once once)) hskipped

theorem speaks_nested {subagentId tag : String} {channel : Feed ModelMessage}
    (hchannel : MessageChannel rt activities (.subagentMessages subagentId) channel)
    (linked : (settingOf rt threadId summaryPrefix activities anyStep).Linked
      (.subagentMessages subagentId) subagentId tag)
    (once : (channel.items.map Item.message).filter (Item.clashes key) = [.message m]) :
    Speaks rt threadId summaryPrefix activities m key (.subagentMessages subagentId) (some tag)
      (fun other => other.node = some modelNode) channel where
  given := given
  nonempty := nonempty
  once := once
  channel := hchannel
  author hrenders := .nested (hchannel.drains (mem_of_once once)) (of_decide_eq_true hrenders)
    linked (resolves_given given nonempty)
  unsaid hskipped _ _ := .inner (hchannel.drains (mem_of_once once)) (of_decide_eq_false hskipped)

theorem owned_streamMessages {feed : Feed ModelMessage} (mem : .messages feed ∈ activities)
    (once : (feed.items.map Item.message).filter (Item.clashes key) = [.message m]) (w : World)
    (hw : (messageOwnership threadId summaryPrefix activities m expired hdrawn).part w = []) :
    Owned (messageOwnership threadId summaryPrefix activities m expired hdrawn)
      (streamMessages rt feed).code w := by
  have h : Speaks rt threadId summaryPrefix activities m key _ _ _ feed :=
    speaks_top given nonempty mem once
  have D := h.drain expired hdrawn
  refine Script.owned_of_performs (h.logs hdrawn) (D.performs_drainProjection ?_)
    (by rw [hw]; exact .nil)
  intro other hmem
  by_cases hid : other.messageId.getD "" = key
  · simp only [turnScript, if_pos hid]
    exact D.performs_streamMessage (h.voices_own hdrawn hid)
  · have hvoices := h.voices_other expired hdrawn hdrawn.msg (h.other_apart hmem hid)
    have hturn := D.performs_streamMessage hvoices
    rw [speechScript_done] at hturn
    simp only [turnScript, if_neg hid]
    exact hturn

/-- A subagent's drain that has its link says the message as one at the top level does. -/
theorem runs_drainFeed {subagentId tag : String} {channel : Feed ModelMessage}
    (hchannel : MessageChannel rt activities (.subagentMessages subagentId) channel)
    (linked : (settingOf rt threadId summaryPrefix activities anyStep).Linked
      (.subagentMessages subagentId) subagentId tag)
    (once : (channel.items.map Item.message).filter (Item.clashes key) = [.message m]) :
    Runs (messageOwnership threadId summaryPrefix activities m expired hdrawn)
      (Holds (messageOwnership threadId summaryPrefix activities m expired hdrawn) [])
      (drainFeed (drainSubagentMessage rt subagentId tag) channel) fun _ w =>
        (messageOwnership threadId summaryPrefix activities m expired hdrawn).Rests w ∧
        (messageOwnership threadId summaryPrefix activities m expired hdrawn).ends none
          ((messageOwnership threadId summaryPrefix activities m expired hdrawn).part w) := by
  have h : Speaks rt threadId summaryPrefix activities m key _ (some tag) _ channel :=
    speaks_nested given nonempty hchannel linked once
  have D := h.drain expired hdrawn
  refine Script.runs_of_performs (h.logs hdrawn) (D.performs_drainFeed ?_) .nil
  intro other hmem
  by_cases hid : other.messageId.getD "" = key
  · simp only [turnScript, if_pos hid, decide_eq_true_eq]
    exact D.performs_drainSubagentMessage (h.voices_own hdrawn hid) subagentId
  · have hvoices := h.voices_other expired hdrawn hdrawn.submsg (h.other_apart hmem hid)
    have hturn := D.performs_drainSubagentMessage hvoices subagentId
    rw [speechScript_done] at hturn
    simp only [turnScript, if_neg hid, decide_eq_true_eq]
    exact hturn

theorem owned_drainSubagentMessages {subagentId : String} {channel : Feed ModelMessage}
    (hchannel : MessageChannel rt activities (.subagentMessages subagentId) channel)
    (once : (channel.items.map Item.message).filter (Item.clashes key) = [.message m]) (w : World)
    (hw : (messageOwnership threadId summaryPrefix activities m expired hdrawn).part w = []) :
    Owned (messageOwnership threadId summaryPrefix activities m expired hdrawn)
      (drainSubagentMessages rt subagentId channel).code w := by
  let O := messageOwnership threadId summaryPrefix activities m expired hdrawn
  have hruns : Runs O (Holds O []) (drainSubagentMessages rt subagentId channel) fun _ w =>
      O.Rests w ∧ O.ends none (O.part w) := by
    refine runs_bind_of (runs_subagentAgentId (.subagentMessages subagentId) subagentId rfl
      (fun _ _ => rfl) (.inl rfl)) fun agentId hlinked => ?_
    cases agentId with
    | none =>
        refine runs_pure ?_
        rintro w ⟨hi, hpart⟩
        exact ⟨⟨hi, .inl hpart⟩, .inl ⟨hpart, .unlinked
          (hchannel.drains (mem_of_once once)) (hlinked.1 rfl) rfl⟩⟩
    | some tag => exact runs_drainFeed given nonempty hdrawn hchannel (hlinked.2 tag rfl) once
  exact owned_code hruns (fun _ h => h) hw

theorem allPass_messages {feed : Feed Subgraph} (mem : .subgraphs feed ∈ activities) :
    AllPass (messageOwnership threadId summaryPrefix activities m expired hdrawn) [] rt
      (Item.clashes key) (.message m) feed.items := by
  let E := othersOf rt threadId summaryPrefix activities (Item.clashes key)
  intro sg within agent subagentId hid
  refine ⟨?_, ?_, ?_, ?_, ?_⟩
  · intro channel hchannel hnot
    exact stable_of_preserves (Setting.writes_drainSubagentMessages (E := E) fun other hmem =>
      ⟨.nestedMessage mem within agent hid hchannel hmem, hnot other hmem⟩)
  · intro channel hchannel once
    have h : MessageChannel rt activities (.subagentMessages subagentId) channel :=
      .nested mem within agent hid hchannel
    exact custodian_of_owned (h.drains (mem_of_once once))
      (owned_drainSubagentMessages given nonempty hdrawn h once)
  · intro channel hchannel hnot
    exact stable_of_preserves (Setting.writes_drainSubagentTools (E := E) fun other hmem =>
      ⟨.nestedCall mem within agent hid hchannel hmem, hnot other hmem⟩)
  · intro channel _ once
    obtain ⟨_, tc, _, _, htc, _⟩ := split_of_filter_map once
    cases htc
  · intro channel hchannel
    exact stable_of_preserves (Setting.writes_drainSubagentLifecycle (E := E) fun p hp =>
      ⟨.nestedPayload mem within agent hid hchannel hp, rfl⟩)

theorem custodian_of_message {a : Activity} (mem : a ∈ activities)
    (once : a.items.filter (Item.clashes key) = [.message m]) :
    Custodian (messageOwnership threadId summaryPrefix activities m expired hdrawn) []
      (a.thread rt) := by
  cases a with
  | messages feed =>
      exact custodian_of_owned (.message mem (mem_of_once once))
        (owned_streamMessages given nonempty hdrawn mem once)
  | subgraphs feed =>
      exact custodian_of_handsOver (handsOver_drainSubgraphs Setting.drawsIds_rowProtocol _ _ 0 _
        (allPass_messages given nonempty hdrawn mem) once _)
  | toolCalls feed =>
      obtain ⟨_, tc, _, _, htc, _⟩ := split_of_filter_map once
      cases htc
  | userMessage msgId text attachments =>
      have hmem : Item.message m ∈
          (Activity.userMessage msgId text attachments).items.filter (Item.clashes key) := by
        rw [once]
        exact List.mem_cons_self
      cases List.mem_singleton.mp (List.mem_of_mem_filter hmem)
  | _ => cases once

end Task

/-! ## Whole runs -/

def Item.differs (key : String) : Item → Bool
  | .message m => m.messageId.getD "" ≠ key
  | _ => true

/-- A run with a model message whose id is like no other of it. -/
structure SpeechRun extends TranslatorRun where
  message : ModelMessage
  given : message.messageId.getD "" ≠ ""
  undrawn : Undrawn rt (message.messageId.getD "")
  alone : (runItems activities).filter (Item.clashes (message.messageId.getD "")) =
    [.message message]

namespace SpeechRun

variable (r : SpeechRun)

def key : String := r.message.messageId.getD ""

def frames : List Frame := framesOfMessage r.key r.final.state.frames

/-- What a client shows of the message on a channel. -/
def shown (channel : ChunkChannel) : String := reassembled r.final.state.frames r.key channel

def circumstances : Circumstances where
  expired := r.GaveUp (.message r.message)
  before := ComesBefore r.rt r.activities r.message

/-- The rows of the message are those of its own stream, at any moment and in the end. -/
structure Translated : Prop where
  current : MessageRuns r.setting r.message r.key r.frames
  reads : ∀ channel, ∃ rest, r.shown channel ++ rest = streamText channel r.message.events.items
  ends : r.Ended → ∃ failure,
    MessageEnds r.setting r.circumstances r.message r.key failure r.frames ∧ r.Raised failure
  whole : r.Ended → r.message.failure = none → r.frames ≠ [] →
    ∀ channel, r.shown channel = streamText channel r.message.events.items

def ownership : Ownership TaskName World PyException (List Frame) :=
  messageOwnership r.threadId r.summaryPrefix r.activities r.message
    (r.GaveUp (.message r.message)) r.undrawn

theorem mid_nil : r.ownership.mid [] := .inl rfl

theorem inCustody : InCustody r.ownership [] (∃ i, .cancel i ∈ r.schedule) r.final :=
  TranslatorRun.inCustody (picksListed_clashes _) rfl r.mid_nil rfl (fun _ h => h) id r.alone
    fun _ hmem once => custodian_of_message rfl r.given r.undrawn hmem once

/-- An item of the run that clashes with the key is the message. -/
theorem id_of_drains {name : TaskName} {m : ModelMessage}
    (h : drains r.rt r.activities name (.message m))
    (hclash : (Item.message m).clashes r.key) : m.messageId.getD "" = r.key := by
  let mine : Item → Bool := fun item => item.clashes r.key && item.differs r.key
  have hnone : ∀ item ∈ runItems r.activities, mine item = false := by
    intro item hmem
    by_contra hmine
    obtain ⟨hclash, hid⟩ := Bool.and_eq_true_iff.mp (Bool.not_eq_false _ ▸ hmine)
    have hfilter := List.mem_filter.mpr ⟨hmem, hclash⟩
    rw [key, r.alone, List.mem_singleton] at hfilter
    subst hfilter
    exact of_decide_eq_true hid rfl
  have hmine : mine (.message m) = false :=
    mine_of_drains ⟨fun _ => rfl, fun _ => rfl⟩ hnone h
  change ((Item.message m).clashes r.key && (Item.message m).differs r.key) = false at hmine
  rw [hclash, Bool.true_and] at hmine
  exact not_not.mp (of_decide_eq_false hmine)

theorem apart_or_own {name : TaskName} {agentId : Option String} {msgId : String}
    (h : r.setting.MessageAuthor name agentId msgId) :
    msgId = r.key ∨ idsClash msgId r.key = false := by
  have hsource : ∀ {tag : String} {m : ModelMessage},
      (∀ n, idsClash (tag ++ r.rt.uuidHex n) r.key = false) →
        drains r.rt r.activities name (.message m) → ResolvesTo r.rt tag m.messageId msgId →
          msgId = r.key ∨ idsClash msgId r.key = false := by
    intro tag m htag hdrains hid
    by_cases hclash : (Item.message m).clashes r.key
    · exact .inl (id_of_resolves hid (r.id_of_drains hdrains hclash) r.given)
    · exact .inr (apart_of_resolves htag hid (Bool.eq_false_iff.mpr hclash))
  cases h with
  | top item _ id => exact hsource r.undrawn.msg item id
  | nested item _ _ id => exact hsource r.undrawn.submsg item id

theorem apart {f : Frame} (hf : f ∈ r.final.state.frames) (htype : f.type = .messageChunk)
    (hrow : f.isMessageRow r.key = false) (channel : ChunkChannel) (n : ℕ) :
    f.key ≠ chunkId r.key channel n := by
  obtain ⟨name, hwritten⟩ := written_of_reaches (reaches_of_follow r.follows) f hf
  cases hwritten with
  | chunk author channel' seq text =>
      rcases r.apart_or_own author with hown | hapart
      · exact absurd (isMessageRow_chunk.mpr hown) (Bool.eq_false_iff.mp hrow)
      · exact chunkId_ne hapart channel' channel seq n
  | custom _ row =>
      cases row with
      | _ => cases htype
  | _ => cases htype

theorem sends {threadId : String} {agentId : Option String} {cs : List Chunk}
    (hlog : MessageLog threadId r.key agentId cs r.frames) :
    Sends threadId r.key agentId cs r.final.state.frames where
  sent f hf htype := by
    obtain ⟨ordinal, order, createdAt, hframes⟩ := hlog
    change f ∈ r.frames at hf
    rw [hframes] at hf
    rcases List.mem_cons.mp hf with rfl | hf
    · cases htype
    · obtain ⟨c, hc, rfl⟩ := List.mem_map.mp hf
      exact ⟨c, hc, rfl⟩
  written c hc := by
    obtain ⟨ordinal, order, createdAt, hframes⟩ := hlog
    have hmem : chunkFrameOf threadId r.key agentId c ∈ r.frames := by
      rw [hframes]
      exact List.mem_cons_of_mem _ (List.mem_map_of_mem hc)
    exact List.mem_of_mem_filter hmem
  apart f hf htype hrow := r.apart hf htype hrow

theorem sends_nil (hframes : r.frames = []) :
    Sends r.threadId r.key none [] r.final.state.frames where
  sent f hf _ := by
    change f ∈ r.frames at hf
    rw [hframes] at hf
    cases hf
  written _ hc := absurd hc List.not_mem_nil
  apart f hf htype hrow := r.apart hf htype hrow

theorem reads_of_sends {threadId : String} {agentId : Option String} {cs : List Chunk}
    (h : Sends threadId r.key agentId cs r.final.state.frames)
    (hcs : cs <+: streamChunks r.message.events.items) (channel : ChunkChannel) :
    ∃ rest, r.shown channel ++ rest = streamText channel r.message.events.items := by
  obtain ⟨qs, hqs, hfilter⟩ := filter_sent hcs channel
  obtain ⟨rest, hrest⟩ := hqs.map String.ofList
  refine ⟨String.join rest, ?_⟩
  rw [← join_streamPieces, streamPieces, ← hrest, String.join_append, shown, h.reassembled hfilter]

/-- Of a sound message that has been shown, all has been sent in the end. -/
theorem sends_of_ended (h : r.Ended) (hfailure : r.message.failure = none) (hne : r.frames ≠ []) :
    ∃ threadId agentId, Sends threadId r.key agentId (streamChunks r.message.events.items)
      r.final.state.frames := by
  obtain ⟨_, hends, _⟩ := TranslatorRun.ends_of_ended r.inCustody h
  obtain ⟨_, _, _, hlog, _⟩ := hends.resolve_left fun hnil => hne hnil.1
  rw [ModelMessage.sent_eq hfailure] at hlog
  exact ⟨_, _, r.sends hlog⟩

end SpeechRun

theorem translated_of_speechRun (r : SpeechRun) : r.Translated where
  current := (r.inCustody.rests r.mid_nil).2
  reads channel := by
    rcases (r.inCustody.rests r.mid_nil).2 with hnil | ⟨_, _, cs, _, hcs, hlog⟩
    · exact r.reads_of_sends (r.sends_nil hnil) List.nil_prefix channel
    · exact r.reads_of_sends (r.sends hlog) (hcs.trans r.message.prefix_streamChunks) channel
  ends h := TranslatorRun.ends_of_ended r.inCustody h
  whole h hfailure hne channel := by
    obtain ⟨_, _, hsends⟩ := r.sends_of_ended h hfailure hne
    exact hsends.reassembled_stream channel

def speaking : List Activity :=
  [.source [.subgraphs, .custom], .custom ⟨[startPayload "sa1" "c0"], none⟩,
    .subgraphs ⟨[.mk (some "subagent") (some "sa0") none none none
      (some ([.mk (some "subagent") (some "sa1") (some ⟨[textMessage "m" ["a", "b"]], none⟩) none
        none none], none))], none⟩]

theorem undrawn_plainRuntime : Undrawn plainRuntime "m" where
  msg n := by simp [idsClash, keyBase, plainRuntime, ← String.toList_inj]
  submsg n := by simp [idsClash, keyBase, plainRuntime, ← String.toList_inj]

/-- The drain of the message waits for the link of its subagent. -/
def speakingBelow : SpeechRun where
  rt := plainRuntime
  threadId := "t"
  runId := "r"
  summaryPrefix := "summarization-"
  orderStart := 0
  ordinalStart := 0
  activities := speaking
  schedule := [.run 0, .run 2, .run 3, .run 4, .run 0, .run 1, .run 4, .run 4, .run 4, .run 4,
    .run 4, .run 4]
  final := ((startSystem plainRuntime (Translator.seeded "t" "r" "summarization-" 0 0)
    speaking).follow [.run 0, .run 2, .run 3, .run 4, .run 0, .run 1, .run 4, .run 4, .run 4,
      .run 4, .run 4, .run 4]).get rfl
  follows := rfl
  message := textMessage "m" ["a", "b"]
  given := by decide
  undrawn := undrawn_plainRuntime
  alone := by
    simp [speaking, runItems, Activity.items, itemsOf, Subgraph.items, ownItems, Item.clashes,
      textMessage, idsClash]

theorem translated_of_speechRun_speakingBelow :
    speakingBelow.shown .text = "ab" ∧ speakingBelow.Ended ∧ speakingBelow.Translated :=
  ⟨by decide, ⟨by simp [speakingBelow], by decide⟩, translated_of_speechRun speakingBelow⟩

end StreamDB
