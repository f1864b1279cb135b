import StreamDB.Custody
import StreamDB.OwnedChannel

/-!
# The task of one item

A message or a tool call of a run is worked on by one task, which may be created late and deep in
the tree of subagents. `runItems` lists the items of a run; one that the list has once is in the
custody of the tasks on the way to its own.
-/

namespace StreamDB

open Coroutine

/-! ## The items of a run -/

def ownItems (messages : Option (Feed ModelMessage)) (toolCalls : Option (Feed ToolCallExecution)) :
    List Item :=
  ((messages.map Feed.items).getD []).map .message ++
    ((toolCalls.map Feed.items).getD []).map .toolCall

mutual

/-- The messages and tool calls of subagents at any depth. -/
def itemsOf : List Subgraph → List Item
  | [] => []
  | sg :: sgs => sg.items ++ itemsOf sgs

def Subgraph.items : Subgraph → List Item
  | .mk graphName _ messages toolCalls _ none =>
      if graphName = some "subagent" then ownItems messages toolCalls else []
  | .mk graphName _ messages toolCalls _ (some (sgs, _)) =>
      if graphName = some "subagent" then ownItems messages toolCalls ++ itemsOf sgs else []

end

def Activity.items : Activity → List Item
  | .userMessage msgId text attachments => [.userMessage msgId text attachments]
  | .messages feed => feed.items.map .message
  | .toolCalls feed => feed.items.map .toolCall
  | .subgraphs feed => itemsOf feed.items
  | _ => []

/-- What the tasks of a run put on the stream as messages and tool calls. -/
def runItems (activities : List Activity) : List Item := activities.flatMap Activity.items

theorem Subgraph.ownItems_subset {sg : Subgraph} (agent : sg.isSubagent) :
    ownItems sg.messages sg.toolCalls ⊆ sg.items := by
  match sg, agent with
  | .mk graphName _ messages toolCalls _ none, agent =>
      have hname : graphName = some "subagent" := agent
      rw [items, if_pos hname]
      exact List.Subset.refl _
  | .mk graphName _ messages toolCalls _ (some (sgs, _)), agent =>
      have hname : graphName = some "subagent" := agent
      rw [items, if_pos hname]
      exact List.subset_append_left _ _

theorem Subgraph.nested_subset {sg : Subgraph} {inner : List Subgraph} {error : Option PyException}
    (agent : sg.isSubagent) (nested : sg.nested = some (inner, error)) :
    itemsOf inner ⊆ sg.items := by
  match sg, agent, nested with
  | .mk graphName _ messages toolCalls _ (some (sgs, _)), agent, rfl =>
      have hname : graphName = some "subagent" := agent
      rw [items, if_pos hname]
      exact List.subset_append_right _ _

theorem items_subset_of_mem {sg : Subgraph} {sgs : List Subgraph} (h : sg ∈ sgs) :
    sg.items ⊆ itemsOf sgs := by
  induction sgs with
  | nil => cases h
  | cons other sgs ih =>
      rw [itemsOf]
      rcases List.mem_cons.mp h with rfl | h
      · exact List.subset_append_left _ _
      · exact List.Subset.trans (ih h) (List.subset_append_right _ _)

/-- The items of a subagent are listed with those of all handles above it. -/
theorem Subgraph.Within.items_subset {sg : Subgraph} {sgs : List Subgraph} (h : sg.Within sgs) :
    sg.items ⊆ itemsOf sgs := by
  induction h with
  | here mem => exact items_subset_of_mem mem
  | deeper mem agent nested _ ih =>
      exact List.Subset.trans ih
        (List.Subset.trans (Subgraph.nested_subset agent nested) (items_subset_of_mem mem))

/-! ## The tasks on the way to an item -/

section Tree

variable {π : Type} {O : Ownership TaskName World PyException π} {v₀ : π} {rt : Runtime}
  {mine : Item → Bool} {item : Item} {name : TaskName}

variable (O v₀ rt mine item) in
/-- A drain of a subagent's own projections leaves the part alone, or has it in custody if the
projection holds the item. -/
structure DrainsPass (sg : Subgraph) (subagentId : String) : Prop where
  messages : ∀ channel, sg.messages = some channel →
    (∀ m ∈ channel.items, mine (.message m) = false) → ∀ w, Stable O.env
      (.subagentMessages subagentId, (drainSubagentMessages rt subagentId channel).code) w
  message : ∀ channel, sg.messages = some channel →
    (channel.items.map Item.message).filter mine = [item] →
      Custodian O v₀
        (.subagentMessages subagentId, (drainSubagentMessages rt subagentId channel).code)
  toolCalls : ∀ channel, sg.toolCalls = some channel →
    (∀ tc ∈ channel.items, mine (.toolCall tc) = false) → ∀ w, Stable O.env
      (.subagentTools subagentId, (drainSubagentTools rt subagentId channel).code) w
  toolCall : ∀ channel, sg.toolCalls = some channel →
    (channel.items.map Item.toolCall).filter mine = [item] →
      Custodian O v₀ (.subagentTools subagentId, (drainSubagentTools rt subagentId channel).code)
  custom : ∀ channel, sg.custom = some channel → ∀ w,
    Stable O.env (.subagentLifecycle subagentId, (drainSubagentLifecycle channel).code) w

theorem forall_mine_of_filter {items : List Item} (h : items.filter mine = []) :
    ∀ it ∈ items, mine it = false := by
  intro it hit
  rw [List.filter_eq_nil_iff] at h
  exact Bool.eq_false_iff.mpr (h it hit)

theorem DrainsPass.keep {sg : Subgraph} {subagentId : String}
    (h : DrainsPass O v₀ rt mine item sg subagentId)
    (hnone : ∀ it ∈ ownItems sg.messages sg.toolCalls, mine it = false) :
    DrainsKeep rt O.env sg subagentId where
  messages channel hchannel := by
    refine h.messages channel hchannel fun m hm => hnone _ (List.mem_append_left _ ?_)
    rw [hchannel]
    exact List.mem_map_of_mem hm
  toolCalls channel hchannel := by
    refine h.toolCalls channel hchannel fun tc htc => hnone _ (List.mem_append_right _ ?_)
    rw [hchannel]
    exact List.mem_map_of_mem htc
  custom := h.custom

theorem holdsOn_idOr (hids : DrawsIds O.env) (tag : String) (value : Option String) :
    HoldsOn O v₀ name (idOr rt tag value) (ResolvesTo rt tag value) := by
  unfold idOr
  split_ifs with habsent
  · exact holdsOn_atomically fun w hw =>
      ⟨(hids name w hw).1, (hids name w hw).2, .fresh habsent w.uuids⟩
  · exact holdsOn_pure (.given habsent)

theorem holdsOn_spawnSome {child : TaskName} {α : Type} {drain : α → Task Unit}
    {channel : Option α}
    (hdrain : ∀ c, channel = some c → ∀ w, Stable O.env (child, (drain c).code) w) :
    HoldsOn O v₀ name (spawnSome child drain channel) fun _ => True := by
  cases channel with
  | none => exact holdsOn_pure trivial
  | some c => exact holdsOn_spawn (hdrain c rfl)

/-- The tasks of a subagent's own projections are created before those below it. -/
theorem holdsOn_spawnDrains {sg : Subgraph} {subagentId : String}
    (hkeep : DrainsKeep rt O.env sg subagentId) {rest : Task Unit} {Q : Unit → Prop}
    (hrest : HoldsOn O v₀ name rest Q) :
    HoldsOn O v₀ name (do
      spawnSome (.subagentMessages subagentId) (drainSubagentMessages rt subagentId) sg.messages
      spawnSome (.subagentTools subagentId) (drainSubagentTools rt subagentId) sg.toolCalls
      spawnSome (.subagentLifecycle subagentId) drainSubagentLifecycle sg.custom
      rest) Q :=
  holdsOn_bind (holdsOn_spawnSome hkeep.messages) fun _ _ =>
    holdsOn_bind (holdsOn_spawnSome hkeep.toolCalls) fun _ _ =>
      holdsOn_bind (holdsOn_spawnSome hkeep.custom) fun _ _ => hrest

theorem handsOver_below {sg : Subgraph} {subagentId : String}
    (hkeep : DrainsKeep rt O.env sg subagentId) {rest : Task Unit}
    (hrest : HandsOver O v₀ name rest) :
    HandsOver O v₀ name (do
      spawnSome (.subagentMessages subagentId) (drainSubagentMessages rt subagentId) sg.messages
      spawnSome (.subagentTools subagentId) (drainSubagentTools rt subagentId) sg.toolCalls
      spawnSome (.subagentLifecycle subagentId) drainSubagentLifecycle sg.custom
      rest) :=
  (holdsOn_spawnSome hkeep.messages).handsOver fun _ _ =>
    (holdsOn_spawnSome hkeep.toolCalls).handsOver fun _ _ =>
      (holdsOn_spawnSome hkeep.custom).handsOver fun _ _ => hrest

theorem handsOver_spawnDrains {sg : Subgraph} {subagentId : String}
    (hpass : DrainsPass O v₀ rt mine item sg subagentId)
    (hown : (ownItems sg.messages sg.toolCalls).filter mine = [item]) {rest : Task Unit}
    (hrest : Preserves O.env name rest) :
    HandsOver O v₀ name (do
      spawnSome (.subagentMessages subagentId) (drainSubagentMessages rt subagentId) sg.messages
      spawnSome (.subagentTools subagentId) (drainSubagentTools rt subagentId) sg.toolCalls
      spawnSome (.subagentLifecycle subagentId) drainSubagentLifecycle sg.custom
      rest) := by
  rw [ownItems, List.filter_append, List.append_eq_singleton_iff] at hown
  rcases hown with ⟨hmessages, hcalls⟩ | ⟨hmessages, hcalls⟩
  · refine (holdsOn_spawnSome fun channel hchannel => hpass.messages channel hchannel ?_).handsOver
      fun _ _ => ?_
    · rw [hchannel] at hmessages
      exact fun m hm => forall_mine_of_filter hmessages _ (List.mem_map_of_mem hm)
    refine handsOver_bind ?_ fun _ =>
      preserves_bind (preserves_spawnSome hpass.custom) fun _ => hrest
    cases hchannel : sg.toolCalls with
    | none =>
        rw [hchannel] at hcalls
        cases hcalls
    | some channel =>
        rw [hchannel] at hcalls
        exact handsOver_spawn (hpass.toolCall channel hchannel hcalls)
  · refine handsOver_bind ?_ fun _ => preserves_bind (preserves_spawnSome ?_) fun _ =>
      preserves_bind (preserves_spawnSome hpass.custom) fun _ => hrest
    · cases hchannel : sg.messages with
      | none =>
          rw [hchannel] at hmessages
          cases hmessages
      | some channel =>
          rw [hchannel] at hmessages
          exact handsOver_spawn (hpass.message channel hchannel hmessages)
    · intro channel hchannel
      apply hpass.toolCalls channel hchannel
      rw [hchannel] at hcalls
      exact fun tc htc => forall_mine_of_filter hcalls _ (List.mem_map_of_mem htc)

variable (O v₀ rt mine item) in
/-- The drains of all subagents below the given handles leave the part alone or have it in
custody. -/
def AllPass (sgs : List Subgraph) : Prop :=
  ∀ sg, sg.Within sgs → sg.isSubagent → ∀ subagentId,
    ResolvesTo rt "sa_" sg.triggerCallId subagentId → DrainsPass O v₀ rt mine item sg subagentId

theorem AllPass.keep {sgs : List Subgraph} (h : AllPass O v₀ rt mine item sgs)
    (hnone : (itemsOf sgs).filter mine = []) :
    ∀ sg, sg.Within sgs → sg.isSubagent → ∀ subagentId,
      ResolvesTo rt "sa_" sg.triggerCallId subagentId → DrainsKeep rt O.env sg subagentId := by
  intro sg hwithin agent subagentId hid
  refine (h sg hwithin agent subagentId hid).keep fun it hit => ?_
  exact forall_mine_of_filter hnone it
    (hwithin.items_subset (Subgraph.ownItems_subset agent hit))

theorem AllPass.tail {sg : Subgraph} {sgs : List Subgraph}
    (h : AllPass O v₀ rt mine item (sg :: sgs)) : AllPass O v₀ rt mine item sgs :=
  fun sg' hwithin => h sg' hwithin.cons

theorem AllPass.nested {sg : Subgraph} {sgs inner : List Subgraph} {error : Option PyException}
    (h : AllPass O v₀ rt mine item (sg :: sgs)) (agent : sg.isSubagent)
    (nested : sg.nested = some (inner, error)) : AllPass O v₀ rt mine item inner :=
  fun sg' hwithin => h sg' (.deeper List.mem_cons_self agent nested hwithin)

theorem holdsOn_drainSubgraph (hids : DrawsIds O.env) {sg : Subgraph} {sgs : List Subgraph}
    (hpass : AllPass O v₀ rt mine item (sg :: sgs)) (hnone : sg.items.filter mine = []) :
    HoldsOn O v₀ name (drainSubgraph rt sg) fun _ => True := by
  have hkeep : ∀ subagentId, sg.isSubagent → ResolvesTo rt "sa_" sg.triggerCallId subagentId →
      DrainsKeep rt O.env sg subagentId := fun subagentId agent hid =>
    (hpass sg (.here List.mem_cons_self) agent subagentId hid).keep fun it hit =>
      forall_mine_of_filter hnone it (Subgraph.ownItems_subset agent hit)
  match sg with
  | .mk graphName triggerCallId messages toolCalls custom none =>
      unfold drainSubgraph
      split_ifs with agent
      · refine holdsOn_bind (holdsOn_idOr hids _ _) fun subagentId hid => ?_
        have hdone : HoldsOn O v₀ name (pure ()) fun _ => True := holdsOn_pure trivial
        have hspawned : HoldsOn O v₀ name _ fun _ => True :=
          holdsOn_spawnDrains (hkeep subagentId agent hid) hdone
        exact hspawned
      · exact holdsOn_pure trivial
  | .mk graphName triggerCallId messages toolCalls custom (some (inner, error)) =>
      unfold drainSubgraph
      split_ifs with agent
      · refine holdsOn_bind (holdsOn_idOr hids _ _) fun subagentId hid => ?_
        refine holdsOn_spawnDrains (hkeep subagentId agent hid) (holdsOn_spawn fun w => ?_)
        refine stable_of_preserves ?_ w
        refine preserves_drainSubgraphs hids _ error 0 inner ((hpass.nested agent rfl).keep ?_) _
        rw [Subgraph.items, if_pos agent, List.filter_append, List.append_eq_nil_iff] at hnone
        exact hnone.2
      · exact holdsOn_pure trivial

mutual

/-- A drain of subagents hands over where it comes to the item. -/
theorem handsOver_drainSubgraphs (hids : DrawsIds O.env) (ready : ℕ → World → Bool)
    (error : Option PyException) (i : ℕ) (sgs : List Subgraph)
    (hpass : AllPass O v₀ rt mine item sgs) (hone : (itemsOf sgs).filter mine = [item])
    (name : TaskName) : HandsOver O v₀ name (drainSubgraphs rt ready error i sgs) := by
  cases sgs with
  | nil => cases hone
  | cons sg sgs =>
      rw [itemsOf, List.filter_append, List.append_eq_singleton_iff] at hone
      refine (holdsOn_awaiting _).handsOver fun _ _ => ?_
      rcases hone with ⟨hnone, hone⟩ | ⟨hone, hnone⟩
      · refine (holdsOn_drainSubgraph hids hpass hnone).handsOver fun _ _ => ?_
        exact handsOver_drainSubgraphs hids ready error (i + 1) sgs hpass.tail hone name
      · refine handsOver_bind (handsOver_drainSubgraph hids sg sgs hpass hone name) fun _ => ?_
        exact preserves_drainSubgraphs hids ready error (i + 1) sgs (hpass.tail.keep hnone) name

theorem handsOver_drainSubgraph (hids : DrawsIds O.env) (sg : Subgraph) (sgs : List Subgraph)
    (hpass : AllPass O v₀ rt mine item (sg :: sgs)) (hone : sg.items.filter mine = [item])
    (name : TaskName) : HandsOver O v₀ name (drainSubgraph rt sg) := by
  have hown := hpass sg (.here List.mem_cons_self)
  match sg with
  | .mk graphName triggerCallId messages toolCalls custom none =>
      rw [Subgraph.items] at hone
      unfold drainSubgraph
      split_ifs at hone ⊢ with agent
      · refine (holdsOn_idOr hids _ _).handsOver fun subagentId hid => ?_
        exact handsOver_spawnDrains (hown agent subagentId hid) hone (preserves_pure ())
      · cases hone
  | .mk graphName triggerCallId messages toolCalls custom (some (inner, error)) =>
      rw [Subgraph.items] at hone
      unfold drainSubgraph
      split_ifs at hone ⊢ with agent
      · rw [List.filter_append, List.append_eq_singleton_iff] at hone
        have hinner := hpass.nested agent rfl
        refine (holdsOn_idOr hids _ _).handsOver fun subagentId hid => ?_
        rcases hone with ⟨hnone, hone⟩ | ⟨hone, hnone⟩
        · refine handsOver_below ((hown agent subagentId hid).keep (forall_mine_of_filter hnone)) ?_
          exact handsOver_spawn (custodian_of_handsOver
            (handsOver_drainSubgraphs hids _ error 0 inner hinner hone _))
        · refine handsOver_spawnDrains (hown agent subagentId hid) hone (preserves_spawn ?_)
          exact preserves_drainSubgraphs hids _ error 0 inner (hinner.keep hnone) _
      · cases hone

end

end Tree

theorem split_of_filter_map {α β : Type} {f : α → β} {p : β → Bool} {l : List α} {b : β}
    (h : (l.map f).filter p = [b]) :
    ∃ before a after, l = before ++ a :: after ∧ f a = b ∧
      ∀ other ∈ before ++ after, p (f other) = false := by
  rw [List.filter_map, List.map_eq_singleton_iff] at h
  obtain ⟨a, ha, rfl⟩ := h
  obtain ⟨before, after, rfl, hbefore, _, hafter⟩ := List.filter_eq_cons_iff.mp ha
  refine ⟨before, a, after, rfl, rfl, List.forall_mem_append.mpr ⟨?_, ?_⟩⟩
  · exact fun other hother => Bool.eq_false_iff.mpr (hbefore other hother)
  · rw [List.filter_eq_nil_iff] at hafter
    exact fun other hother => Bool.eq_false_iff.mpr (hafter other hother)

/-! ## The others -/

/-- The tasks of a run, as far as they do not work on the picked items. -/
def othersOf (rt : Runtime) (threadId summaryPrefix : String) (activities : List Activity)
    (mine : Item → Bool) : Setting where
  rt := rt
  threadId := threadId
  summaryPrefix := summaryPrefix
  source name item := drains rt activities name item ∧ mine item = false
  allowed := anyStep

structure PicksListed (mine : Item → Bool) : Prop where
  payload : ∀ p, mine (.payload p) = false
  snapshot : ∀ state, mine (.snapshot state) = false

theorem drains_mono {rt : Runtime} {activities activities' : List Activity} {name : TaskName}
    {item : Item} (h : drains rt activities name item) (hsub : activities ⊆ activities') :
    drains rt activities' name item := by
  cases h with
  | userMessage mem => exact .userMessage (hsub mem)
  | message mem item => exact .message (hsub mem) item
  | payload mem item => exact .payload (hsub mem) item
  | toolCall mem item => exact .toolCall (hsub mem) item
  | snapshot mem item => exact .snapshot (hsub mem) item
  | nestedMessage mem within agent id projection item =>
      exact .nestedMessage (hsub mem) within agent id projection item
  | nestedCall mem within agent id projection item =>
      exact .nestedCall (hsub mem) within agent id projection item
  | nestedPayload mem within agent id projection item =>
      exact .nestedPayload (hsub mem) within agent id projection item

theorem mine_of_drains {rt : Runtime} {mine : Item → Bool} (hmine : PicksListed mine)
    {activities : List Activity} {name : TaskName} {item : Item}
    (hnone : ∀ it ∈ runItems activities, mine it = false)
    (h : drains rt activities name item) : mine item = false := by
  have hlisted : ∀ a ∈ activities, ∀ it ∈ a.items, mine it = false :=
    fun a ha it hit => hnone it (List.mem_flatMap.mpr ⟨a, ha, hit⟩)
  cases h with
  | userMessage mem => exact hlisted _ mem _ List.mem_cons_self
  | message mem item => exact hlisted _ mem _ (List.mem_map_of_mem item)
  | payload mem item => exact hmine.payload _
  | toolCall mem item => exact hlisted _ mem _ (List.mem_map_of_mem item)
  | snapshot mem item => exact hmine.snapshot _
  | nestedMessage mem within agent id projection item =>
      refine hlisted _ mem _ (within.items_subset (Subgraph.ownItems_subset agent ?_))
      rw [ownItems, projection]
      exact List.mem_append_left _ (List.mem_map_of_mem item)
  | nestedCall mem within agent id projection item =>
      refine hlisted _ mem _ (within.items_subset (Subgraph.ownItems_subset agent ?_))
      rw [ownItems, projection]
      exact List.mem_append_right _ (List.mem_map_of_mem item)
  | nestedPayload mem within agent id projection item => exact hmine.payload _

section Run

variable {π : Type} {O : Ownership TaskName World PyException π} {v₀ : π} {rt : Runtime}
  {threadId runId summaryPrefix : String} {s t : ℤ} {mine : Item → Bool} {item : Item}
  {before after : List Activity} {a : Activity}

/-- A translator with its activities about to start, one of which has the item in custody. -/
theorem inCustody_start (hmine : PicksListed mine)
    (henv : O.env = (othersOf rt threadId summaryPrefix (before ++ a :: after) mine).rowProtocol)
    (hmid : O.mid v₀)
    (hpart : O.part (World.start (Translator.seeded threadId runId summaryPrefix s t)) = v₀)
    (hnone : (runItems (before ++ after)).filter mine = [])
    (hcustodian : Custodian O v₀ (a.thread rt)) :
    InCustody O v₀ False
      (startSystem rt (Translator.seeded threadId runId summaryPrefix s t)
        (before ++ a :: after)) := by
  have hsplit : (startSystem rt (Translator.seeded threadId runId summaryPrefix s t)
      (before ++ a :: after)).threads =
        before.map (Activity.thread rt) ++ a.thread rt :: after.map (Activity.thread rt) := by
    rw [startSystem, List.map_append, List.map_cons]
  refine inCustody_of_custodian False hmid ?_ hpart hsplit hcustodian ?_
  · rw [henv]
    exact Setting.conforms_start _ _ _ _ _ _ _ _
  · intro other hother
    rw [← List.map_append] at hother
    obtain ⟨activity, hactivity, rfl⟩ := List.mem_map.mp hother
    rw [henv]
    let E := othersOf rt threadId summaryPrefix (before ++ a :: after) mine
    refine stable_of_preserves (Setting.writes_activity (E := E) ?_ hactivity) _
    intro name it hdrains
    refine ⟨drains_mono hdrains ?_, mine_of_drains hmine (forall_mine_of_filter hnone) hdrains⟩
    exact List.append_subset.mpr ⟨List.subset_append_left _ _,
      List.Subset.trans (List.subset_cons_self _ _) (List.subset_append_right _ _)⟩

/-- The tag a subagent's task gets is one the run has linked its subagent to. It gets none only
where its wait for the link has expired. -/
theorem runs_subagentAgentId {activities : List Activity} (name : TaskName) (subagentId : String)
    {v : π} (henv : O.env = (othersOf rt threadId summaryPrefix activities mine).rowProtocol)
    (hpart : ∀ w self, O.part { w with self := self } = O.part w) (hmid : O.mid v) :
    Runs O (Holds O v) (subagentAgentId subagentId) fun r w =>
      ((r = none → O.expired) ∧ ∀ tag, r = some tag →
        (settingOf rt threadId summaryPrefix activities anyStep).Linked name subagentId tag) ∧
      Holds O v w := by
  refine runs_bind (runs_atomically_of henv
    (fun w => ⟨rfl, rfl, w.self.linkView_subagentEvent subagentId⟩)
    fun w hw => (hpart w _).trans hw) fun _ => ?_
  refine runs_bind (runs_awaitingOr hmid) fun linked => ?_
  cases linked with
  | false => exact runs_pure fun w hw => ⟨⟨fun _ => hw.1 rfl, nofun⟩, hw.2.2⟩
  | true =>
      rintro k w ⟨_, hready, hw⟩ hk
      have hlinks : (othersOf rt threadId summaryPrefix activities mine).Linking
          w.self.linkView := by
        have hi := hw.1
        rw [henv] at hi
        exact hi.links
      refine hk _ w ⟨⟨fun hnone => ?_, fun tag hget => ⟨⟨w, trivial, hget⟩, ?_⟩⟩, hw⟩
      · exact absurd hnone (hlinks.ready subagentId (hready rfl))
      · obtain ⟨other, payload, hsource, hstarts⟩ := hlinks.started subagentId tag hget
        exact ⟨other, payload, hsource.1, hstarts⟩

theorem exists_activity {activities : List Activity}
    (hone : (runItems activities).filter mine = [item]) :
    ∃ before a after, activities = before ++ a :: after ∧ a.items.filter mine = [item] ∧
      (runItems (before ++ after)).filter mine = [] := by
  induction activities with
  | nil => cases hone
  | cons a activities ih =>
      rw [runItems, List.flatMap_cons, List.filter_append, List.append_eq_singleton_iff] at hone
      rcases hone with ⟨hnone, hone⟩ | ⟨hone, hnone⟩
      · obtain ⟨before, b, after, rfl, hb, hrest⟩ := ih hone
        refine ⟨a :: before, b, after, rfl, hb, ?_⟩
        rw [List.cons_append, runItems, List.flatMap_cons, List.filter_append, hnone]
        exact hrest
      · exact ⟨[], a, activities, rfl, hone, hnone⟩

end Run

/-! ## Whole runs -/

structure TranslatorRun where
  rt : Runtime
  threadId : String
  runId : String
  summaryPrefix : String
  orderStart : ℤ
  ordinalStart : ℤ
  activities : List Activity
  schedule : List Pick
  final : System
  follows : (startSystem rt
    (Translator.seeded threadId runId summaryPrefix orderStart ordinalStart) activities).follow
      schedule = some final

namespace TranslatorRun

variable (r : TranslatorRun)

def setting : Setting := settingOf r.rt r.threadId r.summaryPrefix r.activities anyStep

/-- All tasks have come to an end, and none was cancelled. -/
structure Ended : Prop where
  uncancelled : ∀ i, .cancel i ∉ r.schedule
  ended : ∀ thread ∈ r.final.threads, thread.2.HasEnded

/-- A bounded wait of a task that takes the item has expired. -/
def GaveUp (item : Item) : Prop :=
  ∃ i name code, r.setting.source name item ∧ .expire i ∈ r.schedule ∧
    r.final.threads[i]? = some (name, code)

/-- The failure, if it is one, is that of a task. -/
def Raised (failure : Option PyException) : Prop :=
  ∀ exc, failure = some exc → ∃ name, (name, .fail exc) ∈ r.final.threads

variable {r} {π : Type} {O : Ownership TaskName World PyException π} {v₀ : π}
  {mine : Item → Bool} {item : Item}

/-- An item the run has once is in the custody of the tasks on the way to it. -/
theorem inCustody (hmine : PicksListed mine)
    (henv : O.env = (othersOf r.rt r.threadId r.summaryPrefix r.activities mine).rowProtocol)
    (hmid : O.mid v₀)
    (hpart : O.part (World.start (Translator.seeded r.threadId r.runId r.summaryPrefix
      r.orderStart r.ordinalStart)) = v₀)
    (howner : ∀ name, O.owner name → r.setting.source name item)
    (hexpired : r.GaveUp item → O.expired)
    (alone : (runItems r.activities).filter mine = [item])
    (hcustodian : ∀ a ∈ r.activities, a.items.filter mine = [item] →
      Custodian O v₀ (a.thread r.rt)) :
    InCustody O v₀ (∃ i, .cancel i ∈ r.schedule) r.final := by
  refine inCustody_of_follow hmid ?_
    (fun i name code hi hthread hname => hexpired ⟨i, name, code, howner name hname, hi, hthread⟩)
    r.follows
  obtain ⟨before, a, after, hsplit, hone, hnone⟩ := exists_activity alone
  have hmem : a ∈ r.activities := by
    rw [hsplit]
    exact List.mem_append_right _ List.mem_cons_self
  have ha := hcustodian a hmem hone
  rw [hsplit] at henv ⊢
  exact inCustody_start hmine henv hmid hpart hnone ha

theorem ends_of_ended (h : InCustody O v₀ (∃ i, .cancel i ∈ r.schedule) r.final)
    (hended : r.Ended) : ∃ failure, O.ends failure (O.part r.final.state) ∧ r.Raised failure :=
  h.ends (fun ⟨i, hi⟩ => hended.uncancelled i hi) hended.ended

end TranslatorRun

end StreamDB
