import RedRouter.Response.ResponsesToOpenai
import Mathlib.Data.List.Basic
import Mathlib.Logic.Function.Basic

/-!
# Function calls of a Responses stream

A `Script` is a Responses stream with function calls: which calls there are,
in which shape the upstream sends each of them, and how their events
interleave.  `BodyOk` is the grammar of the interleaving; a call goes through
the phases `fresh`, `opened` and `closed`.

`scriptDeltas` says which tool-call deltas the stream gives, without the
maps of the translator: the only state is the list of the calls that have
claimed an index.  `toolDeltas_stream` is the refinement: the translator
emits exactly those deltas.
-/

namespace RedRouter.Response.ResponsesToOpenai

open List Chat

/-! ## Scripts -/

/-- How the upstream sends a call. -/
inductive Shape where
  /-- An added event with the name, argument deltas, a done event. -/
  | named
  /-- The same with a blank name, which only the done event fills in. -/
  | deferred (placeholder : JsString)
  /-- A done event that carries everything. -/
  | doneOnly
  /-- Only an entry in the output of the completed response. -/
  | completedOnly
deriving DecidableEq

def Shape.Fits (name : JsString) : Shape → Prop
  | .named => normalizeToolName name ≠ []
  | .deferred placeholder => normalizeToolName placeholder = []
  | .doneOnly => True
  | .completedOnly => True

structure Call where
  callId : JsString
  itemId : JsString
  outputIndex : Nat
  name : JsString
  arguments : JsString
  shape : Shape
  callId_ne : callId ≠ []
  itemId_ne : itemId ≠ []
  fits : shape.Fits name

def Call.item (c : Call) (arguments : Option JsString) : FunctionCallItem where
  id := some c.itemId
  callId := some c.callId
  name := c.name
  arguments := arguments.map .str

def Call.addedName (c : Call) : JsString :=
  match c.shape with
  | .deferred placeholder => placeholder
  | _ => c.name

def Call.toolName (c : Call) : JsString := normalizeToolName c.name

inductive Step where
  /-- An event that is not about a function call. -/
  | noise (event : Event)
  | added (c : Call)
  /-- An argument delta, which names its call by the item id or by the output
  index, or by both. -/
  | delta (c : Call) (byItem byIndex : Bool) (fragment : JsString)
  | done (c : Call) (arguments : Option JsString)

def Step.event : Step → Event
  | .noise event => event
  | .added c => .functionCallAdded { c.item none with name := c.addedName } (some c.outputIndex)
  | .delta c byItem byIndex fragment =>
      .argumentsDelta (if byItem then some c.itemId else none)
        (if byIndex then some c.outputIndex else none) fragment
  | .done c arguments => .functionCallDone (c.item arguments)

/-- The events that are not about function calls and do not end the stream. -/
def Event.IsNoise : Event → Prop
  | .outputTextDelta _ => True
  | .reasoningDelta _ _ => True
  | .reasoningSummaryDelta _ _ _ => True
  | .reasoningDone _ => True
  | .other => True
  | _ => False

/-- Where a call is in its events. -/
inductive Phase where
  | fresh
  /-- Added, with the arguments of the deltas so far. -/
  | opened (buffer : JsString)
  | closed

/-- The buffered and the done arguments of a call agree with its arguments: each
is the whole of them or missing, and one of them is there. -/
def Carries (c : Call) (buffer : JsString) (arguments : Option JsString) : Prop :=
  (buffer = [] ∨ buffer = c.arguments) ∧
    (arguments = some c.arguments ∨ arguments.getD [] = [] ∧ buffer = c.arguments)

abbrev Phases := JsString → Phase

/-- The arguments that the deltas of a call have brought so far. -/
def Phase.buffer : Phase → JsString
  | .opened buffer => buffer
  | _ => []

/-- The steps that a stream may go on with. -/
def Step.Ok (calls : List Call) (phases : Phases) : Step → Prop
  | .noise event => event.IsNoise
  | .added c =>
      c ∈ calls ∧ c.shape ≠ .doneOnly ∧ c.shape ≠ .completedOnly ∧ phases c.callId = .fresh
  | .delta c byItem byIndex _ =>
      c ∈ calls ∧ (byItem = true ∨ byIndex = true) ∧ ∃ buffer, phases c.callId = .opened buffer
  | .done c arguments =>
      c ∈ calls ∧ (c.shape = .doneOnly ∧ phases c.callId = .fresh ∧ arguments = some c.arguments ∨
          ∃ buffer, phases c.callId = .opened buffer ∧ Carries c buffer arguments)

def Step.next (phases : Phases) : Step → Phases
  | .noise _ => phases
  | .added c => Function.update phases c.callId (.opened [])
  | .delta c _ _ fragment =>
      Function.update phases c.callId (.opened ((phases c.callId).buffer ++ fragment))
  | .done c _ => Function.update phases c.callId .closed

/-- The interleavings of the events of some calls. -/
def BodyOk (calls : List Call) : Phases → List Step → Prop
  | phases, [] => ∀ c ∈ calls,
      phases c.callId = if c.shape = .completedOnly then .fresh else .closed
  | phases, step :: steps => step.Ok calls phases ∧ BodyOk calls (step.next phases) steps

/-- A Responses stream with function calls.  All calls are done before the
completed response, whose output has all of them. -/
structure Script where
  calls : List Call
  steps : List Step
  output : List OutputItem
  usage : Option ResponseUsage
  /-- The calls in the order of the output. -/
  echoed : List Call
  callIds : (calls.map Call.callId).Nodup
  itemIds : (calls.map Call.itemId).Nodup
  outputIndices : (calls.map Call.outputIndex).Nodup
  body : BodyOk calls (fun _ => .fresh) steps
  echo : output.filterMap OutputItem.functionCall? = echoed.map fun c => c.item (some c.arguments)
  echoed_perm : echoed.Perm calls

variable (script : Script)

def Script.events : List Event :=
  script.steps.map Step.event ++ [.completed script.output script.usage]

/-! ## The deltas of a script -/

/-- The arguments that a client gets for a call. -/
def Call.delivered (opts : Options) (c : Call) : JsString :=
  strippedText opts.codec (.str c.arguments) c.toolName (opts.toolSchemas.get c.toolName)

def Call.header (c : Call) (index : Nat) (arguments : JsString) : ToolCallDelta :=
  ⟨some index, some c.callId, some c.toolName, some arguments⟩

def argumentDeltas (index : Option Nat) (arguments : JsString) : List ToolCallDelta :=
  if arguments.isEmpty then [] else [{ index := index, arguments := some arguments }]

def claimedIndex (claimed : List Call) (c : Call) : Nat :=
  (claimed.map Call.callId).idxOf c.callId

def Step.claims : Step → List Call
  | .noise _ => []
  | .added c => if c.shape = .named then [c] else []
  | .delta _ _ _ _ => []
  | .done c _ => if c.shape ≠ .named ∧ c.toolName ≠ [] then [c] else []

def Step.deltas (opts : Options) (claimed : List Call) : Step → List ToolCallDelta
  | .noise _ => []
  | .delta _ _ _ _ => []
  | .added c => if c.shape = .named then [c.header claimed.length []] else []
  | .done c _ =>
      match c.shape with
      | .named => argumentDeltas (some (claimedIndex claimed c)) (c.delivered opts)
      | .deferred _ =>
          if c.toolName = [] then [] else [c.header claimed.length (c.delivered opts)]
      | .doneOnly =>
          argumentDeltas (if c.toolName = [] then none else some claimed.length) (c.delivered opts)
      | .completedOnly => []

/-- The calls that have claimed an index after some steps. -/
def claimedAfter (claimed : List Call) (steps : List Step) : List Call :=
  claimed ++ steps.flatMap Step.claims

def bodyDeltas (opts : Options) : List Call → List Step → List ToolCallDelta
  | _, [] => []
  | claimed, step :: steps =>
      step.deltas opts claimed ++ bodyDeltas opts (claimed ++ step.claims) steps

def completedDeltas (opts : Options) : List Call → List Call → List ToolCallDelta
  | _, [] => []
  | claimed, c :: calls =>
      c.header claimed.length [] :: argumentDeltas (some claimed.length) (c.delivered opts) ++
        completedDeltas opts (claimed ++ [c]) calls

/-- The calls that only the completed response has. -/
def Script.late : List Call :=
  script.echoed.filter fun c => c.shape = .completedOnly

def scriptDeltas (opts : Options) (script : Script) : List ToolCallDelta :=
  bodyDeltas opts [] script.steps ++ completedDeltas opts (claimedAfter [] script.steps) script.late

/-! ## The translator follows a script -/

/-- Calls are determined by each of their three identifiers. -/
structure Distinct (calls : List Call) : Prop where
  callId : ∀ c ∈ calls, ∀ d ∈ calls, c.callId = d.callId → c = d
  itemId : ∀ c ∈ calls, ∀ d ∈ calls, c.itemId = d.itemId → c = d
  outputIndex : ∀ c ∈ calls, ∀ d ∈ calls, c.outputIndex = d.outputIndex → c = d

theorem Script.distinct : Distinct script.calls where
  callId := fun _ hc _ hd => inj_on_of_nodup_map script.callIds hc hd
  itemId := fun _ hc _ hd => inj_on_of_nodup_map script.itemIds hc hd
  outputIndex := fun _ hc _ hd => inj_on_of_nodup_map script.outputIndices hc hd

/-- The calls that have claimed an index, and the phases of the calls. -/
structure Ledger (calls : List Call) (phases : Phases) (claimed : List Call) : Prop where
  sub : ∀ c ∈ claimed, c ∈ calls ∧ phases c.callId ≠ .fresh
  nodup : (claimed.map Call.callId).Nodup
  opened : ∀ c ∈ calls, ∀ b, phases c.callId = .opened b →
    c.shape ≠ .doneOnly ∧ c.shape ≠ .completedOnly ∧ (c.shape = .named ↔ c ∈ claimed)

section

variable {calls claimed : List Call} {phases : Phases}

theorem update_self (phases : Phases) (c : Call) (p : Phase) :
    Function.update phases c.callId p c.callId = p := Function.update_self ..

theorem Distinct.update_of_ne (hd : Distinct calls) (phases : Phases) {c d : Call} (hc : c ∈ calls)
    (hdm : d ∈ calls) (hne : d ≠ c) (p : Phase) :
    Function.update phases c.callId p d.callId = phases d.callId := by
  apply Function.update_of_ne
  intro heq
  exact hne (hd.callId d hdm c hc heq)

theorem Distinct.update_cases (hd : Distinct calls) (phases : Phases) {c d : Call} (hc : c ∈ calls)
    (hdm : d ∈ calls) (p : Phase) :
    d = c ∧ Function.update phases c.callId p d.callId = p ∨
      d ≠ c ∧ Function.update phases c.callId p d.callId = phases d.callId := by
  by_cases heq : d = c
  · exact .inl ⟨heq, heq ▸ update_self phases c p⟩
  · exact .inr ⟨heq, hd.update_of_ne phases hc hdm heq p⟩

namespace Ledger

theorem callId_not_mem (hd : Distinct calls) (h : Ledger calls phases claimed) {c : Call}
    (hc : c ∈ calls) (hclaimed : c ∉ claimed) : c.callId ∉ claimed.map Call.callId := by
  intro hmem
  obtain ⟨d, hdm, heq⟩ := mem_map.mp hmem
  have hdc : d = c := hd.callId d (h.sub d hdm).1 c hc heq
  exact hclaimed (hdc ▸ hdm)

theorem not_mem_of_fresh (h : Ledger calls phases claimed) {c : Call}
    (hfresh : phases c.callId = .fresh) : c ∉ claimed :=
  fun hmem => (h.sub c hmem).2 hfresh

/-- A call goes to another phase and claims no index. -/
theorem keep (hd : Distinct calls) (h : Ledger calls phases claimed) {c : Call} (hc : c ∈ calls)
    {p : Phase} (hp : p ≠ .fresh)
    (hopened : ∀ b, p = .opened b →
      c.shape ≠ .doneOnly ∧ c.shape ≠ .completedOnly ∧ (c.shape = .named ↔ c ∈ claimed)) :
    Ledger calls (Function.update phases c.callId p) claimed where
  sub := by
    intro d hdm
    have hdcalls := (h.sub d hdm).1
    refine ⟨hdcalls, ?_⟩
    rcases hd.update_cases phases hc hdcalls p with ⟨rfl, heq⟩ | ⟨-, heq⟩ <;> rw [heq]
    · exact hp
    · exact (h.sub d hdm).2
  nodup := h.nodup
  opened := by
    intro d hdm b hb
    rcases hd.update_cases phases hc hdm p with ⟨rfl, heq⟩ | ⟨-, heq⟩ <;> rw [heq] at hb
    · exact hopened b hb
    · exact h.opened d hdm b hb

/-- A call goes to another phase and claims an index. -/
theorem claim (hd : Distinct calls) (h : Ledger calls phases claimed) {c : Call} (hc : c ∈ calls)
    (hclaimed : c ∉ claimed) {p : Phase} (hp : p ≠ .fresh)
    (hopened : ∀ b, p = .opened b → c.shape = .named) :
    Ledger calls (Function.update phases c.callId p) (claimed ++ [c]) where
  sub := by
    intro d hdm
    rcases mem_append.mp hdm with hdm | hdm
    · have hdcalls := (h.sub d hdm).1
      have hne : d ≠ c := fun heq => hclaimed (heq ▸ hdm)
      rw [hd.update_of_ne phases hc hdcalls hne]
      exact h.sub d hdm
    · have heq : d = c := mem_singleton.mp hdm
      subst heq
      rw [update_self]
      exact ⟨hc, hp⟩
  nodup := by
    rw [map_append]
    apply List.Nodup.append h.nodup (nodup_singleton _)
    intro x hx hxc
    have hxc : x = c.callId := mem_singleton.mp hxc
    exact h.callId_not_mem hd hc hclaimed (hxc ▸ hx)
  opened := by
    intro d hdm b hb
    rcases hd.update_cases phases hc hdm p with ⟨rfl, heq⟩ | ⟨hne, heq⟩ <;> rw [heq] at hb
    · simp [hopened b hb]
    · obtain ⟨h1, h2, h3⟩ := h.opened d hdm b hb
      refine ⟨h1, h2, ?_⟩
      rw [h3, mem_append, mem_singleton]
      exact ⟨.inl, fun hor => hor.resolve_right hne⟩

theorem step (hd : Distinct calls) (h : Ledger calls phases claimed) {step : Step}
    (hok : step.Ok calls phases) : Ledger calls (step.next phases) (claimed ++ step.claims) := by
  cases step with
  | noise event =>
    rw [Step.claims, append_nil]
    exact h
  | added c =>
    obtain ⟨hc, hdone, hcompleted, hfresh⟩ := hok
    have hclaimed := h.not_mem_of_fresh hfresh
    unfold Step.claims
    dsimp only
    split
    · rename_i hnamed
      exact h.claim hd hc hclaimed (by simp) fun _ _ => hnamed
    · rename_i hnamed
      rw [append_nil]
      apply h.keep hd hc (by simp)
      intro b hb
      exact ⟨hdone, hcompleted, iff_of_false hnamed hclaimed⟩
  | delta c byItem byIndex fragment =>
    obtain ⟨hc, -, buffer, hbuffer⟩ := hok
    rw [Step.claims, append_nil]
    exact h.keep hd hc (by simp) fun _ _ => h.opened c hc buffer hbuffer
  | done c arguments =>
    obtain ⟨hc, hphase⟩ := hok
    unfold Step.claims
    dsimp only
    split
    · rename_i hclaims
      apply h.claim hd hc ?_ (by simp) (by simp)
      rcases hphase with ⟨-, hfresh, -⟩ | ⟨buffer, hbuffer, -⟩
      · exact h.not_mem_of_fresh hfresh
      · intro hmem
        exact hclaims.1 ((h.opened c hc buffer hbuffer).2.2.mpr hmem)
    · rw [append_nil]
      exact h.keep hd hc (by simp) (by simp)

end Ledger

end

def entryOf (claimed : List Call) (phases : Phases) (c : Call) : Option Entry :=
  match phases c.callId with
  | .opened buffer =>
      some
        { index := if c.shape = .named then some (claimedIndex claimed c) else none
          name := normalizeToolName c.addedName
          argsBuffer := buffer
          deferred := c.shape ≠ .named }
  | _ => none

/-- How the state follows the phases of the calls. -/
structure Tracks (calls : List Call) (phases : Phases) (claimed : List Call) (s : State) :
    Prop where
  counter : s.toolCallIndex = claimed.length
  entry : ∀ c ∈ calls, s.toolCallByCallId.get c.callId = entryOf claimed phases c
  keys : ∀ k ∈ s.toolCallByCallId.keys, ∃ c ∈ calls, k = c.callId
  byItem : ∀ c ∈ calls, ∀ b, phases c.callId = .opened b →
    s.toolCallItemToCallId.get c.itemId = some c.callId
  byIndex : ∀ c ∈ calls, ∀ b, phases c.callId = .opened b →
    s.toolCallOutputIndexToCallId.get c.outputIndex = some c.callId
  seen : ∀ c ∈ calls, c.callId ∈ s.toolCallIdsSeen ↔ phases c.callId ≠ .fresh
  current : ∀ id, s.currentToolCallId = some id →
    ∃ c ∈ calls, id = c.callId ∧ ∃ b, phases c.callId = .opened b
  unsent : s.finishReasonSent = false

/-- The part of the state that `Tracks` is about. -/
def callView (s : State) :=
  (s.toolCallIndex, s.currentToolCallId, s.toolCallByCallId, s.toolCallItemToCallId,
    s.toolCallOutputIndexToCallId, s.toolCallIdsSeen, s.finishReasonSent)

variable {calls : List Call} {phases : Phases} {s : State}

theorem Tracks.of_view {claimed : List Call} {s' : State} (h : Tracks calls phases claimed s)
    (hview : callView s' = callView s) : Tracks calls phases claimed s' := by
  simp only [callView, Prod.mk.injEq] at hview
  obtain ⟨hcounter, hcurrent, hentry, hitem, hindex, hseen, hsent⟩ := hview
  constructor
  · rw [hcounter]
    exact h.counter
  · rw [hentry]
    exact h.entry
  · rw [hentry]
    exact h.keys
  · rw [hitem]
    exact h.byItem
  · rw [hindex]
    exact h.byIndex
  · rw [hseen]
    exact h.seen
  · rw [hcurrent]
    exact h.current
  · rw [hsent]
    exact h.unsent

section

variable {calls claimed : List Call} {phases : Phases} {s : State}

variable {c : Call}

theorem claimedIndex_append (hc : c ∈ claimed) (more : List Call) :
    claimedIndex (claimed ++ more) c = claimedIndex claimed c := by
  unfold claimedIndex
  rw [map_append]
  exact idxOf_append_of_mem (mem_map_of_mem hc)

theorem claimedIndex_new (hc : c.callId ∉ claimed.map Call.callId) :
    claimedIndex (claimed ++ [c]) c = claimed.length := by
  unfold claimedIndex
  rw [map_append, idxOf_append_of_notMem hc, map_singleton, idxOf_cons_self, length_map]
  rfl

/-- The entries of the other calls when one call takes a step. -/
theorem entryOf_other (hd : Distinct calls) (hl : Ledger calls phases claimed) {d : Call}
    (hc : c ∈ calls) (hdm : d ∈ calls) (hne : d ≠ c) (p : Phase) (more : List Call) :
    entryOf (claimed ++ more) (Function.update phases c.callId p) d = entryOf claimed phases d := by
  unfold entryOf
  rw [hd.update_of_ne phases hc hdm hne]
  cases hphase : phases d.callId with
  | fresh => rfl
  | closed => rfl
  | opened buffer =>
    by_cases hnamed : d.shape = .named
    · have hmem : d ∈ claimed := (hl.opened d hdm buffer hphase).2.2.mp hnamed
      rw [claimedIndex_append hmem]
    · simp [hnamed]

theorem presentId_some_of_ne {id : JsString} (h : id ≠ []) : presentId (some id) = some id :=
  presentId_eq_some_iff.mpr ⟨rfl, h⟩

def addedState (c : Call) (s : State) : State :=
  { s with
    currentToolCallId := some c.callId
    toolCallIndex := if c.shape = .named then s.toolCallIndex + 1 else s.toolCallIndex
    toolCallByCallId := s.toolCallByCallId.set c.callId
      { index := if c.shape = .named then some s.toolCallIndex else none
        name := normalizeToolName c.addedName
        argsBuffer := []
        deferred := c.shape ≠ .named }
    toolCallItemToCallId := s.toolCallItemToCallId.set c.itemId c.callId
    toolCallOutputIndexToCallId := s.toolCallOutputIndexToCallId.set c.outputIndex c.callId
    toolCallIdsSeen := s.toolCallIdsSeen ++ [c.callId] }

theorem addedName_isEmpty (hdone : c.shape ≠ .doneOnly) (hcompleted : c.shape ≠ .completedOnly) :
    (normalizeToolName c.addedName).isEmpty = decide (c.shape ≠ .named) := by
  have hfits := c.fits
  unfold Call.addedName
  cases hshape : c.shape with
  | named =>
    rw [hshape] at hfits
    cases hname : normalizeToolName c.name with
    | nil => exact absurd hname hfits
    | cons x xs => simp
  | deferred placeholder =>
    rw [hshape] at hfits
    have hblank : normalizeToolName placeholder = [] := hfits
    simp [hblank]
  | doneOnly => exact absurd hshape hdone
  | completedOnly => exact absurd hshape hcompleted

theorem onAdded_eq (nowMs : Nat) (hdone : c.shape ≠ .doneOnly)
    (hcompleted : c.shape ≠ .completedOnly) (s : State) :
    onAdded nowMs { c.item none with name := c.addedName } (some c.outputIndex) s =
      (if c.shape = .named then [toolChunk (addedState c s) (c.header s.toolCallIndex [])] else [],
        addedState c s) := by
  have hempty := addedName_isEmpty hdone hcompleted
  unfold onAdded
  simp only [Call.item, presentId_some_of_ne c.callId_ne, presentId_some_of_ne c.itemId_ne, hempty]
  by_cases hnamed : c.shape = .named
  · simp [hnamed, addedState, Call.header, Call.toolName, Call.addedName]
  · simp [hnamed, addedState]

theorem seen_update (hd : Distinct calls) (h : Tracks calls phases claimed s) (hc : c ∈ calls)
    {p : Phase} (hp : p ≠ .fresh) (d : Call) (hdm : d ∈ calls) :
    d.callId ∈ s.toolCallIdsSeen ++ [c.callId] ↔
      Function.update phases c.callId p d.callId ≠ .fresh := by
  rw [mem_append, mem_singleton]
  rcases hd.update_cases phases hc hdm p with ⟨rfl, heq⟩ | ⟨hne, heq⟩ <;> rw [heq]
  · exact iff_of_true (.inr rfl) hp
  · rw [h.seen d hdm]
    exact or_iff_left fun hid => hne (hd.callId d hdm c hc hid)

theorem tracks_added (hd : Distinct calls) (hl : Ledger calls phases claimed)
    (h : Tracks calls phases claimed s) (hok : (Step.added c).Ok calls phases) :
    Tracks calls ((Step.added c).next phases) (claimed ++ (Step.added c).claims)
      (addedState c s) := by
  obtain ⟨hc, hdone, hcompleted, hfresh⟩ := hok
  have hnew : c.callId ∉ claimed.map Call.callId :=
    hl.callId_not_mem hd hc (hl.not_mem_of_fresh hfresh)
  constructor
  · unfold addedState Step.claims
    dsimp only
    rw [h.counter]
    split
    · rw [length_append, length_singleton]
    · rw [append_nil]
  · intro d hdm
    unfold addedState
    rw [JsMap.get_set]
    by_cases heq : d = c
    · subst heq
      rw [if_pos rfl, entryOf, Step.next, update_self, Step.claims]
      by_cases hnamed : d.shape = .named
      · simp [hnamed, claimedIndex_new hnew, h.counter]
      · simp [hnamed]
    · rw [if_neg fun hid => heq (hd.callId d hdm c hc hid.symm), h.entry d hdm]
      exact (entryOf_other hd hl hc hdm heq _ _).symm
  · intro k hk
    unfold addedState at hk
    rw [← JsMap.get_isSome_iff, JsMap.get_set] at hk
    split at hk
    · rename_i hid
      exact ⟨c, hc, hid.symm⟩
    · exact h.keys k (JsMap.get_isSome_iff.mp hk)
  · intro d hdm b hb
    unfold addedState
    rw [JsMap.get_set]
    by_cases heq : d = c
    · subst heq
      rw [if_pos rfl]
    · rw [Step.next, hd.update_of_ne phases hc hdm heq] at hb
      rw [if_neg fun hid => heq (hd.itemId d hdm c hc hid.symm)]
      exact h.byItem d hdm b hb
  · intro d hdm b hb
    unfold addedState
    rw [JsMap.get_set]
    by_cases heq : d = c
    · subst heq
      rw [if_pos rfl]
    · rw [Step.next, hd.update_of_ne phases hc hdm heq] at hb
      rw [if_neg fun hid => heq (hd.outputIndex d hdm c hc hid.symm)]
      exact h.byIndex d hdm b hb
  · exact seen_update hd h hc (by simp)
  · intro id hid
    exact ⟨c, hc, (Option.some.inj hid).symm, [], update_self ..⟩
  · exact h.unsent

theorem tracks_buffer (hd : Distinct calls) (hl : Ledger calls phases claimed)
    (h : Tracks calls phases claimed s) (hc : c ∈ calls) {buffer : JsString}
    (hphase : phases c.callId = .opened buffer) {entry : Entry}
    (hentry : s.toolCallByCallId.get c.callId = some entry) (fragment : JsString) :
    Tracks calls (Function.update phases c.callId (.opened (buffer ++ fragment))) claimed
      { s with
        toolCallByCallId := s.toolCallByCallId.set c.callId
          { entry with argsBuffer := entry.argsBuffer ++ fragment } } where
  counter := h.counter
  entry := by
    intro d hdm
    rw [JsMap.get_set]
    by_cases heq : d = c
    · subst heq
      have hold := h.entry d hdm
      rw [hentry, entryOf, hphase] at hold
      rw [if_pos rfl, entryOf, update_self, Option.some.inj hold]
    · rw [if_neg fun hid => heq (hd.callId d hdm c hc hid.symm), h.entry d hdm]
      have hother := entryOf_other hd hl hc hdm heq (.opened (buffer ++ fragment)) []
      rw [append_nil] at hother
      exact hother.symm
  keys := by
    intro k hk
    rw [← JsMap.get_isSome_iff, JsMap.get_set] at hk
    split at hk
    · rename_i hid
      exact ⟨c, hc, hid.symm⟩
    · exact h.keys k (JsMap.get_isSome_iff.mp hk)
  byItem := by
    intro d hdm b hb
    rcases hd.update_cases phases hc hdm (.opened (buffer ++ fragment)) with ⟨rfl, -⟩ | ⟨-, heq⟩
    · exact h.byItem d hdm buffer hphase
    · exact h.byItem d hdm b (heq ▸ hb)
  byIndex := by
    intro d hdm b hb
    rcases hd.update_cases phases hc hdm (.opened (buffer ++ fragment)) with ⟨rfl, -⟩ | ⟨-, heq⟩
    · exact h.byIndex d hdm buffer hphase
    · exact h.byIndex d hdm b (heq ▸ hb)
  seen := by
    intro d hdm
    rw [h.seen d hdm]
    rcases hd.update_cases phases hc hdm (.opened (buffer ++ fragment)) with ⟨rfl, heq⟩ | ⟨-, heq⟩ <;> rw [heq]
    simp [hphase]
  current := by
    intro id hid
    obtain ⟨d, hdm, rfl, b, hb⟩ := h.current id hid
    rcases hd.update_cases phases hc hdm (.opened (buffer ++ fragment)) with ⟨rfl, heq⟩ | ⟨-, heq⟩
    · exact ⟨d, hdm, rfl, _, heq⟩
    · exact ⟨d, hdm, rfl, b, heq.trans hb⟩
  unsent := h.unsent

theorem resolveDelta_eq (h : Tracks calls phases claimed s) (hc : c ∈ calls) {buffer : JsString}
    (hphase : phases c.callId = .opened buffer) {byItem byIndex : Bool}
    (hby : byItem = true ∨ byIndex = true) :
    resolveDelta (if byItem then some c.itemId else none)
      (if byIndex then some c.outputIndex else none) s = some c.callId := by
  have hitem := h.byItem c hc buffer hphase
  have hindex := h.byIndex c hc buffer hphase
  unfold resolveDelta
  cases byItem with
  | true => simp [presentId_some_of_ne c.itemId_ne, hitem, presentId_some_of_ne c.callId_ne]
  | false =>
    have hbyIndex : byIndex = true := by simpa using hby
    simp [hbyIndex, hindex, presentId_some_of_ne c.callId_ne]

theorem tracks_delta (hd : Distinct calls) (hl : Ledger calls phases claimed)
    (h : Tracks calls phases claimed s) {byItem byIndex : Bool} {fragment : JsString}
    (hok : (Step.delta c byItem byIndex fragment).Ok calls phases) :
    ∃ s', onArgumentsDelta (if byItem then some c.itemId else none)
        (if byIndex then some c.outputIndex else none) fragment s = ([], s') ∧
      Tracks calls ((Step.delta c byItem byIndex fragment).next phases) claimed s' := by
  obtain ⟨hc, hby, buffer, hphase⟩ := hok
  have hentry := h.entry c hc
  rw [entryOf, hphase] at hentry
  rw [Step.next, hphase, Phase.buffer]
  unfold onArgumentsDelta
  split
  · rename_i hempty
    have hnil : fragment = [] := List.isEmpty_iff.mp hempty
    refine ⟨s, rfl, ?_⟩
    rw [hnil, append_nil, ← hphase, Function.update_eq_self]
    exact h
  · rw [resolveDelta_eq h hc hphase hby]
    dsimp only
    rw [hentry]
    exact ⟨_, rfl, tracks_buffer hd hl h hc hphase hentry fragment⟩

variable {arguments : Option JsString}

theorem terminalArguments_eq {buffer : JsString} (h : Carries c buffer arguments) :
    terminalArguments (arguments.map .str) buffer = .str c.arguments := by
  obtain ⟨hbuffer, harguments⟩ := h
  rcases harguments with rfl | ⟨hnone, rfl⟩
  · cases hargs : c.arguments with
    | nil =>
      have hnil : buffer = [] := by simpa [hargs] using hbuffer
      simp [terminalArguments, present, hnil]
    | cons x xs => simp [terminalArguments, present]
  · match arguments, hnone with
    | none, _ => rfl
    | some [], _ => rfl

theorem strippedText_nil (codec : JsonCodec) (toolName : JsString) (schema : Option Json) :
    strippedText codec (.str []) toolName schema = [] := by
  unfold strippedText stripEmptyOptionalToolArgs
  dsimp only
  rw [codec.parse_nil]
  split <;> rfl

variable (opts : Options)

theorem doneArguments_eq {buffer : JsString} (h : Carries c buffer arguments) :
    doneArguments opts (c.item arguments) buffer c.toolName = c.delivered opts := by
  unfold doneArguments
  have hterminal := terminalArguments_eq h
  split
  · rw [Call.item, hterminal]
    rfl
  · rename_i hcond
    split
    · rename_i hbuffer
      have heq : buffer = c.arguments := by
        rcases h.1 with hnil | heq
        · rw [hnil] at hbuffer
          simp at hbuffer
        · exact heq
      rw [heq]
      rfl
    · rename_i hbuffer
      have hnil : buffer = [] := by simpa using hbuffer
      have hnone : arguments = none := by
        cases arguments with
        | none => rfl
        | some text => simp [Call.item, present, hnil] at hcond
      have hargs : c.arguments = [] := by
        rcases h.2 with hsome | ⟨-, heq⟩
        · rw [hnone] at hsome
          cases hsome
        · rw [← heq, hnil]
      rw [Call.delivered, hargs, strippedText_nil]

/-- The state after the done event of a call, up to the summaries. -/
def closedState (c : Call) (s : State) : State :=
  { s with
    toolCallIndex := if c.shape ≠ .named ∧ c.toolName ≠ [] then s.toolCallIndex + 1
      else s.toolCallIndex
    toolCallIdsSeen := s.toolCallIdsSeen ++ [c.callId]
    toolCallByCallId := s.toolCallByCallId.delete c.callId
    currentToolCallId := if s.currentToolCallId = some c.callId then none else s.currentToolCallId }

theorem tracks_done (hd : Distinct calls) (hl : Ledger calls phases claimed)
    (h : Tracks calls phases claimed s) (hok : (Step.done c arguments).Ok calls phases) :
    Tracks calls ((Step.done c arguments).next phases)
      (claimed ++ (Step.done c arguments).claims) (closedState c s) := by
  have hc : c ∈ calls := hok.1
  have hother : ∀ d ∈ calls, ∀ b, Function.update phases c.callId .closed d.callId = .opened b →
      phases d.callId = .opened b := by
    intro d hdm b hb
    rcases hd.update_cases phases hc hdm .closed with ⟨-, heq⟩ | ⟨-, heq⟩ <;> rw [heq] at hb
    · cases hb
    · exact hb
  constructor
  · unfold closedState Step.claims
    dsimp only
    rw [h.counter]
    split
    · rw [length_append, length_singleton]
    · rw [append_nil]
  · intro d hdm
    unfold closedState
    rw [JsMap.get_delete]
    by_cases heq : d = c
    · subst heq
      rw [if_pos rfl, entryOf, Step.next, update_self]
    · rw [if_neg fun hid => heq (hd.callId d hdm c hc hid.symm), h.entry d hdm]
      exact (entryOf_other hd hl hc hdm heq _ _).symm
  · intro k hk
    unfold closedState at hk
    rw [← JsMap.get_isSome_iff, JsMap.get_delete] at hk
    split at hk
    · cases hk
    · exact h.keys k (JsMap.get_isSome_iff.mp hk)
  · intro d hdm b hb
    exact h.byItem d hdm b (hother d hdm b hb)
  · intro d hdm b hb
    exact h.byIndex d hdm b (hother d hdm b hb)
  · exact seen_update hd h hc (by simp)
  · intro id hid
    unfold closedState at hid
    dsimp only at hid
    split at hid
    · cases hid
    · rename_i hcurrent
      obtain ⟨d, hdm, rfl, b, hb⟩ := h.current id hid
      have hne : d ≠ c := fun heq => hcurrent (heq ▸ hid)
      refine ⟨d, hdm, rfl, b, ?_⟩
      rw [Step.next, hd.update_of_ne phases hc hdm hne]
      exact hb
  · exact h.unsent

theorem toolDeltas_argumentsChunk (s : State) (index : Option Nat) (text : JsString) :
    toolDeltas (argumentsChunk s index text) = argumentDeltas index text ∧
      ∀ c ∈ argumentsChunk s index text, c.finishReason = none := by
  unfold argumentsChunk argumentDeltas
  split
  · exact ⟨rfl, by simp⟩
  · exact ⟨rfl, by simp [toolChunk, baseChunk]⟩

theorem resolveDone_eq (nowMs : Nat) (c : Call) (arguments : Option JsString) (s : State) :
    resolveDone nowMs (c.item arguments) s = c.callId := by
  unfold resolveDone
  simp [Call.item, presentId_some_of_ne c.callId_ne]

theorem onDone_spec (nowMs : Nat) (hl : Ledger calls phases claimed)
    (h : Tracks calls phases claimed s) (hok : (Step.done c arguments).Ok calls phases) :
    callView (onDone opts nowMs (c.item arguments) s).2 = callView (closedState c s) ∧
      toolDeltas (onDone opts nowMs (c.item arguments) s).1 =
        (Step.done c arguments).deltas opts claimed ∧
      ∀ chunk ∈ (onDone opts nowMs (c.item arguments) s).1, chunk.finishReason = none := by
  obtain ⟨hc, hphase⟩ := hok
  have hentry := h.entry c hc
  have hname : normalizeToolName (c.item arguments).name = c.toolName := rfl
  unfold onDone
  dsimp only
  rw [resolveDone_eq, hentry, hname]
  rcases hphase with ⟨hshape, hfresh, rfl⟩ | ⟨buffer, hopened, hcarries⟩
  · -- Only a done event: there is no entry.
    have hcarries : Carries c [] (some c.arguments) := ⟨.inl rfl, .inl rfl⟩
    rw [entryOf, hfresh]
    dsimp only [Option.getD_none]
    rw [doneArguments_eq opts hcarries, if_neg (by simp), Step.deltas, hshape]
    by_cases hblank : c.toolName = []
    · simp only [hblank]
      refine ⟨?_, toolDeltas_argumentsChunk ..⟩
      simp [closedState, hblank]
    · have hnonempty : c.toolName.isEmpty = false := by simpa using hblank
      simp only [hnonempty, hblank, h.counter]
      refine ⟨?_, toolDeltas_argumentsChunk ..⟩
      simp [callView, closedState, hblank, hshape, h.counter]
  · obtain ⟨hdone, hcompleted, -⟩ := hl.opened c hc buffer hopened
    rw [entryOf, hopened]
    dsimp only [Option.getD_some]
    rw [doneArguments_eq opts hcarries, Call.item, terminalArguments_eq hcarries, Step.deltas]
    cases hshape : c.shape with
    | named =>
      refine ⟨?_, toolDeltas_argumentsChunk ..⟩
      simp [callView, closedState, hshape]
    | deferred placeholder =>
      by_cases hblank : c.toolName = []
      · simp [closedState, hblank, toolDeltas]
      · have hnonempty : c.toolName.isEmpty = false := by simpa using hblank
        simp [callView, closedState, hblank, hshape, h.counter, toolDeltas, toolChunk, baseChunk,
          Call.header, Call.delivered]
    | doneOnly => exact absurd hshape hdone
    | completedOnly => exact absurd hshape hcompleted

theorem handle_noise (nowMs : Nat) {event : Event} (hnoise : event.IsNoise) (s : State) :
    callView (handle opts nowMs event s).2 = callView s ∧
      toolDeltas (handle opts nowMs event s).1 = [] ∧
        ∀ c ∈ (handle opts nowMs event s).1, c.finishReason = none := by
  have hreasoning : ∀ (s : State) (text : JsString),
      toolDeltas (buildResponsesReasoningDeltaChunk opts s text) = [] ∧
        ∀ c ∈ buildResponsesReasoningDeltaChunk opts s text, c.finishReason = none := by
    intro s text
    unfold buildResponsesReasoningDeltaChunk
    split
    · exact ⟨rfl, by simp⟩
    · split <;> exact ⟨rfl, by simp [baseChunk]⟩
  cases event with
  | outputTextDelta delta =>
    unfold handle
    dsimp only
    split
    · exact ⟨rfl, rfl, by simp⟩
    · exact ⟨rfl, rfl, by simp [baseChunk]⟩
  | reasoningDelta itemId delta =>
    unfold handle
    dsimp only
    split
    · exact ⟨rfl, rfl, by simp⟩
    · exact ⟨rfl, rfl, by simp [baseChunk]⟩
  | reasoningSummaryDelta itemId summaryIndex delta =>
    unfold handle
    dsimp only
    split
    · exact ⟨rfl, rfl, by simp⟩
    · refine ⟨?_, hreasoning _ _⟩
      unfold buildResponsesReasoningSummaryDelta
      split <;> rfl
  | reasoningDone item =>
    unfold handle onReasoningDone
    dsimp only
    split
    · exact ⟨rfl, rfl, by simp⟩
    · split
      · exact ⟨rfl, hreasoning _ _⟩
      · split
        · exact ⟨rfl, rfl, by simp⟩
        · exact ⟨rfl, hreasoning _ _⟩
  | other => exact ⟨rfl, rfl, by simp [handle]⟩
  | functionCallAdded item outputIndex => exact hnoise.elim
  | argumentsDelta itemId outputIndex delta => exact hnoise.elim
  | functionCallDone item => exact hnoise.elim
  | completed output usage => exact hnoise.elim
  | failed => exact hnoise.elim

theorem handle_step (nowMs : Nat) (hd : Distinct calls) (hl : Ledger calls phases claimed)
    (h : Tracks calls phases claimed s) {step : Step} (hok : step.Ok calls phases) :
    Tracks calls (step.next phases) (claimed ++ step.claims) (handle opts nowMs step.event s).2 ∧
      toolDeltas (handle opts nowMs step.event s).1 = step.deltas opts claimed ∧
      ∀ c ∈ (handle opts nowMs step.event s).1, c.finishReason = none := by
  cases step with
  | noise event =>
    obtain ⟨hview, hdeltas, hfinish⟩ := handle_noise opts nowMs hok s
    rw [Step.claims, append_nil]
    exact ⟨h.of_view hview, hdeltas, hfinish⟩
  | added c =>
    have htracks := tracks_added hd hl h hok
    obtain ⟨-, hdone, hcompleted, -⟩ := hok
    have heq : handle opts nowMs (Step.added c).event s =
        (if c.shape = .named then [toolChunk (addedState c s) (c.header s.toolCallIndex [])]
          else [], addedState c s) := onAdded_eq nowMs hdone hcompleted s
    rw [heq]
    refine ⟨htracks, ?_⟩
    rw [h.counter, Step.deltas]
    split
    · exact ⟨rfl, by simp [toolChunk, baseChunk]⟩
    · exact ⟨rfl, by simp⟩
  | delta c byItem byIndex fragment =>
    obtain ⟨s', heq, htracks⟩ := tracks_delta hd hl h hok
    have hhandle : handle opts nowMs (Step.delta c byItem byIndex fragment).event s = ([], s') := heq
    rw [hhandle, Step.claims, append_nil]
    exact ⟨htracks, rfl, by simp⟩
  | done c arguments =>
    obtain ⟨hview, hdeltas, hfinish⟩ := onDone_spec opts nowMs hl h hok
    exact ⟨(tracks_done hd hl h hok).of_view hview, hdeltas, hfinish⟩

end

/-! ## Whole streams -/

variable (opts : Options)

theorem started_buildAll (nowMs : Nat) (items : List FunctionCallItem) (s : State) :
    (buildAll opts nowMs items s).2.started = s.started := by
  induction items generalizing s with
  | nil => rfl
  | cons item items ih => exact ih _

theorem started_handle (nowMs : Nat) (event : Event) (s : State) :
    (handle opts nowMs event s).2.started = s.started := by
  cases event with
  | completed output usage =>
    unfold handle onCompleted
    dsimp only
    split
    · rfl
    · exact started_buildAll ..
  | _ =>
    unfold handle
    simp only [onAdded, onArgumentsDelta, onDone, onReasoningDone,
      buildResponsesReasoningSummaryDelta]
    repeat' split
    all_goals rfl

/-- A stream that has not begun has no calls yet. -/
def Began (s : State) : Prop := s.started = true ∨ callView s = callView {}

theorem callView_begin (arrival : Arrival) (h : Began s) :
    callView (begin arrival s) = callView s ∧ (begin arrival s).started = true := by
  unfold begin
  dsimp only
  split
  · rename_i hstarted
    exact ⟨rfl, hstarted⟩
  · rename_i hstarted
    rcases h with h | h
    · exact absurd h hstarted
    · refine ⟨?_, rfl⟩
      simp only [callView, Prod.mk.injEq] at h ⊢
      simp [h]

/-- The role on the first delta changes nothing that a call depends on. -/
theorem withAssistantRole_spec (chunks : List Chunk) (s : State) :
    let r := withAssistantRoleOnFirstDelta (chunks, s)
    callView r.2 = callView s ∧ r.2.started = s.started ∧ toolDeltas r.1 = toolDeltas chunks ∧
      r.1.map Chunk.finishReason = chunks.map Chunk.finishReason := by
  unfold withAssistantRoleOnFirstDelta
  cases chunks with
  | nil => exact ⟨rfl, rfl, rfl, rfl⟩
  | cons chunk chunks =>
    dsimp only
    split <;> exact ⟨rfl, rfl, rfl, rfl⟩

def Unfinished (chunks : List Chunk) : Prop := ∀ c ∈ chunks, c.finishReason = none

theorem Unfinished.append {xs ys : List Chunk} (hxs : Unfinished xs) (hys : Unfinished ys) :
    Unfinished (xs ++ ys) := by
  intro c hc
  rcases mem_append.mp hc with hc | hc
  · exact hxs c hc
  · exact hys c hc

theorem Unfinished.of_map {xs ys : List Chunk} (hys : Unfinished ys)
    (h : xs.map Chunk.finishReason = ys.map Chunk.finishReason) : Unfinished xs := by
  intro c hc
  have hmem : c.finishReason ∈ ys.map Chunk.finishReason := h ▸ mem_map_of_mem hc
  obtain ⟨d, hd, heq⟩ := mem_map.mp hmem
  rw [← heq]
  exact hys d hd

theorem arrival_spec (arrival : Arrival) (hbegan : Began s) :
    ∃ s₀ chunks s₁, handle opts arrival.nowMs arrival.event s₀ = (chunks, s₁) ∧
      callView s₀ = callView s ∧
      callView (openaiResponsesToOpenAIResponse opts arrival s).2 = callView s₁ ∧
      (openaiResponsesToOpenAIResponse opts arrival s).2.started = true ∧
      toolDeltas (openaiResponsesToOpenAIResponse opts arrival s).1 = toolDeltas chunks ∧
      (openaiResponsesToOpenAIResponse opts arrival s).1.map Chunk.finishReason =
        chunks.map Chunk.finishReason := by
  obtain ⟨hview, hstarted⟩ := callView_begin arrival hbegan
  have hafter := started_handle opts arrival.nowMs arrival.event (begin arrival s)
  cases hhandle : handle opts arrival.nowMs arrival.event (begin arrival s) with
  | mk chunks s₁ =>
    rw [hhandle, hstarted] at hafter
    obtain ⟨h₁, h₂, h₃, h₄⟩ := withAssistantRole_spec chunks s₁
    refine ⟨_, chunks, s₁, hhandle, hview, ?_, ?_, ?_, ?_⟩
    · rw [openaiResponsesToOpenAIResponse, hhandle]
      exact h₁
    · rw [openaiResponsesToOpenAIResponse, hhandle]
      exact h₂.trans hafter
    · rw [openaiResponsesToOpenAIResponse, hhandle]
      exact h₃
    · rw [openaiResponsesToOpenAIResponse, hhandle]
      exact h₄

theorem translate_body (hd : Distinct calls) (steps : List Step) {arrivals : List Arrival}
    {claimed : List Call} (harrivals : arrivals.map Arrival.event = steps.map Step.event)
    (hl : Ledger calls phases claimed) (h : Tracks calls phases claimed s) (hbegan : Began s)
    (hok : BodyOk calls phases steps) :
    ∃ phases', BodyOk calls phases' [] ∧ Ledger calls phases' (claimedAfter claimed steps) ∧
      Tracks calls phases' (claimedAfter claimed steps) (translate opts arrivals s).2 ∧
      Began (translate opts arrivals s).2 ∧
      toolDeltas (translate opts arrivals s).1 = bodyDeltas opts claimed steps ∧
      Unfinished (translate opts arrivals s).1 := by
  induction steps generalizing arrivals phases claimed s with
  | nil =>
    have hnil : arrivals = [] := map_eq_nil_iff.mp harrivals
    subst hnil
    refine ⟨phases, hok, ?_, ?_, hbegan, rfl, fun _ hc => absurd hc not_mem_nil⟩
    · rw [claimedAfter, flatMap_nil, append_nil]
      exact hl
    · rw [claimedAfter, flatMap_nil, append_nil]
      exact h
  | cons step steps ih =>
    obtain ⟨arrival, rest, rfl, hevent, hrest⟩ := map_eq_cons_iff.mp harrivals
    obtain ⟨s₀, chunks, s₁, hhandle, hview, hview', hstarted', hdeltas, hfinish⟩ :=
      arrival_spec opts arrival hbegan
    have hstep := handle_step opts arrival.nowMs hd hl (h.of_view hview) hok.1
    rw [← hevent, hhandle] at hstep
    obtain ⟨htracks, hemitted, hunfinished⟩ := hstep
    obtain ⟨phases', hend, hl', htracks', hbegan', hdeltas', hfinish'⟩ :=
      ih hrest (hl.step hd hok.1) (htracks.of_view hview') (.inl hstarted') hok.2
    have hclaimed : claimedAfter (claimed ++ step.claims) steps =
        claimedAfter claimed (step :: steps) := by
      simp [claimedAfter]
    rw [hclaimed] at hl' htracks'
    refine ⟨phases', hend, hl', htracks', hbegan', ?_, ?_⟩
    · rw [translate, bodyDeltas, ← hdeltas', ← hemitted, ← hdeltas]
      exact toolDeltas_append _ _
    · exact Unfinished.append (Unfinished.of_map hunfinished hfinish) hfinish'

theorem unseenCalls_eq (script : Script) {claimed : List Call}
    (h : Tracks script.calls phases claimed s) (hend : BodyOk script.calls phases []) :
    unseenCalls script.output s = script.late.map fun c => c.item (some c.arguments) := by
  unfold unseenCalls Script.late
  rw [script.echo, filter_map]
  congr 1
  apply filter_congr
  intro c hc
  have hcalls : c ∈ script.calls := script.echoed_perm.mem_iff.mp hc
  have hseen := h.seen c hcalls
  rw [hend c hcalls] at hseen
  by_cases hshape : c.shape = .completedOnly
  · have hunseen : c.callId ∉ s.toolCallIdsSeen := by
      intro hmem
      simpa [hshape] using hseen.mp hmem
    simp [Call.item, hshape, hunseen]
  · have hmem : c.callId ∈ s.toolCallIdsSeen := hseen.mpr (by simp [hshape])
    simp [Call.item, hshape, hmem]

theorem buildAll_spec (nowMs : Nat) (late : List Call) {claimed : List Call}
    (hcounter : s.toolCallIndex = claimed.length) (hcurrent : s.currentToolCallId = none) :
    ∃ chunks s', buildAll opts nowMs (late.map fun c => c.item (some c.arguments)) s =
        (chunks, s') ∧
      toolDeltas chunks = completedDeltas opts claimed late ∧ Unfinished chunks ∧
      s'.toolCallIndex = (claimed ++ late).length ∧ s'.currentToolCallId = none ∧
      s'.toolCallByCallId = s.toolCallByCallId := by
  induction late generalizing claimed s with
  | nil =>
    refine ⟨[], s, rfl, rfl, fun _ hc => absurd hc not_mem_nil, ?_, hcurrent, rfl⟩
    rw [append_nil]
    exact hcounter
  | cons c late ih =>
    let s₁ : State :=
      { s with toolCallIndex := s.toolCallIndex + 1, currentToolCallId := none }
    have hcounter₁ : s₁.toolCallIndex = (claimed ++ [c]).length := by
      rw [length_append, length_singleton, ← hcounter]
    obtain ⟨chunks, s', hbuild, hdeltas, hunfinished, hindex, hcurrent', hentries⟩ :=
      ih hcounter₁ rfl
    have hresolve : resolveArgsStr opts (c.item (some c.arguments)).arguments c.toolName =
        c.delivered opts := rfl
    have hone : buildToolCallChunks opts nowMs (c.item (some c.arguments)) s =
        (toolChunk s (c.header s.toolCallIndex []) ::
          argumentsChunk s (some s.toolCallIndex) (c.delivered opts), s₁) := by
      unfold buildToolCallChunks
      simp only [Call.item, presentId_some_of_ne c.callId_ne]
      rfl
    obtain ⟨hargs, hargsUnfinished⟩ :=
      toolDeltas_argumentsChunk s (some s.toolCallIndex) (c.delivered opts)
    refine ⟨toolChunk s (c.header s.toolCallIndex []) ::
        argumentsChunk s (some s.toolCallIndex) (c.delivered opts) ++ chunks, s', ?_, ?_, ?_, ?_,
      hcurrent', hentries⟩
    · rw [map_cons, buildAll, hone]
      dsimp only
      rw [hbuild]
    · rw [completedDeltas, toolDeltas_append, hdeltas, ← hcounter, ← hargs]
      rfl
    · apply Unfinished.append ?_ hunfinished
      intro chunk hchunk
      rcases mem_cons.mp hchunk with rfl | hchunk
      · rfl
      · exact hargsUnfinished chunk hchunk
    · rw [hindex]
      simp

theorem Tracks.current_none {claimed : List Call} (h : Tracks calls phases claimed s)
    (hend : BodyOk calls phases []) : s.currentToolCallId = none := by
  cases hcurrent : s.currentToolCallId with
  | none => rfl
  | some id =>
    obtain ⟨c, hc, -, b, hb⟩ := h.current id hcurrent
    rw [hend c hc] at hb
    split at hb
    all_goals cases hb

theorem Tracks.entries_nil {claimed : List Call} (h : Tracks calls phases claimed s)
    (hend : BodyOk calls phases []) : s.toolCallByCallId = [] := by
  rw [← map_eq_nil_iff (f := Prod.fst), eq_nil_iff_forall_not_mem]
  intro k hk
  obtain ⟨c, hc, rfl⟩ := h.keys k hk
  have hentry := h.entry c hc
  rw [entryOf, hend c hc] at hentry
  have hsome := JsMap.get_isSome_iff.mpr hk
  rw [hentry] at hsome
  split at hsome
  · rename_i heq
    split at heq
    all_goals cases heq
  · cases hsome

/-- The completed response adds the synthesized calls and the final chunk. -/
theorem onCompleted_spec (nowMs : Nat) (script : Script) {claimed : List Call}
    (h : Tracks script.calls phases claimed s) (hend : BodyOk script.calls phases []) :
    ∃ before last s', onCompleted opts nowMs script.output script.usage s = (before ++ [last], s') ∧
      toolDeltas (before ++ [last]) = completedDeltas opts claimed script.late ∧
      Unfinished before ∧
      last.finishReason = some (if claimed ++ script.late = [] then .stop else .toolCalls) ∧
      s'.toolCallByCallId = [] ∧ s'.finishReasonSent = true := by
  let s₀ : State := { s with usage := (script.usage.map completedUsage).orElse fun _ => s.usage }
  have h₀ : Tracks script.calls phases claimed s₀ := h.of_view rfl
  obtain ⟨chunks, s', hbuild, hdeltas, hunfinished, hindex, hcurrent, hentries⟩ :=
    buildAll_spec opts nowMs script.late h₀.counter (h₀.current_none hend)
  have hreason : computeFinishReason s' =
      if claimed ++ script.late = [] then .stop else .toolCalls := by
    unfold computeFinishReason
    rw [hindex, hcurrent]
    by_cases hnil : claimed ++ script.late = []
    · simp [hnil]
    · have hpos : 0 < (claimed ++ script.late).length := length_pos_of_ne_nil hnil
      rw [if_pos (.inl hpos), if_neg hnil]
  let final : State :=
    { s' with finishReasonSent := true, finishReason := some (computeFinishReason s') }
  let last : Chunk :=
    { baseChunk final {} with
      finishReason := some (computeFinishReason s')
      usage := final.usage }
  have hcompleted : onCompleted opts nowMs script.output script.usage s =
      (chunks ++ [last], final) := by
    unfold onCompleted
    rw [if_neg (by simp [h.unsent]), unseenCalls_eq script h₀ hend, hbuild]
    rfl
  refine ⟨chunks, last, final, hcompleted, ?_, hunfinished, ?_, ?_, rfl⟩
  · rw [toolDeltas_append, hdeltas]
    exact append_nil _
  · exact congrArg some hreason
  · exact hentries.trans (h₀.entries_nil hend)

theorem flush_nil (nowMs : Nat) (hentries : s.toolCallByCallId = [])
    (hsent : s.finishReasonSent = true) : (flush opts nowMs s).1 = [] := by
  have hpending : pendingArguments opts s = [] := by
    unfold pendingArguments
    rw [hentries]
    rfl
  have hflush : flushStream opts nowMs s = ([], s) := by
    unfold flushStream
    simp [hpending, hsent]
  rw [flush, hflush]
  rfl

theorem translate_append (xs ys : List Arrival) (s : State) :
    translate opts (xs ++ ys) s =
      ((translate opts xs s).1 ++ (translate opts ys (translate opts xs s).2).1,
        (translate opts ys (translate opts xs s).2).2) := by
  induction xs generalizing s with
  | nil => rfl
  | cons arrival xs ih => simp [translate, ih]

def Script.claimed : List Call :=
  claimedAfter [] script.steps ++ script.late

/-- The translator gives the deltas of the script, and its last chunk is the
only one with a finish reason. -/
theorem stream_spec (script : Script) {arrivals : List Arrival} (flushMs : Nat)
    (harrivals : arrivals.map Arrival.event = script.events) :
    toolDeltas (stream opts arrivals flushMs) = scriptDeltas opts script ∧
      ∃ before last, stream opts arrivals flushMs = before ++ [last] ∧ Unfinished before ∧
        last.finishReason = some (if script.claimed = [] then .stop else .toolCalls) := by
  obtain ⟨bodyArrivals, tailArrivals, rfl, hbody, htail⟩ := map_eq_append_iff.mp harrivals
  obtain ⟨arrival, rest, rfl, hevent, hrest⟩ := map_eq_cons_iff.mp htail
  have hnil : rest = [] := map_eq_nil_iff.mp hrest
  subst hnil
  have hl : Ledger script.calls (fun _ => .fresh) [] :=
    ⟨by simp, by simp, by simp⟩
  have h : Tracks script.calls (fun _ => .fresh) [] {} :=
    ⟨rfl, fun _ _ => rfl, by simp, by simp, by simp, by simp, by simp, rfl⟩
  obtain ⟨phases, hend, hl', h', hbegan, hdeltas, hunfinished⟩ :=
    translate_body opts script.distinct script.steps hbody hl h (.inr rfl) script.body
  obtain ⟨s₀, chunks, s₁, hhandle, hview, hview', -, hemitted, hfinish⟩ :=
    arrival_spec opts arrival hbegan
  obtain ⟨before, last, s', hcompleted, hlate, hbefore, hlast, hentries, hsent⟩ :=
    onCompleted_spec opts arrival.nowMs script (h'.of_view hview) hend
  have hchunks : (chunks, s₁) = (before ++ [last], s') := by
    rw [← hhandle, ← hcompleted, hevent]
    rfl
  obtain ⟨rfl, rfl⟩ := Prod.mk.inj hchunks
  let body := translate opts bodyArrivals {}
  let out := openaiResponsesToOpenAIResponse opts arrival body.2
  have hstream : stream opts (bodyArrivals ++ [arrival]) flushMs = body.1 ++ out.1 := by
    have hflush : (flush opts flushMs out.2).1 = [] := by
      simp only [callView, Prod.mk.injEq] at hview'
      exact flush_nil opts flushMs (hview'.2.2.1.trans hentries) (hview'.2.2.2.2.2.2.trans hsent)
    unfold stream
    rw [translate_append]
    dsimp only [translate]
    rw [append_nil, hflush, append_nil]
  rw [hstream]
  constructor
  · rw [toolDeltas_append, hdeltas, hemitted, hlate]
    rfl
  · rw [map_append] at hfinish
    obtain ⟨before', last', hout, hbefore', hlast'⟩ := map_eq_append_iff.mp hfinish
    obtain ⟨final, rest', rfl, hfinal, hrest'⟩ := map_eq_cons_iff.mp hlast'
    have hnil : rest' = [] := map_eq_nil_iff.mp hrest'
    subst hnil
    refine ⟨body.1 ++ before', final, ?_, ?_, hfinal.trans hlast⟩
    · rw [append_assoc]
      exact congrArg _ hout
    · exact hunfinished.append (hbefore.of_map hbefore')

end RedRouter.Response.ResponsesToOpenai
