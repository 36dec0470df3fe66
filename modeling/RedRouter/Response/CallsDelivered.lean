import RedRouter.Response.CallScript

/-!
# Which streams deliver every call once

`DeliversOnce` is what a client needs: one tool call for each function call
with a name, announced once and before its arguments, under the indices
`0, 1, 2, …`.  `deliversOnce_iff` says for which scripts the translator gives
it: a call that comes in a done event only is never announced, and a nameless
call that only the completed response has is announced all the same.
-/

namespace RedRouter.Response.ResponsesToOpenai

open List Chat

/-! ## The contract -/

/-- The announced calls: index, id and name. -/
def announcements (deltas : List ToolCallDelta) :
    List (Option Nat × Option JsString × Option JsString) :=
  (deltas.filter fun d => d.id.isSome || d.name.isSome).map fun d => (d.index, d.id, d.name)

/-- No arguments before the announcement of their call. -/
def AnnouncedFirst (deltas : List ToolCallDelta) : Prop :=
  ∀ before d after, deltas = before ++ d :: after → d.arguments.getD [] ≠ [] →
    ∃ header ∈ before ++ [d], header.index = d.index ∧ header.id.isSome ∧ header.name.isSome

def namedCalls (calls : List Call) : List Call := calls.filter fun c => c.toolName ≠ []

/-- The announcement of the call number `k`. -/
def announcement (entry : Call × Nat) : Option Nat × Option JsString × Option JsString :=
  (some entry.2, some entry.1.callId, some entry.1.toolName)

/-- The call number `k` with given arguments. -/
def assembledCall (arguments : Call × Nat → JsString) (entry : Call × Nat) : AssembledCall :=
  ⟨some entry.2, some entry.1.callId, some entry.1.toolName, arguments entry⟩

structure DeliversOnce (opts : Options) (calls : List Call) (chunks : List Chunk) : Prop where
  /-- The named calls have the indices `0, 1, 2, …` in some order, each with one
  announcement and with its own arguments. -/
  order : ∃ order : List Call, order.Perm (namedCalls calls) ∧ (assemble (toolDeltas chunks)).Perm
      (order.zipIdx.map (assembledCall fun entry => entry.1.delivered opts)) ∧
    (announcements (toolDeltas chunks)).Perm (order.zipIdx.map announcement)
  first : AnnouncedFirst (toolDeltas chunks)
  /-- The last chunk alone has a finish reason. -/
  finish : ∃ before last reason, chunks = before ++ [last] ∧ Unfinished before ∧
    last.finishReason = some reason ∧ (reason = .toolCalls ↔ 0 < (namedCalls calls).length)

/-- The calls that the translator announces as they should be. -/
def Call.Announceable (opts : Options) (c : Call) : Prop :=
  match c.shape with
  | .named => True
  | .deferred _ => True
  | .doneOnly => c.toolName = [] ∧ c.delivered opts = []
  | .completedOnly => c.toolName ≠ []

/-! ## The deltas so far -/

structure Delivery (claimed : List Call) (arguments : Nat → JsString)
    (deltas : List ToolCallDelta) : Prop where
  assembled : assemble deltas = claimed.zipIdx.map (assembledCall fun entry => arguments entry.2)
  announced : announcements deltas = claimed.zipIdx.map announcement
  first : AnnouncedFirst deltas

variable {d : ToolCallDelta}

theorem AnnouncedFirst.concat {deltas : List ToolCallDelta} (h : AnnouncedFirst deltas)
    (hd : ∃ header ∈ deltas ++ [d],
      header.index = d.index ∧ header.id.isSome ∧ header.name.isSome) :
    AnnouncedFirst (deltas ++ [d]) := by
  intro before d' after heq harguments
  rcases eq_nil_or_concat after with rfl | ⟨after', last, rfl⟩
  · obtain ⟨rfl, hlast⟩ := append_inj' heq rfl
    have hd' : d = d' := singleton_inj.mp hlast
    subst hd'
    exact hd
  · have hsplit : deltas = before ++ d' :: after' := by
      have heq' : deltas ++ [d] = (before ++ d' :: after') ++ [last] := by
        rw [heq]
        simp
      exact (append_inj' heq' rfl).1
    exact h before d' after' hsplit harguments

section

variable {claimed : List Call} {arguments : Nat → JsString} {deltas : List ToolCallDelta}

theorem Delivery.header (h : Delivery claimed arguments deltas) (c : Call) (text : JsString) :
    Delivery (claimed ++ [c]) (Function.update arguments claimed.length text)
      (deltas ++ [c.header claimed.length text]) where
  assembled := by
    have hold : claimed.zipIdx.map (assembledCall fun entry => arguments entry.2) =
        claimed.zipIdx.map
          (assembledCall fun entry => Function.update arguments claimed.length text entry.2) := by
      apply map_congr_left
      rintro ⟨c', k⟩ hentry
      have hlt : k < claimed.length := by
        have hbound := (mem_zipIdx hentry).2.1
        omega
      simp [assembledCall, Function.update_of_ne (Nat.ne_of_lt hlt)]
    rw [assemble_concat, h.assembled, addDelta_new]
    · simp [hold, zipIdx_append, assembledCall, Call.header]
    · intro call hcall
      obtain ⟨⟨c', k⟩, hentry, rfl⟩ := mem_map.mp hcall
      have hlt : k < claimed.length := by
        have hbound := (mem_zipIdx hentry).2.1
        omega
      intro heq
      exact Nat.ne_of_lt hlt (Option.some.inj heq)
  announced := by
    have hold := h.announced
    unfold announcements at hold ⊢
    rw [filter_append, map_append, hold]
    simp [Call.header, zipIdx_append, announcement]
  first := by
    apply h.first.concat
    exact ⟨_, mem_append_right _ (mem_singleton_self _), rfl, rfl, rfl⟩

theorem Delivery.deliver (h : Delivery claimed arguments deltas) {n : Nat}
    (hn : n < claimed.length) (text : JsString) :
    Delivery claimed (Function.update arguments n (arguments n ++ text))
      (deltas ++ argumentDeltas (some n) text) := by
  unfold argumentDeltas
  split
  · rename_i hempty
    have hnil : text = [] := List.isEmpty_iff.mp hempty
    rw [hnil, append_nil, append_nil, Function.update_eq_self]
    exact h
  · have hentry : (claimed[n], n) ∈ claimed.zipIdx :=
      mem_zipIdx_iff_getElem?.mpr (getElem?_eq_getElem hn)
    constructor
    · rw [assemble_concat, h.assembled, addDelta_old]
      · rw [map_map]
        apply map_congr_left
        rintro ⟨c, k⟩ -
        by_cases hk : k = n
        · subst hk
          simp [assembledCall, AssembledCall.extend]
        · simp [assembledCall, hk]
      · exact ⟨_, mem_map_of_mem hentry, rfl⟩
    · have hold := h.announced
      unfold announcements at hold ⊢
      rw [filter_append, map_append, hold]
      simp
    · apply h.first.concat
      -- The announcement of index `n` is among the earlier deltas.
      have hmem : announcement (claimed[n], n) ∈ announcements deltas := by
        rw [h.announced]
        exact mem_map_of_mem hentry
      obtain ⟨header, hheader, heq⟩ := mem_map.mp hmem
      simp only [announcement, Prod.mk.injEq] at heq
      refine ⟨header, mem_append_left _ (mem_of_mem_filter hheader), heq.1, ?_, ?_⟩
      · rw [heq.2.1]
        rfl
      · rw [heq.2.2]
        rfl

end

/-! ## Streams whose calls are announced -/

/-- The deltas, the arguments and the claims after some steps. -/
structure Delivered (opts : Options) (calls : List Call) (phases : Phases) (claimed : List Call)
    (arguments : Nat → JsString) (deltas : List ToolCallDelta) : Prop where
  ledger : Ledger calls phases claimed
  delivery : Delivery claimed arguments deltas
  /-- A call has its arguments when it is closed, and none before. -/
  arguments : ∀ k c, claimed[k]? = some c →
    (phases c.callId = .closed → arguments k = c.delivered opts) ∧
      ∀ b, phases c.callId = .opened b → arguments k = []
  /-- A closed call has an index when it has a name. -/
  closed : ∀ c ∈ calls, phases c.callId = .closed → (c ∈ claimed ↔ c.toolName ≠ [])

section

variable {opts : Options} {calls claimed : List Call} {phases : Phases}
  {arguments : Nat → JsString} {deltas : List ToolCallDelta}

theorem getElem?_claimedIndex (hd : Distinct calls) (h : Ledger calls phases claimed) {c : Call}
    (hc : c ∈ claimed) :
    claimedIndex claimed c < claimed.length ∧ claimed[claimedIndex claimed c]? = some c := by
  have hmem : c.callId ∈ claimed.map Call.callId := mem_map_of_mem hc
  have hlt : claimedIndex claimed c < claimed.length := by
    have hidx := idxOf_lt_length_of_mem hmem
    rw [length_map] at hidx
    exact hidx
  have hget : claimed[claimedIndex claimed c].callId = c.callId := by
    have hidx := getElem_idxOf (idxOf_lt_length_of_mem hmem)
    rw [getElem_map] at hidx
    exact hidx
  refine ⟨hlt, ?_⟩
  rw [getElem?_eq_getElem hlt]
  congr 1
  exact hd.callId _ (h.sub _ (getElem_mem hlt)).1 c (h.sub c hc).1 hget

theorem Ledger.index_unique (h : Ledger calls phases claimed) {c : Call} {k n : Nat}
    (hk : claimed[k]? = some c) (hn : claimed[n]? = some c) : k = n := by
  have hlt : k < claimed.length := (List.getElem?_eq_some_iff.mp hk).1
  have hnodup : claimed.Nodup := List.Nodup.of_map _ h.nodup
  exact (getElem?_inj hlt hnodup).mp (hk.trans hn.symm)

namespace Delivered

section

variable (hd : Distinct calls)
include hd

theorem keep (h : Delivered opts calls phases claimed arguments deltas)
    {step : Step} (hok : step.Ok calls phases) {c : Call} {p : Phase} (hc : c ∈ calls)
    (hnext : step.next phases = Function.update phases c.callId p) (hclaims : step.claims = [])
    {arguments' : Nat → JsString} {deltas' : List ToolCallDelta}
    (hdelivery : Delivery claimed arguments' deltas')
    (hothers : ∀ k d, claimed[k]? = some d → d ≠ c → arguments' k = arguments k)
    (hown : ∀ k, claimed[k]? = some c →
      (p = .closed → arguments' k = c.delivered opts) ∧ ∀ b, p = .opened b → arguments' k = [])
    (hclosed : p = .closed → (c ∈ claimed ↔ c.toolName ≠ [])) :
    Delivered opts calls (step.next phases) (claimed ++ step.claims) arguments' deltas' := by
  have hledger := h.ledger.step hd hok
  rw [hclaims, append_nil] at hledger ⊢
  refine ⟨hledger, hdelivery, ?_, ?_⟩
  · intro k d hk
    rw [hnext]
    have hdm : d ∈ calls := (h.ledger.sub d (mem_of_getElem? hk)).1
    by_cases heq : d = c
    · subst heq
      rw [update_self]
      exact hown k hk
    · rw [hd.update_of_ne phases hc hdm heq, hothers k d hk heq]
      exact h.arguments k d hk
  · intro d hdm hphase
    rw [hnext] at hphase
    by_cases heq : d = c
    · subst heq
      rw [update_self] at hphase
      exact hclosed hphase
    · rw [hd.update_of_ne phases hc hdm heq] at hphase
      exact h.closed d hdm hphase

theorem claim (h : Delivered opts calls phases claimed arguments deltas)
    {step : Step} (hok : step.Ok calls phases) {c : Call} {p : Phase} {text : JsString}
    (hc : c ∈ calls) (hnew : c ∉ claimed)
    (hnext : step.next phases = Function.update phases c.callId p) (hclaims : step.claims = [c])
    (htext : (p = .closed → text = c.delivered opts) ∧ ∀ b, p = .opened b → text = [])
    (hname : p = .closed → c.toolName ≠ []) :
    Delivered opts calls (step.next phases) (claimed ++ step.claims)
      (Function.update arguments claimed.length text)
      (deltas ++ [c.header claimed.length text]) := by
  have hledger := h.ledger.step hd hok
  rw [hclaims] at hledger ⊢
  refine ⟨hledger, h.delivery.header c text, ?_, ?_⟩
  · intro k d hk
    rw [hnext]
    rcases (getElem?_concat_iff ..).mp hk with hk | ⟨rfl, rfl⟩
    · have hmem : d ∈ claimed := mem_of_getElem? hk
      have hne : d ≠ c := fun heq => hnew (heq ▸ hmem)
      have hlt : k < claimed.length := (List.getElem?_eq_some_iff.mp hk).1
      rw [hd.update_of_ne phases hc (h.ledger.sub d hmem).1 hne,
        Function.update_of_ne (Nat.ne_of_lt hlt)]
      exact h.arguments k d hk
    · rw [update_self, Function.update_self]
      exact htext
  · intro d hdm hphase
    rw [hnext] at hphase
    by_cases heq : d = c
    · subst heq
      rw [update_self] at hphase
      exact iff_of_true (by simp) (hname hphase)
    · rw [hd.update_of_ne phases hc hdm heq] at hphase
      rw [← h.closed d hdm hphase, mem_append, mem_singleton]
      exact or_iff_left heq

theorem step (hcalls : ∀ c ∈ calls, c.Announceable opts)
    (h : Delivered opts calls phases claimed arguments deltas) {step : Step}
    (hok : step.Ok calls phases) :
    ∃ arguments', Delivered opts calls (step.next phases) (claimed ++ step.claims) arguments'
      (deltas ++ step.deltas opts claimed) := by
  cases step with
  | noise event =>
    refine ⟨arguments, ?_⟩
    rw [Step.claims, Step.deltas, append_nil, append_nil]
    exact h
  | added c =>
    obtain ⟨hc, -, -, hfresh⟩ := id hok
    have hnew := h.ledger.not_mem_of_fresh hfresh
    by_cases hnamed : c.shape = .named
    · rw [Step.deltas, if_pos hnamed]
      exact ⟨_, h.claim hd hok hc hnew rfl (if_pos hnamed) (by simp) (by simp)⟩
    · refine ⟨arguments, ?_⟩
      rw [Step.deltas, if_neg hnamed, append_nil]
      apply h.keep hd hok hc rfl (if_neg hnamed) h.delivery (fun _ _ _ _ => rfl) _ (by simp)
      intro k hk
      exact absurd (mem_of_getElem? hk) hnew
  | delta c byItem byIndex fragment =>
    obtain ⟨hc, -, buffer, hopened⟩ := id hok
    refine ⟨arguments, ?_⟩
    rw [Step.deltas, append_nil]
    apply h.keep hd hok hc rfl rfl h.delivery (fun _ _ _ _ => rfl) _ (by simp)
    intro k hk
    refine ⟨by simp, ?_⟩
    intro b hb
    exact (h.arguments k c hk).2 buffer hopened
  | done c doneArguments =>
    obtain ⟨hc, hphase⟩ := id hok
    have hopened : c.shape ≠ .doneOnly → ∃ buffer, phases c.callId = .opened buffer := by
      intro hne
      rcases hphase with ⟨hshape, -⟩ | ⟨buffer, hbuffer, -⟩
      · exact absurd hshape hne
      · exact ⟨buffer, hbuffer⟩
    cases hshape : c.shape with
    | named =>
      obtain ⟨buffer, hbuffer⟩ := hopened (by simp [hshape])
      have hmem : c ∈ claimed := (h.ledger.opened c hc buffer hbuffer).2.2.mp hshape
      have hname : c.toolName ≠ [] := by
        have hfits := c.fits
        rw [hshape] at hfits
        exact hfits
      obtain ⟨hlt, hget⟩ := getElem?_claimedIndex hd h.ledger hmem
      have hnone : arguments (claimedIndex claimed c) = [] :=
        (h.arguments _ c hget).2 buffer hbuffer
      have hdeltas : (Step.done c doneArguments).deltas opts claimed =
          argumentDeltas (some (claimedIndex claimed c)) (c.delivered opts) := by
        rw [Step.deltas, hshape]
      rw [hdeltas]
      refine ⟨_, h.keep hd hok hc rfl (by simp [Step.claims, hshape])
        (h.delivery.deliver hlt (c.delivered opts)) ?_ ?_ fun _ => iff_of_true hmem hname⟩
      · intro k d hk hne
        apply Function.update_of_ne
        intro heq
        rw [heq, hget] at hk
        exact hne (Option.some.inj hk).symm
      · intro k hk
        have heq : k = claimedIndex claimed c := h.ledger.index_unique hk hget
        rw [heq, Function.update_self, hnone, nil_append]
        exact ⟨fun _ => rfl, by simp⟩
    | deferred placeholder =>
      obtain ⟨buffer, hbuffer⟩ := hopened (by simp [hshape])
      have hnew : c ∉ claimed := by
        intro hmem
        have hnamed := (h.ledger.opened c hc buffer hbuffer).2.2.mpr hmem
        rw [hshape] at hnamed
        cases hnamed
      by_cases hname : c.toolName = []
      · refine ⟨arguments, ?_⟩
        have hdeltas : (Step.done c doneArguments).deltas opts claimed = [] := by
          rw [Step.deltas, hshape]
          exact if_pos hname
        rw [hdeltas, append_nil]
        apply h.keep hd hok hc rfl (by simp [Step.claims, hname]) h.delivery (fun _ _ _ _ => rfl)
        · intro k hk
          exact absurd (mem_of_getElem? hk) hnew
        · exact fun _ => iff_of_false hnew (by simp [hname])
      · have hdeltas : (Step.done c doneArguments).deltas opts claimed =
            [c.header claimed.length (c.delivered opts)] := by
          rw [Step.deltas, hshape]
          exact if_neg hname
        rw [hdeltas]
        exact ⟨_, h.claim hd hok hc hnew rfl (by simp [Step.claims, hshape, hname]) (by simp)
          fun _ => hname⟩
    | doneOnly =>
      have hannounceable := hcalls c hc
      rw [Call.Announceable, hshape] at hannounceable
      obtain ⟨hname, hnone⟩ := hannounceable
      have hnew : c ∉ claimed := by
        rcases hphase with ⟨-, hfresh, -⟩ | ⟨buffer, hbuffer, -⟩
        · exact h.ledger.not_mem_of_fresh hfresh
        · exact absurd hshape (h.ledger.opened c hc buffer hbuffer).1
      have hdeltas : (Step.done c doneArguments).deltas opts claimed = [] := by
        rw [Step.deltas, hshape]
        rw [hnone]
        rfl
      refine ⟨arguments, ?_⟩
      rw [hdeltas, append_nil]
      apply h.keep hd hok hc rfl (by simp [Step.claims, hname]) h.delivery (fun _ _ _ _ => rfl)
      · intro k hk
        exact absurd (mem_of_getElem? hk) hnew
      · exact fun _ => iff_of_false hnew (by simp [hname])
    | completedOnly =>
      obtain ⟨buffer, hbuffer⟩ := hopened (by simp [hshape])
      exact absurd hshape (h.ledger.opened c hc buffer hbuffer).2.1

theorem run (hcalls : ∀ c ∈ calls, c.Announceable opts) (steps : List Step)
    (h : Delivered opts calls phases claimed arguments deltas) (hok : BodyOk calls phases steps) :
    ∃ phases' arguments', BodyOk calls phases' [] ∧
      Delivered opts calls phases' (claimedAfter claimed steps) arguments'
        (deltas ++ bodyDeltas opts claimed steps) := by
  induction steps generalizing phases claimed arguments deltas with
  | nil =>
    refine ⟨phases, arguments, hok, ?_⟩
    rw [claimedAfter, bodyDeltas, flatMap_nil, append_nil, append_nil]
    exact h
  | cons step steps ih =>
    obtain ⟨arguments₁, h₁⟩ := h.step hd hcalls hok.1
    obtain ⟨phases', arguments', hend, h'⟩ := ih h₁ hok.2
    refine ⟨phases', arguments', hend, ?_⟩
    have hclaimed : claimedAfter (claimed ++ step.claims) steps =
        claimedAfter claimed (step :: steps) := by
      simp [claimedAfter]
    rw [hclaimed, append_assoc] at h'
    exact h'

end

end Delivered

theorem Delivery.completed (opts : Options) (late : List Call)
    (h : Delivery claimed arguments deltas)
    (hall : ∀ k c, claimed[k]? = some c → arguments k = c.delivered opts) :
    ∃ arguments', Delivery (claimed ++ late) arguments'
        (deltas ++ completedDeltas opts claimed late) ∧
      ∀ k c, (claimed ++ late)[k]? = some c → arguments' k = c.delivered opts := by
  induction late generalizing claimed arguments deltas with
  | nil =>
    refine ⟨arguments, ?_, ?_⟩
    · rw [completedDeltas, append_nil, append_nil]
      exact h
    · rw [append_nil]
      exact hall
  | cons c late ih =>
    have hlt : claimed.length < (claimed ++ [c]).length := by
      rw [length_append, length_singleton]
      omega
    have hnext := (h.header c []).deliver hlt (c.delivered opts)
    obtain ⟨arguments', h', hall'⟩ := ih hnext (by
      intro k d hk
      rcases (getElem?_concat_iff ..).mp hk with hk | ⟨rfl, rfl⟩
      · have hne : k ≠ claimed.length := Nat.ne_of_lt (List.getElem?_eq_some_iff.mp hk).1
        rw [Function.update_of_ne hne, Function.update_of_ne hne]
        exact hall k d hk
      · rw [Function.update_self, Function.update_self, nil_append])
    refine ⟨arguments', ?_, ?_⟩
    · rw [completedDeltas]
      simpa using h'
    · simpa using hall'

end

variable {phases : Phases}

theorem claimed_perm (script : Script) (opts : Options)
    (hcalls : ∀ c ∈ script.calls, c.Announceable opts)
    (hl : Ledger script.calls phases (claimedAfter [] script.steps))
    (hend : BodyOk script.calls phases [])
    (hclosed : ∀ c ∈ script.calls, phases c.callId = .closed →
      (c ∈ claimedAfter [] script.steps ↔ c.toolName ≠ [])) :
    script.claimed.Perm (namedCalls script.calls) := by
  have hnodup : script.calls.Nodup := List.Nodup.of_map _ script.callIds
  have hclaimed : (claimedAfter [] script.steps).Nodup := List.Nodup.of_map _ hl.nodup
  have hlate : script.late.Nodup := ((script.echoed_perm.nodup_iff).mpr hnodup).filter _
  have hmemLate : ∀ c, c ∈ script.late ↔ c ∈ script.calls ∧ c.shape = .completedOnly := by
    intro c
    rw [Script.late, mem_filter, script.echoed_perm.mem_iff, decide_eq_true_eq]
  have hbody : ∀ c ∈ claimedAfter [] script.steps, c ∈ script.calls ∧ c.shape ≠ .completedOnly := by
    intro c hc
    obtain ⟨hmem, hphase⟩ := hl.sub c hc
    refine ⟨hmem, fun hshape => hphase ?_⟩
    rw [hend c hmem, if_pos hshape]
  have hdisjoint : List.Disjoint (claimedAfter [] script.steps) script.late :=
    fun c hc hc' => (hbody c hc).2 ((hmemLate c).mp hc').2
  apply (perm_ext_iff_of_nodup (hclaimed.append hlate hdisjoint) (hnodup.filter _)).mpr
  intro c
  rw [mem_append, hmemLate, mem_filter, decide_eq_true_eq]
  by_cases hmem : c ∈ script.calls
  · by_cases hshape : c.shape = .completedOnly
    · have hname := hcalls c hmem
      rw [Call.Announceable, hshape] at hname
      exact iff_of_true (.inr ⟨hmem, hshape⟩) ⟨hmem, hname⟩
    · have hphase : phases c.callId = .closed := by
        rw [hend c hmem, if_neg hshape]
      rw [hclosed c hmem hphase]
      simp [hmem, hshape]
  · simp only [hmem, false_and, or_false, iff_false]
    exact fun hc => hmem (hbody c hc).1

theorem deliversOnce_of_announceable (opts : Options) (script : Script) {arrivals : List Arrival}
    (flushMs : Nat) (harrivals : arrivals.map Arrival.event = script.events)
    (hcalls : ∀ c ∈ script.calls, c.Announceable opts) :
    DeliversOnce opts script.calls (stream opts arrivals flushMs) := by
  obtain ⟨hdeltas, before, last, hstream, hbefore, hlast⟩ :=
    stream_spec opts script flushMs harrivals
  have hstart : Delivered opts script.calls (fun _ => .fresh) [] (fun _ => []) [] :=
    ⟨⟨by simp, by simp, by simp⟩, ⟨rfl, rfl, by simp [AnnouncedFirst]⟩, by simp, by simp⟩
  obtain ⟨phases, arguments, hend, h⟩ :=
    hstart.run script.distinct hcalls script.steps script.body
  have hargs : ∀ k c, (claimedAfter [] script.steps)[k]? = some c →
      arguments k = c.delivered opts := by
    intro k c hk
    obtain ⟨hmem, hphase⟩ := h.ledger.sub c (mem_of_getElem? hk)
    apply (h.arguments k c hk).1
    have hend' := hend c hmem
    split at hend'
    · exact absurd hend' hphase
    · exact hend'
  obtain ⟨arguments', hdelivery, hall⟩ := h.delivery.completed opts script.late hargs
  have hperm := claimed_perm script opts hcalls h.ledger hend h.closed
  rw [nil_append, ← scriptDeltas, ← hdeltas] at hdelivery
  refine ⟨⟨script.claimed, hperm, ?_, ?_⟩, hdelivery.first, ?_⟩
  · have hassembled : script.claimed.zipIdx.map (assembledCall fun entry => arguments' entry.2) =
        script.claimed.zipIdx.map (assembledCall fun entry => entry.1.delivered opts) := by
      apply map_congr_left
      rintro ⟨c, k⟩ hentry
      have harg := hall k c (mem_zipIdx_iff_getElem?.mp hentry)
      simp [assembledCall, harg]
    rw [← hassembled]
    exact List.Perm.of_eq hdelivery.assembled
  · exact List.Perm.of_eq hdelivery.announced
  · refine ⟨before, last, _, hstream, hbefore, hlast, ?_⟩
    rw [← hperm.length_eq, length_pos_iff]
    split
    · rename_i hnil
      simp [hnil]
    · rename_i hne
      simp [hne]

/-! ## Streams with a call that is not announced -/

theorem exists_index_addDelta {calls : List AssembledCall} {index : Option Nat} (d : ToolCallDelta)
    (h : (∃ call ∈ calls, call.index = index) ∨ d.index = index) :
    ∃ call ∈ addDelta calls d, call.index = index := by
  by_cases hold : ∃ call ∈ calls, call.index = d.index
  · rw [addDelta_old hold]
    have hmem : ∃ call ∈ calls, call.index = index := by
      rcases h with h | h
      · exact h
      · rw [← h]
        exact hold
    obtain ⟨call, hcall, hindex⟩ := hmem
    refine ⟨_, mem_map_of_mem hcall, ?_⟩
    split <;> exact hindex
  · rw [addDelta_new fun call hcall heq => hold ⟨call, hcall, heq⟩]
    rcases h with ⟨call, hcall, hindex⟩ | h
    · exact ⟨call, mem_append_left _ hcall, hindex⟩
    · exact ⟨_, mem_append_right _ (mem_singleton_self _), h⟩

theorem exists_index_assemble {deltas : List ToolCallDelta} (h : d ∈ deltas) :
    ∃ call ∈ assemble deltas, call.index = d.index := by
  induction deltas using List.reverseRecOn with
  | nil => cases h
  | append_singleton deltas last ih =>
    rw [assemble_concat]
    apply exists_index_addDelta
    rcases mem_append.mp h with h | h
    · exact .inl (ih h)
    · rw [mem_singleton.mp h]
      exact .inr rfl

theorem id_of_mem_argumentDeltas {index : Option Nat} {text : JsString}
    (h : d ∈ argumentDeltas index text) : d.id = none := by
  unfold argumentDeltas at h
  split at h
  · cases h
  · rw [mem_singleton.mp h]

variable {claimed : List Call}

theorem id_of_mem_step {opts : Options} {calls : List Call} {step : Step}
    (hok : step.Ok calls phases) (hd : d ∈ step.deltas opts claimed) {id : JsString}
    (hid : d.id = some id) : ∃ c ∈ calls, c.shape ≠ .doneOnly ∧ c.callId = id := by
  have hargs : ∀ index text, d ∉ argumentDeltas index text := by
    intro index text hmem
    rw [id_of_mem_argumentDeltas hmem] at hid
    cases hid
  cases step with
  | noise event => cases hd
  | delta c byItem byIndex fragment => cases hd
  | added c =>
    unfold Step.deltas at hd
    dsimp only at hd
    split at hd
    · rename_i hnamed
      rw [mem_singleton.mp hd] at hid
      exact ⟨c, hok.1, by simp [hnamed], Option.some.inj hid⟩
    · cases hd
  | done c arguments =>
    unfold Step.deltas at hd
    dsimp only at hd
    split at hd
    · exact absurd hd (hargs _ _)
    · rename_i hshape
      split at hd
      · cases hd
      · rw [mem_singleton.mp hd] at hid
        exact ⟨c, hok.1, by simp [hshape], Option.some.inj hid⟩
    · exact absurd hd (hargs _ _)
    · cases hd

theorem id_of_mem_body {opts : Options} {calls : List Call} (steps : List Step)
    (hok : BodyOk calls phases steps) (hd : d ∈ bodyDeltas opts claimed steps) {id : JsString}
    (hid : d.id = some id) : ∃ c ∈ calls, c.shape ≠ .doneOnly ∧ c.callId = id := by
  induction steps generalizing phases claimed with
  | nil => cases hd
  | cons step steps ih =>
    rcases mem_append.mp hd with hd | hd
    · exact id_of_mem_step hok.1 hd hid
    · exact ih hok.2 hd

theorem id_of_mem_completed {opts : Options} (late : List Call)
    (hd : d ∈ completedDeltas opts claimed late) {id : JsString} (hid : d.id = some id) :
    ∃ c ∈ late, c.callId = id := by
  induction late generalizing claimed with
  | nil => cases hd
  | cons c late ih =>
    rw [completedDeltas, mem_append, mem_cons] at hd
    rcases hd with (rfl | hd) | hd
    · exact ⟨c, mem_cons_self, Option.some.inj hid⟩
    · rw [id_of_mem_argumentDeltas hd] at hid
      cases hid
    · obtain ⟨c', hc', heq⟩ := ih hd
      exact ⟨c', mem_cons_of_mem _ hc', heq⟩

theorem id_ne_of_doneOnly (opts : Options) (script : Script) {c : Call} (hc : c ∈ script.calls)
    (hshape : c.shape = .doneOnly) (hd : d ∈ scriptDeltas opts script) : d.id ≠ some c.callId := by
  intro hid
  obtain ⟨c', hc', hne, heq⟩ :
      ∃ c' ∈ script.calls, c'.shape ≠ .doneOnly ∧ c'.callId = c.callId := by
    rcases mem_append.mp hd with hd | hd
    · exact id_of_mem_body script.steps script.body hd hid
    · obtain ⟨c', hc', heq⟩ := id_of_mem_completed script.late hd hid
      obtain ⟨hechoed, hlate⟩ := mem_filter.mp hc'
      have hcompleted : c'.shape = .completedOnly := by simpa using hlate
      exact ⟨c', script.echoed_perm.mem_iff.mp hechoed, by simp [hcompleted], heq⟩
  exact hne (script.distinct.callId c' hc' c hc heq ▸ hshape)

theorem done_mem {calls : List Call} (hd : Distinct calls) (steps : List Step)
    (hok : BodyOk calls phases steps) {c : Call} (hc : c ∈ calls) (hshape : c.shape = .doneOnly)
    (hphase : phases c.callId ≠ .closed) : ∃ arguments, Step.done c arguments ∈ steps := by
  induction steps generalizing phases with
  | nil =>
    have hend := hok c hc
    rw [if_neg (by simp [hshape])] at hend
    exact absurd hend hphase
  | cons step steps ih =>
    by_cases hstep : ∃ arguments, step = .done c arguments
    · obtain ⟨arguments, rfl⟩ := hstep
      exact ⟨arguments, mem_cons_self⟩
    · have hnext : step.next phases c.callId ≠ .closed := by
        cases step with
        | noise event => exact hphase
        | added c' =>
          rw [Step.next, Function.update_apply]
          split
          · simp
          · exact hphase
        | delta c' byItem byIndex fragment =>
          rw [Step.next, Function.update_apply]
          split
          · simp
          · exact hphase
        | done c' arguments =>
          have hne : c ≠ c' := by
            intro heq
            subst heq
            exact hstep ⟨arguments, rfl⟩
          rw [Step.next, hd.update_of_ne phases hok.1.1 hc hne]
          exact hphase
      obtain ⟨arguments, hmem⟩ := ih hok.2 hnext
      exact ⟨arguments, mem_cons_of_mem _ hmem⟩

theorem argumentDeltas_subset_body (opts : Options) {c : Call} (hshape : c.shape = .doneOnly)
    (hname : c.toolName = []) {arguments : Option JsString} (steps : List Step)
    (hmem : Step.done c arguments ∈ steps) :
    argumentDeltas none (c.delivered opts) ⊆ bodyDeltas opts claimed steps := by
  induction steps generalizing claimed with
  | nil => cases hmem
  | cons step steps ih =>
    rw [bodyDeltas]
    rcases mem_cons.mp hmem with rfl | hmem
    · have hdeltas : (Step.done c arguments).deltas opts claimed =
          argumentDeltas none (c.delivered opts) := by
        rw [Step.deltas, hshape]
        simp [hname]
      rw [hdeltas]
      exact subset_append_left _ _
    · exact subset_append_of_subset_right _ (ih hmem)

theorem header_mem_completed (opts : Options) {c : Call} (late : List Call) (hc : c ∈ late) :
    ∃ k, c.header k [] ∈ completedDeltas opts claimed late := by
  induction late generalizing claimed with
  | nil => cases hc
  | cons c' late ih =>
    rcases mem_cons.mp hc with rfl | hc
    · exact ⟨claimed.length, mem_append_left _ mem_cons_self⟩
    · obtain ⟨k, hk⟩ := @ih (claimed ++ [c']) hc
      exact ⟨k, mem_append_right _ hk⟩

theorem announceable_of_deliversOnce (opts : Options) (script : Script) {arrivals : List Arrival}
    (flushMs : Nat) (harrivals : arrivals.map Arrival.event = script.events)
    (h : DeliversOnce opts script.calls (stream opts arrivals flushMs)) :
    ∀ c ∈ script.calls, c.Announceable opts := by
  obtain ⟨hdeltas, -⟩ := stream_spec opts script flushMs harrivals
  obtain ⟨order, hperm, hassembled, hannounced⟩ := h.order
  rw [hdeltas] at hassembled hannounced
  intro c hc
  unfold Call.Announceable
  cases hshape : c.shape with
  | named => trivial
  | deferred placeholder => trivial
  | doneOnly =>
    have hname : c.toolName = [] := by
      by_contra hname
      have hmem : c ∈ order := by
        rw [hperm.mem_iff, namedCalls, mem_filter]
        exact ⟨hc, by simpa using hname⟩
      obtain ⟨k, hk⟩ := mem_iff_getElem?.mp hmem
      have hentry : announcement (c, k) ∈ order.zipIdx.map announcement :=
        mem_map_of_mem (mem_zipIdx_iff_getElem?.mpr hk)
      obtain ⟨d, hd, heq⟩ := mem_map.mp (hannounced.mem_iff.mpr hentry)
      simp only [announcement, Prod.mk.injEq] at heq
      exact id_ne_of_doneOnly opts script hc hshape (mem_of_mem_filter hd) heq.2.1
    refine ⟨hname, ?_⟩
    by_contra hne
    obtain ⟨arguments, hdone⟩ :=
      done_mem script.distinct script.steps script.body hc hshape (by simp)
    have hd : { index := none, arguments := some (c.delivered opts) } ∈ scriptDeltas opts script := by
      apply mem_append_left
      apply argumentDeltas_subset_body opts hshape hname script.steps hdone
      unfold argumentDeltas
      rw [if_neg (by simpa using hne)]
      exact mem_singleton_self _
    obtain ⟨call, hcall, hindex⟩ := exists_index_assemble hd
    obtain ⟨entry, -, rfl⟩ := mem_map.mp (hassembled.mem_iff.mp hcall)
    cases hindex
  | completedOnly =>
    intro hname
    have hlate : c ∈ script.late := by
      rw [Script.late, mem_filter, script.echoed_perm.mem_iff]
      exact ⟨hc, by simpa using hshape⟩
    obtain ⟨k, hk⟩ := header_mem_completed opts script.late hlate
    have hd : c.header k [] ∈ scriptDeltas opts script := mem_append_right _ hk
    have hentry : (some k, some c.callId, some c.toolName) ∈
        announcements (scriptDeltas opts script) :=
      mem_map.mpr ⟨_, mem_filter.mpr ⟨hd, rfl⟩, rfl⟩
    obtain ⟨⟨c', k'⟩, hentry', heq⟩ := mem_map.mp (hannounced.mem_iff.mp hentry)
    simp only [announcement, Prod.mk.injEq, Option.some.injEq] at heq
    have hmem : c' ∈ namedCalls script.calls :=
      hperm.mem_iff.mp (fst_mem_of_mem_zipIdx hentry')
    have hname' : c'.toolName ≠ [] := by simpa using (mem_filter.mp hmem).2
    exact hname' (heq.2.2.trans hname)

/-- The streams that deliver every call once: no call comes in a done event only,
unless it has neither a name nor arguments, and no call without a name comes in
the completed response only. -/
theorem deliversOnce_iff (opts : Options) (script : Script) (arrivals : List Arrival)
    (flushMs : Nat) (harrivals : arrivals.map Arrival.event = script.events) :
    DeliversOnce opts script.calls (stream opts arrivals flushMs) ↔
      ∀ c ∈ script.calls, c.Announceable opts :=
  ⟨announceable_of_deliversOnce opts script flushMs harrivals,
    deliversOnce_of_announceable opts script flushMs harrivals⟩

/-! ## Two streams -/

/-- A call that comes in a done event only. -/
def lateCall : Call where
  callId := js "c1"
  itemId := js "i1"
  outputIndex := 0
  name := js "ls"
  arguments := js "[]"
  shape := .doneOnly
  callId_ne := by decide
  itemId_ne := by decide
  fits := trivial

/-- `JSON.parse` and `JSON.stringify` for arguments that are not cleaned. -/
def plainCodec : JsonCodec where
  parse := fun _ => none
  stringify := fun _ => []
  parse_nil := JsonCodec.parse_nil_of_none

def plainOptions : Options where
  codec := plainCodec

def doneOnlyScript : Script where
  calls := [lateCall]
  steps := [.done lateCall (some (js "[]"))]
  output := [.functionCall (lateCall.item (some (js "[]")))]
  usage := none
  echoed := [lateCall]
  callIds := by simp
  itemIds := by simp
  outputIndices := by simp
  body := by
    refine ⟨⟨mem_singleton_self _, .inl ⟨rfl, rfl, rfl⟩⟩, ?_⟩
    intro c hc
    rw [mem_singleton.mp hc]
    rfl
  echo := rfl
  echoed_perm := .refl _

/-- The done event of a call that was not added gives its arguments without its
name and its id. -/
theorem not_deliversOnce_doneOnly : ¬ DeliversOnce plainOptions doneOnlyScript.calls
      (stream plainOptions (doneOnlyScript.events.map fun event => ⟨1000, none, event⟩) 1001) := by
  intro h
  have hdeltas : toolDeltas
      (stream plainOptions (doneOnlyScript.events.map fun event => ⟨1000, none, event⟩) 1001) =
      [{ index := some 0, arguments := some (js "[]") }] := rfl
  obtain ⟨order, hperm, -, hannounced⟩ := h.order
  have hnamed : namedCalls doneOnlyScript.calls = [lateCall] := rfl
  have hlength := hannounced.length_eq
  rw [length_map, length_zipIdx, hperm.length_eq, hnamed] at hlength
  cases hlength

/-- A call with its name in the added event. -/
def readCall : Call where
  callId := js "c1"
  itemId := js "i1"
  outputIndex := 0
  name := js "ls"
  arguments := js "[1]"
  shape := .named
  callId_ne := by decide
  itemId_ne := by decide
  fits := by
    show normalizeToolName (js "ls") ≠ []
    decide

/-- A call whose name comes with its done event. -/
def blankCall : Call where
  callId := js "c2"
  itemId := js "i2"
  outputIndex := 1
  name := js "cat"
  arguments := js "[2]"
  shape := .deferred []
  callId_ne := by decide
  itemId_ne := by decide
  fits := rfl

def batchedCall : Call where
  callId := js "c3"
  itemId := js "i3"
  outputIndex := 2
  name := js "pwd"
  arguments := js "[]"
  shape := .completedOnly
  callId_ne := by decide
  itemId_ne := by decide
  fits := trivial

def mixedScript : Script where
  calls := [readCall, blankCall, batchedCall]
  steps :=
    [.added readCall, .added blankCall, .delta blankCall true false (js "[2"),
      .delta readCall false true (js "[1]"), .noise (.outputTextDelta (js "hi")),
      .delta blankCall true true (js "]"), .done blankCall none, .done readCall (some (js "[1]"))]
  output :=
    [.other, .functionCall (readCall.item (some (js "[1]"))),
      .functionCall (blankCall.item (some (js "[2]"))),
      .functionCall (batchedCall.item (some (js "[]")))]
  usage := none
  echoed := [readCall, blankCall, batchedCall]
  callIds := by decide
  itemIds := by decide
  outputIndices := by decide
  body := by
    refine ⟨⟨by simp, by simp [readCall], by simp [readCall], rfl⟩,
      ⟨by simp, by simp [blankCall], by simp [blankCall], rfl⟩,
      ⟨by simp, .inl rfl, [], rfl⟩, ⟨by simp, .inr rfl, [], rfl⟩, trivial,
      ⟨by simp, .inl rfl, js "[2", rfl⟩,
      ⟨by simp, .inr ⟨js "[2]", rfl, .inr rfl, .inr ⟨rfl, rfl⟩⟩⟩,
      ⟨by simp, .inr ⟨js "[1]", rfl, .inr rfl, .inl rfl⟩⟩, ?_⟩
    intro c hc
    have hcases : c = readCall ∨ c = blankCall ∨ c = batchedCall := by
      simpa using hc
    rcases hcases with rfl | rfl | rfl
    · rfl
    · rfl
    · rfl
  echo := rfl
  echoed_perm := .refl _

theorem deliversOnce_mixed : DeliversOnce plainOptions mixedScript.calls
      (stream plainOptions (mixedScript.events.map fun event => ⟨1000, none, event⟩) 1001) := by
  have harrivals : (mixedScript.events.map fun event => (⟨1000, none, event⟩ : Arrival)).map
      Arrival.event = mixedScript.events := by
    rw [map_map]
    exact map_id _
  apply (deliversOnce_iff plainOptions mixedScript _ 1001 harrivals).mpr
  intro c hc
  have hcases : c = readCall ∨ c = blankCall ∨ c = batchedCall := by
    simpa [mixedScript] using hc
  rcases hcases with rfl | rfl | rfl
  · trivial
  · trivial
  · show batchedCall.toolName ≠ []
    decide

end RedRouter.Response.ResponsesToOpenai
