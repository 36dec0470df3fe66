import RedRouter.Lib.JsMap
import RedRouter.Lib.JsString

/-!
# Workflow runs

The model of `open-sse/services/workflowFSM.ts` without `pause` and `resume`.
A run is a row of calls of `advance`, and each changes the phase at most once.

Every change but a retry leads on in the order of the phases, and the retries
are counted, so `fuel` goes down with each change.  The verdict of an earlier
phase stays in `lastVerdict`, and a review that is left without a verdict of
its own is decided by it (`Stale`).
-/

namespace RedRouter.Services.Workflow

inductive Phase
  | classify
  | plan
  | planReview
  | execute
  | codeReview
  | qualityReview
  | security
  | test
  | outputReview
  | done
  | failed
  | paused
deriving DecidableEq

inductive RiskLevel
  | low
  | medium
  | high
deriving DecidableEq

inductive Verdict
  | approve
  | approveWithNotes
  | requestChanges
  | reject
  | block
deriving DecidableEq

structure PhaseRecord where
  phase : Phase
  enteredAt : JsString
  exitedAt : Option JsString := none
  verdict : Option Verdict := none
  provider : Option JsString := none
  model : Option JsString := none
  retryCount : Nat := 0
  notes : Option JsString := none

structure WorkflowContext where
  id : JsString
  currentPhase : Phase
  risk : RiskLevel
  lastVerdict : Option Verdict
  retries : JsMap Phase Nat
  maxRetries : Nat
  testsPass : Bool
  history : List PhaseRecord
  createdAt : JsString

namespace WorkflowContext

/-- `c.retries[phase] ?? 0`. -/
def retriesOf (c : WorkflowContext) (phase : Phase) : Nat := (c.retries.get phase).getD 0

def approved (c : WorkflowContext) : Bool :=
  c.lastVerdict = some .approve || c.lastVerdict = some .approveWithNotes

def rejected (c : WorkflowContext) : Bool :=
  c.lastVerdict = some .reject || c.lastVerdict = some .requestChanges

end WorkflowContext

structure Transition where
  source : Phase
  target : Phase
  condition : WorkflowContext → Bool
  description : String

def highKeywords : List String :=
  ["schema", "migration", "deploy", "delete", "drop", "env", "database", "refactor", "security",
    "auth", "production", "secrets", "credentials", "permission"]

def medKeywords : List String :=
  ["endpoint", "feature", "service", "model", "api", "integration", "webhook", "middleware",
    "route"]

/-- `toLowerCase` follows the Unicode tables and is an argument. -/
def classifyRisk (toLowerCase : JsString → JsString) (desc : JsString) : RiskLevel :=
  if highKeywords.any fun k => (toLowerCase desc).includes (js k) then .high
  else if medKeywords.any fun k => (toLowerCase desc).includes (js k) then .medium
  else .low

def phaseOrder : List Phase :=
  [.classify, .plan, .planReview, .execute, .codeReview, .qualityReview, .security, .test,
    .outputReview]

/-- The table `T` of the source. -/
def transitions : List Transition := [
  ⟨.classify, .plan, fun c => c.risk = .high, "High risk -> full planning"⟩,
  ⟨.classify, .execute, fun c => c.risk = .medium, "Medium risk -> skip planner"⟩,
  ⟨.classify, .execute, fun c => c.risk = .low, "Low risk -> direct execute"⟩,
  ⟨.plan, .planReview, fun _ => true, "Plan -> review"⟩,
  ⟨.planReview, .execute, fun c => c.approved, "Plan approved -> execute"⟩,
  ⟨.planReview, .plan, fun c => c.rejected && c.retriesOf .plan < c.maxRetries,
    "Plan rejected -> retry"⟩,
  ⟨.planReview, .failed, fun c => c.rejected && c.maxRetries ≤ c.retriesOf .plan,
    "Plan rejected max retries"⟩,
  ⟨.execute, .codeReview, fun c => c.risk ≠ .low, "Non-low -> code review"⟩,
  ⟨.execute, .test, fun c => c.risk = .low, "Low -> skip reviews"⟩,
  ⟨.codeReview, .qualityReview, fun c => c.approved, "Code approved -> quality"⟩,
  ⟨.codeReview, .execute, fun c => c.rejected && c.retriesOf .execute < c.maxRetries,
    "Code rejected -> re-execute"⟩,
  ⟨.codeReview, .failed, fun c => c.rejected && c.maxRetries ≤ c.retriesOf .execute,
    "Code rejected max retries"⟩,
  ⟨.qualityReview, .security, fun c => c.risk = .high, "High -> security audit"⟩,
  ⟨.qualityReview, .test, fun c => c.risk ≠ .high, "Non-high -> skip security"⟩,
  ⟨.security, .failed, fun c => c.lastVerdict = some .block, "Security BLOCK -> failed"⟩,
  ⟨.security, .test, fun c => c.lastVerdict ≠ some .block, "Security passed -> test"⟩,
  ⟨.test, .outputReview, fun c => c.testsPass, "Tests pass -> output review"⟩,
  ⟨.test, .execute, fun c => !c.testsPass && c.retriesOf .execute < c.maxRetries,
    "Tests fail -> re-execute"⟩,
  ⟨.test, .failed, fun c => !c.testsPass && c.maxRetries ≤ c.retriesOf .execute,
    "Tests fail max retries"⟩,
  ⟨.outputReview, .done, fun _ => true, "Output reviewed -> done"⟩]

/-- `opts` without `maxRetries` stands for 3 retries. -/
def createWorkflow (toLowerCase : JsString → JsString) (id description : JsString)
    (maxRetries : Nat) (now : JsString) : WorkflowContext where
  id := id
  currentPhase := .classify
  risk := classifyRisk toLowerCase description
  lastVerdict := none
  retries := []
  maxRetries := maxRetries
  testsPass := false
  history := [{
    phase := .classify
    enteredAt := now
    notes := some (js "Risk: " ++ match classifyRisk toLowerCase description with
      | .low => js "low"
      | .medium => js "medium"
      | .high => js "high") }]
  createdAt := now

/-- The result of a phase.  No result at all is like one without members. -/
structure PhaseResult where
  verdict : Option Verdict := none
  testsPass : Option Bool := none
  provider : Option JsString := none
  model : Option JsString := none
  notes : Option JsString := none

namespace WorkflowContext

/-- What `advance` does before it looks for a transition. -/
def noteResult (c : WorkflowContext) (result : PhaseResult) (now : JsString) : WorkflowContext :=
  { c with
    lastVerdict := result.verdict <|> c.lastVerdict
    testsPass := result.testsPass.getD c.testsPass
    history := c.history.modify (c.history.length - 1) fun cur =>
      { cur with
        exitedAt := some now
        verdict := result.verdict
        provider := result.provider
        model := result.model
        notes := result.notes } }

/-- The phase after a transition is not behind the one before it. -/
def isRetry (t : Transition) : Bool :=
  match phaseOrder.idxOf? t.source, phaseOrder.idxOf? t.target with
  | some fi, some ti => ti ≤ fi
  | _, _ => false

def follow (c : WorkflowContext) (t : Transition) (now : JsString) : WorkflowContext :=
  let retries :=
    if isRetry t then c.retries.set t.target (c.retriesOf t.target + 1) else c.retries
  { c with
    retries := retries
    currentPhase := t.target
    history := c.history ++ [{
      phase := t.target
      enteredAt := now
      retryCount := (retries.get t.target).getD 0
      notes := some (js t.description) }] }

/-- The transition that `advance` takes. -/
def chosen (c : WorkflowContext) : Option Transition :=
  transitions.find? fun t => t.source = c.currentPhase && t.condition c

def advance (c : WorkflowContext) (result : PhaseResult) (now : JsString) :
    Option Phase × WorkflowContext :=
  let c := c.noteResult result now
  match c.chosen with
  | some t => (some t.target, c.follow t now)
  | none => (none, c)

/-- One call of `advance`, and the time of it. -/
structure Call where
  result : PhaseResult := {}
  now : JsString := []

def step (c : WorkflowContext) (call : Call) : WorkflowContext :=
  (c.advance call.result call.now).2

def run (c : WorkflowContext) (calls : List Call) : WorkflowContext := calls.foldl step c

/-- How often the phase changes. -/
def changes (c : WorkflowContext) : List Call → Nat
  | [] => 0
  | call :: calls =>
      (if (c.advance call.result call.now).1.isSome then 1 else 0) + (c.step call).changes calls

/-! ## The bound -/

def rank : Phase → Nat
  | .classify => 0
  | .plan => 1
  | .planReview => 2
  | .execute => 3
  | .codeReview => 4
  | .qualityReview => 5
  | .security => 6
  | .test => 7
  | .outputReview => 8
  | _ => 9

/-- What is left for changes: the phases ahead, and every retry may take back four. -/
def fuel (c : WorkflowContext) : Nat :=
  (9 - rank c.currentPhase) + 10 * (c.maxRetries - c.retriesOf .plan) +
    10 * (c.maxRetries - c.retriesOf .execute)

theorem rank_of_mem : ∀ t ∈ transitions, rank t.source < 9 ∧
    if isRetry t then rank t.source ≤ rank t.target + 4 else rank t.source < rank t.target := by
  simp [transitions, isRetry, phaseOrder, List.idxOf?, List.findIdx?, List.findIdx?.go, rank]

variable (c : WorkflowContext)

theorem retry_of_mem : ∀ t ∈ transitions, isRetry t = true →
    t.condition c = true → (t.target = .plan ∨ t.target = .execute) ∧
      c.retriesOf t.target < c.maxRetries := by
  simp [transitions, isRetry, phaseOrder, List.idxOf?, List.findIdx?, List.findIdx?.go]

theorem fuel_follow {c : WorkflowContext} {t : Transition} (now : JsString)
    (ht : t ∈ transitions) (hsource : t.source = c.currentPhase) (hcond : t.condition c = true) :
    (c.follow t now).fuel < c.fuel := by
  obtain ⟨hlast, hrank⟩ := rank_of_mem t ht
  rw [hsource] at hlast hrank
  have hretries : ∀ phase, (c.follow t now).retriesOf phase =
      c.retriesOf phase + if isRetry t ∧ t.target = phase then 1 else 0 := by
    intro phase
    unfold follow retriesOf
    split
    · rename_i hretry
      rw [JsMap.get_set]
      by_cases hphase : t.target = phase
      · subst hphase
        simp [hretry]
      · simp [hphase]
    · rename_i hforward
      simp [hforward]
  show 9 - rank t.target + 10 * (c.maxRetries - _) + 10 * (c.maxRetries - _) <
    9 - rank c.currentPhase + _ + _
  rw [hretries, hretries]
  by_cases hretry : isRetry t = true
  · obtain ⟨htarget, hroom⟩ := retry_of_mem c t ht hretry hcond
    rcases htarget with htarget | htarget
    all_goals
      rw [htarget] at hroom
      simp only [hretry, htarget, true_and, if_true]
      omega
  · rw [if_neg hretry] at hrank
    simp only [hretry]
    omega

/-- A call leaves the phase alone, or follows a transition of the table. -/
theorem advance_cases (result : PhaseResult) (now : JsString) :
    (c.noteResult result now).chosen = none ∧
        c.advance result now = (none, c.noteResult result now) ∨
      ∃ t ∈ transitions, (c.noteResult result now).chosen = some t ∧ t.source = c.currentPhase ∧
        t.condition (c.noteResult result now) = true ∧
        c.advance result now = (some t.target, (c.noteResult result now).follow t now) := by
  unfold advance
  dsimp only
  cases hchosen : (c.noteResult result now).chosen with
  | none => exact .inl ⟨rfl, rfl⟩
  | some t =>
    have htest := List.find?_some hchosen
    rw [Bool.and_eq_true, decide_eq_true_eq] at htest
    exact .inr ⟨t, List.mem_of_find?_eq_some hchosen, rfl, htest.1, htest.2, rfl⟩

theorem fuel_step (call : Call) :
    (if (c.advance call.result call.now).1.isSome then 1 else 0) + (c.step call).fuel ≤ c.fuel := by
  have hnoted : (c.noteResult call.result call.now).fuel = c.fuel := rfl
  unfold step
  rcases advance_cases c call.result call.now with
    ⟨-, hadvance⟩ | ⟨t, ht, -, hsource, hcond, hadvance⟩
  · rw [hadvance, ← hnoted]
    exact (Nat.zero_add _).le
  · have hless := @fuel_follow (c.noteResult call.result call.now) t call.now ht hsource hcond
    rw [hadvance]
    simp only [Option.isSome_some, if_true]
    omega

theorem changes_le_fuel (calls : List Call) : c.changes calls ≤ c.fuel := by
  induction calls generalizing c with
  | nil => exact Nat.zero_le _
  | cons call calls ih =>
    have hrest := ih (c.step call)
    have hstep := fuel_step c call
    rw [changes]
    omega

/-! ## The gates -/

def Verdict.approves (v : Option Verdict) : Prop := v = some .approve ∨ v = some .approveWithNotes

/-- The transitions that let the work of a review pass. -/
def Passes (review next : Phase) : Prop :=
  review = .planReview ∧ next = .execute ∨ review = .codeReview ∧ next = .qualityReview

/-- A review lets the work pass only with an approving verdict of its own. -/
def Gated (c : WorkflowContext) (call : Call) : Prop :=
  ∀ next, Passes c.currentPhase next → (c.advance call.result call.now).1 = some next →
    Verdict.approves call.result.verdict

/-- A review gets no verdict, and the last one of an earlier phase is approving. -/
def Stale (c : WorkflowContext) (call : Call) : Prop :=
  (c.currentPhase = .planReview ∨ c.currentPhase = .codeReview) ∧
    call.result.verdict = none ∧ c.approved = true

theorem approved_noteResult (result : PhaseResult) (now : JsString) :
    (c.noteResult result now).approved = true ↔
      Verdict.approves result.verdict ∨ result.verdict = none ∧ c.approved = true := by
  unfold noteResult approved Verdict.approves
  cases result.verdict with
  | none => simp
  | some v => simp

theorem approved_of_mem : ∀ t ∈ transitions, Passes t.source t.target →
    t.condition c = true → c.approved = true := by
  simp [transitions, Passes]

theorem chosen_of_approved {c : WorkflowContext} {next : Phase} (h : Passes c.currentPhase next)
    (happroved : c.approved = true) : c.chosen.map Transition.target = some next := by
  unfold chosen
  rcases h with ⟨hphase, rfl⟩ | ⟨hphase, rfl⟩
  all_goals simp [hphase, transitions, happroved]

theorem advance_passes_iff {c : WorkflowContext} {next : Phase} (h : Passes c.currentPhase next)
    (result : PhaseResult) (now : JsString) :
    (c.advance result now).1 = some next ↔ (c.noteResult result now).approved = true := by
  constructor
  · intro hnext
    rcases advance_cases c result now with ⟨-, hadvance⟩ | ⟨t, ht, -, hsource, hcond, hadvance⟩
    · rw [hadvance] at hnext
      cases hnext
    · rw [hadvance] at hnext
      refine approved_of_mem _ t ht ?_ hcond
      rw [hsource, Option.some.inj hnext]
      exact h
  · intro happroved
    have hchosen := chosen_of_approved (c := c.noteResult result now) h happroved
    rcases advance_cases c result now with ⟨hnone, -⟩ | ⟨t, -, hsome, -, -, hadvance⟩
    · rw [hnone] at hchosen
      cases hchosen
    · rw [hsome] at hchosen
      rw [hadvance]
      exact hchosen

theorem gated_iff (call : Call) : Gated c call ↔ ¬ Stale c call := by
  constructor
  · rintro hgated ⟨hreview, hnone, happroved⟩
    have hpass : ∃ next, Passes c.currentPhase next := by
      rcases hreview with hplan | hcode
      · exact ⟨.execute, .inl ⟨hplan, rfl⟩⟩
      · exact ⟨.qualityReview, .inr ⟨hcode, rfl⟩⟩
    obtain ⟨next, hnext⟩ := hpass
    have hverdict := hgated next hnext ((advance_passes_iff hnext call.result call.now).mpr
      ((approved_noteResult c call.result call.now).mpr (.inr ⟨hnone, happroved⟩)))
    unfold Verdict.approves at hverdict
    simp [hnone] at hverdict
  · intro hfresh next hnext hpassed
    have hreview : c.currentPhase = .planReview ∨ c.currentPhase = .codeReview :=
      hnext.imp And.left And.left
    have happroved := (advance_passes_iff hnext call.result call.now).mp hpassed
    rcases (approved_noteResult c call.result call.now).mp happroved with hverdict | hstale
    · exact hverdict
    · exact absurd ⟨hreview, hstale⟩ hfresh

/-- Every run changes its phase a bounded number of times, and its reviews let the work pass
only with an approving verdict of their own, as long as no review is left without a verdict
when the last one of an earlier phase is approving. -/
theorem boundedAndGated_iff (toLowerCase : JsString → JsString) (id description now : JsString)
    (maxRetries : Nat) (calls : List Call) :
    (createWorkflow toLowerCase id description maxRetries now).changes calls ≤ 9 + 20 * maxRetries ∧
      ((∀ before call, before ++ [call] <+: calls →
        Gated ((createWorkflow toLowerCase id description maxRetries now).run before) call) ↔
      ∀ before call, before ++ [call] <+: calls →
        ¬ Stale ((createWorkflow toLowerCase id description maxRetries now).run before) call) := by
  constructor
  · have hfuel : (createWorkflow toLowerCase id description maxRetries now).fuel =
        9 + 10 * maxRetries + 10 * maxRetries := rfl
    have hle := changes_le_fuel (createWorkflow toLowerCase id description maxRetries now) calls
    omega
  · simp only [gated_iff]

/-- The plan is approved with the verdict that the planner gave. -/
theorem not_gated_planned : ¬ Gated ((createWorkflow (fun s => s) [] (js "schema") 3 []).run
      [{}, { result := { verdict := some .approve } }]) {} := by
  rw [gated_iff, not_not]
  refine ⟨.inl ?_, rfl, ?_⟩
  all_goals decide

end WorkflowContext

end RedRouter.Services.Workflow
