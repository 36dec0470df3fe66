import RedRouter.Lib.JsMap
import RedRouter.Combo.ComboSteps

/-!
# The structure of a combo

The model of `services/combo/comboStructure.ts`, as far as it walks the
references between combos.  `validateComboDAG` refuses a combo whose references
form a cycle or go too deep; `resolveNestedComboTargets` puts the targets of a
combo in place of each reference to it.  The two read an entry by different
functions, and each cuts its own way what goes too deep or comes again.

A recursion is given fuel, and `none` is a walk that does not come to its end.
The provider of a model and the weight of a step are functions on which nothing
is assumed.
-/

namespace RedRouter.Combo.Structure

open JsString

/-- A combo as it was stored. -/
structure ComboInput where
  name : Option Json
  models : Option Json
  config : Option Json

structure ComboLike where
  name : JsString
  models : List Json
  config : Option Json

/-- `isRecord(value) ? value : null`. -/
def recordOrNull : Option Json → Option Json
  | some (.obj members) => some (.obj members)
  | _ => none

def toComboLike (combo : ComboInput) : ComboLike where
  name := (toTrimmedString combo.name).getD []
  models :=
    match combo.models with
    | some (.arr models) => models
    | _ => []
  config := recordOrNull combo.config

/-- A read combo, passed on as one that was stored. -/
def ComboLike.toInput (combo : ComboLike) : ComboInput where
  name := some (.str combo.name)
  models := some (.arr combo.models)
  config := combo.config

def getCombosArray (allCombos : List ComboInput) : List ComboLike :=
  allCombos.map toComboLike

def collectComboNames (allCombos : List ComboInput) : List JsString :=
  allCombos.filterMap fun combo => toTrimmedString combo.name

/-- `combos.find((combo) => combo.name === name)`. -/
def findCombo (combos : List ComboLike) (name : JsString) : Option ComboLike :=
  combos.find? fun combo => combo.name == name

/-! ## Runtime steps -/

structure ComboRefRuntimeStep where
  stepId : JsString
  executionKey : JsString
  comboName : JsString
  weight : UInt64
  label : Option JsString
  fallbackOnlyOnQuotaExhaustion : Bool
deriving DecidableEq

structure ResolvedComboTarget where
  stepId : JsString
  executionKey : JsString
  modelStr : JsString
  provider : JsString
  providerId : Option JsString
  connectionId : Option JsString
  /-- empty when there are none -/
  allowedConnectionIds : List JsString
  weight : UInt64
  label : Option JsString
  prompt : Option JsString
  fallbackOnlyOnQuotaExhaustion : Bool
deriving DecidableEq

inductive ComboRuntimeStep where
  | comboRef (step : ComboRefRuntimeStep)
  | model (target : ResolvedComboTarget)
deriving DecidableEq

def ComboRuntimeStep.stepId : ComboRuntimeStep → JsString
  | .comboRef step => step.stepId
  | .model target => target.stepId

def buildExecutionKey (path : List JsString) (stepId : JsString) : JsString :=
  join (js ">") (path ++ [stepId])

def resolveComboTargetModelStr (modelStr : JsString) : JsString :=
  match indexOf (js "/") modelStr with
  | some (slashIndex + 1) =>
      if modelStr.take (slashIndex + 1) == js "opencode" then
        js "oc" ++ modelStr.drop (slashIndex + 1)
      else modelStr
  | _ => modelStr

def implicitPinAllowlist (connectionId : Option JsString)
    (allowedConnectionIds : Option (List JsString)) : List JsString :=
  match allowedConnectionIds with
  | some (id :: ids) => id :: ids
  | _ => ((connectionId.bind trimmedText).map fun pin => [pin]).getD []

/-- `getComboModelString` of a step that was read.  A wildcard step has no
model. -/
def stepModelString (step : ComboModelStep) : Option JsString :=
  (trimmedText step.model).map fun rawModel =>
    toFullModelString rawModel ((step.providerId.bind trimmedText).or (parseProviderId rawModel))

/-- `weight || 0`. -/
def weightOrZero (weight : UInt64) : UInt64 := if Json.numTruthy weight then weight else 0

section Reading

variable (toWeight : Option Json → UInt64)
variable (getTargetProvider : JsString → Option JsString → JsString)

def normalizeRuntimeStep (entry : Json) (comboName : JsString) (index : Nat)
    (comboNames : List JsString) (path : List JsString) : Option ComboRuntimeStep :=
  match normalizeComboStep toWeight entry
      { comboName := some comboName, index := index, comboNames := comboNames } with
  | some (.comboRef step) =>
      some (.comboRef
        { stepId := step.id
          executionKey := buildExecutionKey path step.id
          comboName := step.comboName
          weight := weightOrZero step.weight
          label := step.label
          fallbackOnlyOnQuotaExhaustion := step.fallbackOnlyOnQuotaExhaustion })
  | some (.model step) =>
      (stepModelString step).map fun declaredModelStr =>
        let modelStr := resolveComboTargetModelStr declaredModelStr
        let connectionId := step.connectionId.bind trimmedText
        .model
          { stepId := step.id
            executionKey := buildExecutionKey path step.id
            modelStr := modelStr
            provider := getTargetProvider modelStr step.providerId
            providerId := step.providerId
            connectionId := connectionId
            allowedConnectionIds := implicitPinAllowlist connectionId step.allowedConnectionIds
            weight := weightOrZero step.weight
            label := step.label
            prompt := step.prompt
            fallbackOnlyOnQuotaExhaustion := step.fallbackOnlyOnQuotaExhaustion }
  | _ => none

variable (combo : ComboLike)

def getTopLevelRuntimeSteps (allCombos : List ComboInput)
    (path : List JsString) : List ComboRuntimeStep :=
  combo.models.zipIdx.filterMap fun (entry, index) =>
    normalizeRuntimeStep toWeight getTargetProvider entry combo.name index
      (collectComboNames allCombos) path

/-! ## Composite tiers -/

structure CompositeTierEntry where
  stepId : JsString
  fallbackTier : Option JsString

/-- The tiers that have a name and a step. -/
def tierEntries (tiers : List (JsString × Json)) : JsMap JsString CompositeTierEntry :=
  tiers.foldl (fun entries (tierName, rawTier) =>
      match rawTier with
      | .obj members =>
          let rawTier := Json.obj members
          match trimmedText tierName, toTrimmedString (rawTier.get? (js "stepId")) with
          | some name, some stepId =>
              entries.set name
                { stepId := stepId
                  fallbackTier := toTrimmedString (rawTier.get? (js "fallbackTier")) }
          | _, _ => entries
      | _ => entries)
    []

/-- `orderedStepIds.push(stepId)`, unless it was seen. -/
def pushUnseen (stepIds : List JsString) (stepId : JsString) : List JsString :=
  if stepIds.contains stepId then stepIds else stepIds ++ [stepId]

/-- The walk along the fallback tiers.  Each round visits a tier that was not
visited before, so that there are no more rounds than tiers. -/
def walkTiers (entries : JsMap JsString CompositeTierEntry) :
    Nat → Option JsString → List JsString → List JsString → List JsString
  | rounds + 1, some currentTier, visitedTiers, orderedStepIds =>
      match entries.get currentTier with
      | some entry =>
          if visitedTiers.contains currentTier then orderedStepIds
          else
            walkTiers entries rounds entry.fallbackTier (currentTier :: visitedTiers)
              (pushUnseen orderedStepIds entry.stepId)
      | none => orderedStepIds
  | _, _, _, orderedStepIds => orderedStepIds

def getCompositeTierStepOrder : List JsString :=
  match combo.config.bind fun config => config.get? (js "compositeTiers") with
  | some (.obj members) =>
      let compositeTiers := Json.obj members
      match toTrimmedString (compositeTiers.get? (js "defaultTier")),
          compositeTiers.get? (js "tiers") with
      | some defaultTier, some (.obj tiers) =>
          let entries := tierEntries tiers
          let orderedStepIds := walkTiers entries entries.length (some defaultTier) [] []
          entries.values.foldl (fun stepIds entry => pushUnseen stepIds entry.stepId) orderedStepIds
      | _, _ => []
  | _ => []

def hasCompositeTierRuntimeOrder : Bool :=
  0 < (getCompositeTierStepOrder combo).length

/-- `if (seen.has(step.stepId)) continue`, else the step is put after the
others. -/
def pushUnseenStep (ordered : List ComboRuntimeStep) (step : ComboRuntimeStep) :
    List ComboRuntimeStep :=
  if ordered.any fun other => other.stepId == step.stepId then ordered else ordered ++ [step]

def orderRuntimeStepsByCompositeTiers (steps : List ComboRuntimeStep) (combo : ComboLike) :
    List ComboRuntimeStep :=
  let orderedStepIds := getCompositeTierStepOrder combo
  if orderedStepIds.length = 0 then steps
  else
    -- of two steps with one id the map has the last
    let byStepId := orderedStepIds.filterMap fun stepId =>
      steps.reverse.find? fun step => step.stepId == stepId
    steps.foldl pushUnseenStep (byStepId.foldl pushUnseenStep [])

def getOrderedTopLevelRuntimeSteps (combo : ComboLike) (allCombos : List ComboInput)
    (path : List JsString) : List ComboRuntimeStep :=
  orderRuntimeStepsByCompositeTiers
    (getTopLevelRuntimeSteps toWeight getTargetProvider combo allCombos path) combo

/-! ## Expansion -/

def maxComboDepth : Nat := 3

/-- The names of the combos that a walk has come through. -/
abbrev Visited := List JsString

/-- `expandRuntimeStep`, with the expansion of a nested combo as an argument. -/
def expandRuntimeStep (resolve : ComboLike → List ComboInput → Visited → Nat → List JsString →
      Option (List ResolvedComboTarget))
    (maxDepth : Nat) (step : ComboRuntimeStep) (allCombos : List ComboInput) (visited : Visited)
    (depth : Nat) (path : List JsString) : Option (List ResolvedComboTarget) :=
  match step with
  | .model target => some [target]
  | .comboRef step =>
      if maxDepth < depth then some []
      else
        let combos := getCombosArray allCombos
        match findCombo combos step.comboName with
        | none => some []
        | some nestedCombo =>
            if visited.contains step.comboName then some []
            else
              resolve nestedCombo (combos.map ComboLike.toInput) visited (depth + 1)
                (path ++ [step.stepId])

/-- The models among the entries, without the names of the combos. -/
def directTargets (path : List JsString) : List ResolvedComboTarget :=
  combo.models.zipIdx.filterMap fun (entry, index) =>
    match normalizeRuntimeStep toWeight getTargetProvider entry combo.name index [] path with
    | some (.model target) => some target
    | _ => none

/-- One round of the loop over the steps, with the expansion of a reference. -/
def resolveStep (expand : ComboRuntimeStep → Option (List ResolvedComboTarget)) :
    ComboRuntimeStep → Option (List ResolvedComboTarget)
  | .comboRef step => expand (.comboRef step)
  | .model target => some [target]

def resolveNestedComboTargets (maxDepth : Nat) :
    Nat → ComboLike → List ComboInput → Visited → Nat → List JsString →
      Option (List ResolvedComboTarget)
  | 0, _, _, _, _, _ => none
  | fuel + 1, combo, allCombos, visited, depth, path =>
      if maxDepth < depth then some (directTargets toWeight getTargetProvider combo path)
      else if visited.contains combo.name then some []
      else
        let runtimeSteps :=
          getOrderedTopLevelRuntimeSteps toWeight getTargetProvider combo allCombos path
        let expand := fun step =>
          expandRuntimeStep (resolveNestedComboTargets maxDepth fuel) maxDepth step allCombos
            (combo.name :: visited) depth path
        (runtimeSteps.mapM (resolveStep expand)).map List.flatten

end Reading

/-! ## Validation -/

/-- The model of `normalizeModelEntry`. -/
def normalizeModelEntry (entry : Json) : JsString := (getComboStepTarget entry {}).getD []

def depthExceeded (maxDepth : Nat) (comboName : JsString) : JsString :=
  js "Max combo nesting depth (" ++ ofNat maxDepth ++ js ") exceeded at \"" ++ comboName ++ js "\""

def circularReference (comboName : JsString) : JsString :=
  js "Circular combo reference detected: " ++ comboName

/-- The loop over the entries, up to the first that throws. -/
def validateEntries (validate : JsString → Option (Except JsString Unit))
    (combos : List ComboLike) : List Json → Option (Except JsString Unit)
  | [] => some (.ok ())
  | entry :: rest =>
      let modelName := normalizeModelEntry entry
      match findCombo combos modelName with
      | none => validateEntries validate combos rest
      | some _ =>
          match validate modelName with
          | some (.ok ()) => validateEntries validate combos rest
          | stopped => stopped

def validateComboDAG (maxDepth : Nat) :
    Nat → JsString → List ComboInput → Visited → Nat → Option (Except JsString Unit)
  | 0, _, _, _, _ => none
  | fuel + 1, comboName, allCombos, visited, depth =>
      if maxDepth < depth then some (.error (depthExceeded maxDepth comboName))
      else if visited.contains comboName then some (.error (circularReference comboName))
      else
        let visited := comboName :: visited
        let combos := getCombosArray allCombos
        match findCombo combos comboName with
        | none => some (.ok ())
        | some combo =>
            validateEntries (fun modelName =>
                validateComboDAG maxDepth fuel modelName (combos.map ComboLike.toInput) visited
                  (depth + 1))
              combos combo.models

end RedRouter.Combo.Structure
