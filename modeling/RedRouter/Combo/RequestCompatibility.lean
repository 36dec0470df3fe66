import RedRouter.Lib.JsNumber
import RedRouter.Lib.Regex
import RedRouter.Combo.ComboStructure

/-!
# Request compatibility

The part of `services/combo/comboStructure.ts` that keeps a request from
targets which cannot serve it.  What a request needs is read off its body, and
a target fails for each need that its capabilities do not meet.  Tools, vision,
structured output and output tokens are hard; the context window is only a
preference.

The table of capabilities, the overrides of context windows, the providers with
emulated tools, the estimate of tokens and the arithmetic are functions.  Of
them only this is assumed: a sum with a positive count is positive.  Targets are
compared by reference, so a list holds references and `load` gives the target
behind each.  What is logged is left out.
-/

namespace RedRouter.Combo.Compatibility

open JsString Structure Regex

/-! ## Images in a body -/

def lowered (s : JsString) : JsString := s.map asciiLower

/-- A property that is neither missing nor `null`. -/
def present (value : Option Json) : Option Json :=
  match value with
  | some .null => none
  | value => value

def textOf (value : Option Json) : Option JsString := value.bind Json.str?

/-- `urlFrom`, as far as it is not empty. -/
def urlFrom (raw : Option Json) : Option JsString :=
  let url :=
    match raw with
    | some (.str s) => some s
    | some value => textOf (value.get? (js "url"))
    | none => none
  url.filter fun s => !s.isEmpty

def propertyOf (value : Option Json) (key : String) : Option Json := value.bind (Json.get? (js key))

def inspectImageShapes (obj : Json) (type : Option JsString) : Bool :=
  let source := obj.get? (js "source")
  ((type = some (js "image_url") || type = some (js "input_image")) &&
      (urlFrom (obj.get? (js "image_url"))).isSome) ||
    (type = some (js "image") && ((textOf (propertyOf source "type") = some (js "base64") &&
          (textOf (propertyOf source "data")).isSome) ||
        (textOf (propertyOf source "type") = some (js "url") &&
          ((textOf (propertyOf source "url")).filter fun s => !s.isEmpty).isSome)))

/-- Whether a video was found, after which the rest of the object is left. -/
def inspectVideoShapes (obj : Json) (type mediaType : Option JsString) : Bool :=
  let source := obj.get? (js "source")
  let videoMediaType := mediaType.any fun m => startsWith (lowered m) (js "video/")
  (type = some (js "input_video") && (urlFrom (((present (obj.get? (js "video_url"))).or
        (present (obj.get? (js "input_video")))).or (obj.get? (js "url")))).isSome) ||
    (type = some (js "video_url") && (urlFrom (obj.get? (js "video_url"))).isSome) ||
    (videoMediaType && (textOf (propertyOf source "data")).isSome) ||
    ((urlFrom (propertyOf source "url")).isSome &&
      ((type = some (js "video") && textOf (propertyOf source "type") = some (js "url")) ||
        type = some (js "video_source") || videoMediaType))

def inspectImageIndicators (obj : Json) (type mediaType : Option JsString) : Bool :=
  (type.any fun t =>
      lowered t = js "image" || lowered t = js "image_url" || lowered t = js "input_image") ||
    (obj.get? (js "image_url")).isSome || (obj.get? (js "input_image")).isSome ||
    (mediaType.any fun m => startsWith (lowered m) (js "image/"))

/-- `inspect`, for images: whether one is found in as many levels. -/
def inspect : Nat → Json → Bool
  | _ + 1, .str s => startsWith s (js "data:image/")
  | levels + 1, .arr items => items.any (inspect levels)
  | levels + 1, .obj members =>
      let obj := Json.obj members
      let type := textOf (obj.get? (js "type"))
      let mediaType := textOf (propertyOf (obj.get? (js "source")) "media_type")
      if inspectImageShapes obj type then true
      else if inspectVideoShapes obj type mediaType then false
      else if inspectImageIndicators obj type mediaType then true
      else members.any fun m => inspect levels m.2
  | _, _ => false

/-- The value is looked into to a depth of 8. -/
def valueContainsImagePart (value : Option Json) : Bool := value.any (inspect 9)

/-! ## What a request needs -/

structure ModelCapabilities where
  toolCalling : Bool
  supportsTools : Option Bool
  supportsVision : Option Bool
  structuredOutput : Option Bool
  contextWindow : Option JsNumber
  maxInputTokens : Option JsNumber
  maxOutputTokens : Option JsNumber

/-- What the filter asks of the rest of the program. -/
structure Catalog where
  getResolvedModelCapabilities : Option JsString → JsString → ModelCapabilities
  /-- `toolCalling === "emulated"` of the provider of an id or an alias -/
  toolCallingEmulated : JsString → Bool
  lookupOverrideWithEffortInheritance : JsString → Option JsNumber
  estimateTokens : List (JsString × Json) → Nat
  /-- `Number(value)` -/
  number : Option Json → JsNumber
  add : JsNumber → JsNumber → JsNumber
  mul : JsNumber → JsNumber → JsNumber
  add_pos : ∀ {p q : ℚ}, 0 ≤ p → 0 < q → 0 < add (.fin p) (.fin q)

structure RequestCompatibilityRequirements where
  requiresTools : Bool
  requiresVision : Bool
  requiresStructuredOutput : Bool
  estimatedInputTokens : JsNumber
  requestedOutputTokens : JsNumber
  requiredContextTokens : JsNumber

def ceil : JsNumber → JsNumber
  | .value (some (some q)) => .fin q.ceil
  | x => x

def getPositiveTokenCount (c : Catalog) (value : Option Json) : JsNumber :=
  let count := c.number value
  if count.isFinite ∧ 0 < count then ceil count else 0

def nonEmptyArray : Option Json → Bool
  | some (.arr items) => !items.isEmpty
  | _ => false

def requestRequiresTools (body : Json) : Bool :=
  nonEmptyArray (body.get? (js "tools")) || nonEmptyArray (body.get? (js "functions"))

def requestRequiresStructuredOutput (body : Json) : Bool :=
  let type := textOf (propertyOf (recordOrNull (body.get? (js "response_format"))) "type")
  type = some (js "json_object") || type = some (js "json_schema")

def hasEstimableContent : Json → Bool
  | .null => false
  | .arr items => !items.isEmpty
  | .obj members => !members.isEmpty
  | _ => true

def estimateRequestInputTokens (c : Catalog) (body : Json) : JsNumber :=
  let estimatePayload :=
    [js "messages", js "input", js "tools", js "functions", js "response_format"].filterMap
      fun key => ((body.get? key).filter hasEstimableContent).map (key, ·)
  .fin (if estimatePayload.isEmpty then 0 else c.estimateTokens estimatePayload : Nat)

def deriveRequestCompatibilityRequirements (c : Catalog) (body : Json) :
    RequestCompatibilityRequirements :=
  let estimatedInputTokens := estimateRequestInputTokens c body
  let maxTokens := getPositiveTokenCount c (body.get? (js "max_tokens"))
  let maxCompletionTokens := getPositiveTokenCount c (body.get? (js "max_completion_tokens"))
  let requestedOutputTokens :=
    if maxTokens < maxCompletionTokens then maxCompletionTokens else maxTokens
  { requiresTools := requestRequiresTools body
    requiresVision :=
      valueContainsImagePart (body.get? (js "messages")) ||
        valueContainsImagePart (body.get? (js "input"))
    requiresStructuredOutput := requestRequiresStructuredOutput body
    estimatedInputTokens
    requestedOutputTokens
    requiredContextTokens := c.add estimatedInputTokens requestedOutputTokens }

def needsFiltering (requirements : RequestCompatibilityRequirements) : Bool :=
  requirements.requiresTools || requirements.requiresVision ||
    requirements.requiresStructuredOutput || 0 < requirements.requiredContextTokens

/-! ## What a target lacks -/

def providerSupportsEmulatedToolCalling (c : Catalog) (provider : JsString) : Bool :=
  !provider.isEmpty && c.toolCallingEmulated provider

/-- `target.providerId || target.provider || null`. -/
def lookupProvider (target : ResolvedComboTarget) : Option JsString :=
  ((target.providerId.filter fun s => !s.isEmpty).or (some target.provider)).filter
    fun s => !s.isEmpty

def capabilitiesOf (c : Catalog) (target : ResolvedComboTarget) : ModelCapabilities :=
  c.getResolvedModelCapabilities (lookupProvider target) target.modelStr

def getModelContextOverrideValue (c : Catalog) (modelStr : JsString) : Option JsNumber :=
  if modelStr.isEmpty then none else c.lookupOverrideWithEffortInheritance modelStr

/-- `none` where no limit is known. -/
def evaluateContextLimit (c : Catalog) (capabilities : ModelCapabilities)
    (requirements : RequestCompatibilityRequirements) (modelStr : JsString) : Option Bool :=
  match getModelContextOverrideValue c modelStr with
  | some override => some (requirements.requiredContextTokens ≤ override)
  | none =>
    match capabilities.maxInputTokens, capabilities.contextWindow with
    | none, none => none
    | maxInputTokens, contextWindow =>
        some (maxInputTokens.all (fun limit => requirements.estimatedInputTokens ≤ limit) &&
          contextWindow.all (fun limit => requirements.requiredContextTokens ≤ limit))

def exceedsKnownOutputLimit (requestedOutputTokens : JsNumber)
    (maxOutputTokens : Option JsNumber) : Bool :=
  match maxOutputTokens with
  | none => false
  | some limit => !decide (requestedOutputTokens ≤ 0) && decide (limit < requestedOutputTokens)

inductive CompatReason where
  | tools
  | vision
  | structuredOutput
  | outputTokens
  | contextWindow
deriving DecidableEq

def HARD_COMPAT_REASONS : List CompatReason := [.tools, .vision, .structuredOutput, .outputTokens]

def hasHardCapabilityFailure (reasons : List CompatReason) : Bool :=
  reasons.any fun reason => HARD_COMPAT_REASONS.contains reason

def getTargetCompatibilityFailures (c : Catalog) (target : ResolvedComboTarget)
    (requirements : RequestCompatibilityRequirements) : List CompatReason :=
  let capabilities := capabilitiesOf c target
  (if requirements.requiresTools &&
        (capabilities.supportsTools = some false || !capabilities.toolCalling) &&
        !providerSupportsEmulatedToolCalling c target.provider then
      [.tools]
    else []) ++
    (if requirements.requiresVision && capabilities.supportsVision ≠ some true then
      [.vision]
    else []) ++
    (if requirements.requiresStructuredOutput && capabilities.structuredOutput = some false then
      [.structuredOutput]
    else []) ++
    (if exceedsKnownOutputLimit requirements.requestedOutputTokens capabilities.maxOutputTokens then
      [.outputTokens]
    else []) ++
    if 0 < requirements.requiredContextTokens ∧
        evaluateContextLimit c capabilities requirements target.modelStr = some false then
      [.contextWindow]
    else []

def hasKnownCompatibleContextLimit (c : Catalog) (target : ResolvedComboTarget)
    (requirements : RequestCompatibilityRequirements) : Bool :=
  !decide (requirements.requiredContextTokens ≤ 0) &&
    evaluateContextLimit c (capabilitiesOf c target) requirements target.modelStr = some true

def OVERRIDE_REJECT_TRUST_MARGIN : JsNumber := 5

def isNearBoundaryOverrideReject (c : Catalog) (target : ResolvedComboTarget)
    (requirements : RequestCompatibilityRequirements) : Bool :=
  if requirements.requiredContextTokens ≤ 0 then false
  else
    match getModelContextOverrideValue c target.modelStr with
    | none => false
    | some override =>
        if override ≤ 0 then false
        else if requirements.requiredContextTokens ≤ override then false
        else requirements.requiredContextTokens ≤ c.mul override OVERRIDE_REJECT_TRUST_MARGIN

def isVisionIncompatibleTarget (c : Catalog) (target : ResolvedComboTarget)
    (requirements : RequestCompatibilityRequirements) : Bool :=
  requirements.requiresVision && (capabilitiesOf c target).supportsVision ≠ some true

/-! ## The filter -/

section

variable {Ref : Type} [DecidableEq Ref] (c : Catalog) (load : Ref → ResolvedComboTarget)
  (requirements : RequestCompatibilityRequirements)

/-- `targetReasons.get(target)`. -/
def targetReasons (target : Ref) : List CompatReason :=
  getTargetCompatibilityFailures c (load target) requirements

def compatibleOf (targets : List Ref) : List Ref :=
  targets.filter fun target => !hasHardCapabilityFailure (targetReasons c load requirements target)

def visionSafeOf (targets : List Ref) : List Ref :=
  targets.filter fun target => !isVisionIncompatibleTarget c (load target) requirements

def preferredTier (compatible : List Ref) : List Ref :=
  let overridden target := (getModelContextOverrideValue c (load target).modelStr).isSome
  let knownContextCompatible :=
    compatible.filter fun target => hasKnownCompatibleContextLimit c (load target) requirements
  let overrideVerifiedCompatible := knownContextCompatible.filter overridden
  let catalogOnlyCompatible := knownContextCompatible.filter fun target => !overridden target
  let overrideTrustedRejects :=
    compatible.filter fun target =>
      !knownContextCompatible.contains target &&
        (targetReasons c load requirements target).contains .contextWindow &&
        isNearBoundaryOverrideReject c (load target) requirements
  overrideVerifiedCompatible ++ overrideTrustedRejects ++ catalogOnlyCompatible

def reordered (compatible : List Ref) : List Ref :=
  let preferred := preferredTier c load requirements compatible
  preferred ++ compatible.filter fun target => !preferred.contains target

def changedOrder (reordered compatible : List Ref) : Bool :=
  reordered.zipIdx.any fun entry => compatible[entry.2]? ≠ some entry.1

/-- What is returned when no target is without a hard failure. -/
def exhaustedPool (targets : List Ref) (failOpen : Bool) : List Ref :=
  let hardRejected :=
    targets.any fun target => hasHardCapabilityFailure (targetReasons c load requirements target)
  if requirements.requiresVision then
    let visionSafe := visionSafeOf c load requirements targets
    if visionSafe.isEmpty then []
    else if failOpen then visionSafe
    else visionSafe
  else if !hardRejected || failOpen then targets
  else []

/-- What is returned when the order stays and some target is left out. -/
def remainingPool (targets compatible : List Ref) : List Ref :=
  match compatible with
  | [survivor] =>
      if (targetReasons c load requirements survivor).contains .contextWindow then
        let restored :=
          if requirements.requiresVision then visionSafeOf c load requirements targets else targets
        if restored.length > compatible.length then restored else compatible
      else compatible
  | compatible => compatible

end

def filterTargetsByRequestCompatibility {Ref : Type} [DecidableEq Ref] (c : Catalog)
    (load : Ref → ResolvedComboTarget) (targets : List Ref) (body : Json) (failOpen : Bool) :
    List Ref :=
  if targets.isEmpty then targets
  else
    let requirements := deriveRequestCompatibilityRequirements c body
    if !needsFiltering requirements then targets
    else
      let compatible := compatibleOf c load requirements targets
      let hadKnownTooSmallContextTarget :=
        targets.any fun target =>
          (targetReasons c load requirements target).contains .contextWindow
      let preferred := preferredTier c load requirements compatible
      let reordered := reordered c load requirements compatible
      if 0 < requirements.requiredContextTokens ∧ hadKnownTooSmallContextTarget ∧
          compatible.length > 1 ∧ preferred ≠ [] ∧ changedOrder reordered compatible then
        reordered
      else if compatible.length = targets.length then targets
      else if compatible.isEmpty then exhaustedPool c load requirements targets failOpen
      else remainingPool c load requirements targets compatible

end RedRouter.Combo.Compatibility
