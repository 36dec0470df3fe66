import RedRouter.Lib.Json

/-!
# The steps of a combo

The model of `lib/combos/steps.ts`.  An entry of a combo is a string or an
object as it was stored, and is read as a step: a model, a reference to another
combo, or a pattern for the models of a provider.  An entry without a kind is a
reference when it names a combo and no provider.

The weight of a step is a double and is given by a function of what the entry
has for it, on which nothing is assumed.
-/

namespace RedRouter.Combo

open JsString

/-- `value.trim()`, unless it is empty. -/
def trimmedText (s : JsString) : Option JsString :=
  if (trim s).isEmpty then none else some (trim s)

def toTrimmedString : Option Json → Option JsString
  | some (.str s) => trimmedText s
  | _ => none

structure ComboModelStep where
  id : JsString
  model : JsString
  providerId : Option JsString
  connectionId : Option JsString
  /-- not empty when there is one -/
  allowedConnectionIds : Option (List JsString)
  weight : UInt64
  label : Option JsString
  prompt : Option JsString
  fallbackOnlyOnQuotaExhaustion : Bool
deriving DecidableEq

structure ComboRefStep where
  id : JsString
  comboName : JsString
  weight : UInt64
  label : Option JsString
  fallbackOnlyOnQuotaExhaustion : Bool
deriving DecidableEq

/-- What is left of a wildcard step: it is no target before it is expanded. -/
structure ComboProviderWildcardStep where
  id : JsString
  providerId : JsString
  modelPattern : JsString
deriving DecidableEq

inductive ComboStep where
  | model (step : ComboModelStep)
  | comboRef (step : ComboRefStep)
  | providerWildcard (step : ComboProviderWildcardStep)
deriving DecidableEq

/-- `NormalizeComboStepOptions`, with the names of the combos. -/
structure NormalizeComboStepOptions where
  comboName : Option JsString := none
  index : Nat := 0
  comboNames : List JsString := []

def parseProviderId (model : JsString) : Option JsString :=
  match indexOf (js "/") (trim model) with
  | some (slashIndex + 1) => trimmedText ((trim model).take (slashIndex + 1))
  | _ => none

def parseProviderWildcardPattern (target : JsString) : Option (JsString × JsString) :=
  match indexOf (js "/") (trim target) with
  | some (slashIndex + 1) =>
      let modelPattern := trim ((trim target).drop (slashIndex + 2))
      match trimmedText ((trim target).take (slashIndex + 1)) with
      | some providerId =>
          if includes modelPattern (js "*") then some (providerId, modelPattern) else none
      | none => none
  | _ => none

def toFullModelString (model : JsString) (providerId : Option JsString) : JsString :=
  let trimmedModel := trim model
  if includes trimmedModel (js "/") then trimmedModel
  else
    match providerId.bind trimmedText with
    | some normalizedProviderId => normalizedProviderId ++ js "/" ++ trimmedModel
    | none => trimmedModel

/-! ## The id of a step -/

/-- `toLowerCase`, as far as the result has ASCII letters. -/
def lowerUnits (u : UInt16) : JsString :=
  if unit 'A' ≤ u && u ≤ unit 'Z' then [u + 32]
  else if u = 0x212A then [unit 'k']
  else if u = 0x130 then [unit 'i', 0x307]
  else [u]

/-- `[a-z0-9]`. -/
def isSlugUnit (u : UInt16) : Bool :=
  (unit 'a' ≤ u && u ≤ unit 'z') || (unit '0' ≤ u && u ≤ unit '9')

/-- `replace(/[^a-z0-9]+/g, "-")`, inside a run or not. -/
def dashRuns : Bool → JsString → JsString
  | _, [] => []
  | inRun, u :: rest =>
      if isSlugUnit u then u :: dashRuns false rest
      else if inRun then dashRuns true rest
      else unit '-' :: dashRuns true rest

/-- `replace(/^-+|-+$/g, "")`. -/
def stripDashes (s : JsString) : JsString :=
  ((s.dropWhile (· == unit '-')).reverse.dropWhile (· == unit '-')).reverse

def slugify (value : JsString) : JsString :=
  let slug := stripDashes (dashRuns false (value.flatMap lowerUnits))
  if slug.isEmpty then js "step" else slug

/-- `buildStepId`, for the slug of the kind. -/
def buildStepId (kindSlug : JsString) (options : NormalizeComboStepOptions) (seed : JsString) :
    JsString :=
  let comboName := (options.comboName.bind trimmedText).getD (js "combo")
  (join (js "-") [slugify comboName, kindSlug, ofNat (options.index + 1), slugify seed]).take 200

def shouldTreatAsComboRef (target : JsString) (providerId : Option JsString)
    (options : NormalizeComboStepOptions) : Bool :=
  if providerId.isSome then false
  else
    options.comboNames.contains target || some target == options.comboName.bind trimmedText

/-! ## Entries -/

variable (value : Json)

/-- `value.providerId || value.provider || parseProviderId(model)`. -/
def entryProvider (model : JsString) : Option JsString :=
  ((toTrimmedString (value.get? (js "providerId"))).or
    (toTrimmedString (value.get? (js "provider")))).or (parseProviderId model)

def hasKind (kind : String) : Bool :=
  match value.get? (js "kind") with
  | some (.str s) => s == js kind
  | _ => false

def getComboModelString : Json → Option JsString
  | .str s => trimmedText s
  | .obj members =>
      let value := Json.obj members
      if hasKind value "combo-ref" then none
      else
        (toTrimmedString (value.get? (js "model"))).map fun rawModel =>
          toFullModelString rawModel (entryProvider value rawModel)
  | _ => none

def getComboStepTarget (options : NormalizeComboStepOptions) : Option JsString :=
  match value with
  | .str s => trimmedText s
  | .obj members =>
      let value := Json.obj members
      if hasKind value "combo-ref" then toTrimmedString (value.get? (js "comboName"))
      else if hasKind value "provider-wildcard" then
        let modelPattern :=
          (toTrimmedString (value.get? (js "modelPattern"))).getD (js "*")
        (toTrimmedString (value.get? (js "providerId"))).map fun providerId =>
          providerId ++ js "/" ++ modelPattern
      else
        (toTrimmedString (value.get? (js "model"))).map fun rawModel =>
          let providerId := entryProvider value rawModel
          if !hasKind value "model" && shouldTreatAsComboRef rawModel providerId options then
            rawModel
          else toFullModelString rawModel providerId
  | _ => none

/-- `allowedConnectionIds` of an entry, as far as they are texts. -/
def entryAllowedConnectionIds : Option (List JsString) :=
  match value.get? (js "allowedConnectionIds") with
  | some (.arr items) =>
      match items.filterMap fun item => toTrimmedString (some item) with
      | [] => none
      | ids => some ids
  | _ => none

variable (toWeight : Option Json → UInt64)

/-- `normalizeComboStep` of a string. -/
def normalizeText (target : JsString) (options : NormalizeComboStepOptions) : ComboStep :=
  if shouldTreatAsComboRef target none options then
    .comboRef
      { id := buildStepId (js "ref") options target
        comboName := target
        weight := 0
        label := none
        fallbackOnlyOnQuotaExhaustion := false }
  else
    match parseProviderWildcardPattern target with
    | some (providerId, modelPattern) =>
        .providerWildcard
          { id := buildStepId (js "wildcard") options (providerId ++ js "/" ++ modelPattern)
            providerId := providerId
            modelPattern := modelPattern }
    | none =>
        .model
          { id := buildStepId (js "model") options target
            model := target
            providerId := parseProviderId target
            connectionId := none
            allowedConnectionIds := none
            weight := 0
            label := none
            prompt := none
            fallbackOnlyOnQuotaExhaustion := false }

/-- The text that tells the steps of one model apart. -/
def connectionSeed (text : JsString) (connectionId : Option JsString) : JsString :=
  match connectionId with
  | some connectionId => text ++ js ":" ++ connectionId
  | none => text

def wildcardStep (options : NormalizeComboStepOptions)
    (providerId modelPattern : JsString) : ComboStep :=
  let seed := connectionSeed (providerId ++ js "/" ++ modelPattern)
    (toTrimmedString (value.get? (js "connectionId")))
  .providerWildcard
    { id := (toTrimmedString (value.get? (js "id"))).getD (buildStepId (js "wildcard") options seed)
      providerId := providerId
      modelPattern := modelPattern }

/-- `normalizeComboStep` of an object. -/
def normalizeObject (value : Json) (options : NormalizeComboStepOptions) : Option ComboStep :=
  let explicitId := toTrimmedString (value.get? (js "id"))
  let weight := toWeight (value.get? (js "weight"))
  let label := toTrimmedString (value.get? (js "label"))
  let fallbackOnlyOnQuotaExhaustion :=
    match value.get? (js "fallbackOnlyOnQuotaExhaustion") with
    | some (.bool b) => b
    | _ => false
  if hasKind value "combo-ref" then
    (toTrimmedString (value.get? (js "comboName"))).map fun comboRefName =>
      .comboRef
        { id := explicitId.getD (buildStepId (js "ref") options comboRefName)
          comboName := comboRefName
          weight := weight
          label := label
          fallbackOnlyOnQuotaExhaustion := fallbackOnlyOnQuotaExhaustion }
  else if hasKind value "provider-wildcard" then
    let model := (toTrimmedString (value.get? (js "model"))).getD []
    (entryProvider value model).map fun providerId =>
      wildcardStep value options providerId
        ((toTrimmedString (value.get? (js "modelPattern"))).getD (js "*"))
  else
    (toTrimmedString (value.get? (js "model"))).map fun rawModel =>
      let providerId := entryProvider value rawModel
      match parseProviderWildcardPattern rawModel with
      | some (wildcardProvider, modelPattern) =>
          wildcardStep value options wildcardProvider modelPattern
      | none =>
          if !hasKind value "model" && shouldTreatAsComboRef rawModel providerId options then
            .comboRef
              { id := explicitId.getD (buildStepId (js "ref") options rawModel)
                comboName := rawModel
                weight := weight
                label := label
                fallbackOnlyOnQuotaExhaustion := false }
          else
            let model := toFullModelString rawModel providerId
            let connectionId := toTrimmedString (value.get? (js "connectionId"))
            .model
              { id := explicitId.getD
                  (buildStepId (js "model") options (connectionSeed model connectionId))
                model := model
                providerId := providerId
                connectionId := connectionId
                allowedConnectionIds := entryAllowedConnectionIds value
                weight := weight
                label := label
                prompt := toTrimmedString (value.get? (js "prompt"))
                fallbackOnlyOnQuotaExhaustion := fallbackOnlyOnQuotaExhaustion }

def normalizeComboStep (value : Json) (options : NormalizeComboStepOptions) : Option ComboStep :=
  match value with
  | .str s => (trimmedText s).map fun target => normalizeText target options
  | .obj members => normalizeObject toWeight (.obj members) options
  | _ => none

/-! ## References -/

theorem toFullModelString_none (model : JsString) : toFullModelString model none = trim model := by
  simp [toFullModelString]

end RedRouter.Combo
