import RedRouter.Lib.Json

/-!
# Optional tool arguments

The model of the argument cleaning of
`translator/response/openai-responses/pureHelpers.ts`: arguments that mean
the same as a missing one are dropped before they reach the client.

An object here has its own members only; the members that an object of the
source inherits from its prototype are not looked up.
-/

namespace RedRouter.Response

/-- `normalizeToolName` of a string. -/
def normalizeToolName (value : JsString) : JsString := JsString.trim value

def strippableEmptyArgTools : List JsString := [js "Read", js "Subagent"]

def agentTool : JsString := js "Agent"

variable (codec : JsonCodec)

def jsonValuesEqual : Json → Json → Bool
  | .null, .null => true
  | .null, _ => false
  | _, .null => false
  | a, b => codec.stringify a == codec.stringify b

def hasUsableSchema : Option Json → Bool
  | some (.obj _) => true
  | _ => false

def schemaProperties (schema : Option Json) : Option Json :=
  match schema with
  | some (.obj members) =>
      match Json.get? (js "properties") (.obj members) with
      | some (.obj properties) => some (.obj properties)
      | some (.arr items) => some (.arr items)
      | _ => none
  | _ => none

def arrayItems : Option Json → List Json
  | some (.arr items) => items
  | _ => []

/-- Whether `schemaRequiredSet` has a key. -/
def isRequired (schema : Option Json) (key : JsString) : Bool :=
  (arrayItems (schema.bind (Json.get? (js "required")))).any fun item => item.str? == some key

def isEmptyToolArgValue : Json → Bool
  | .str [] => true
  | .arr [] => true
  | _ => false

/-- A value that is neither missing nor `null`. -/
def present : Option Json → Option Json
  | some .null => none
  | value => value

def matchesSchemaDefault (propSchema : Option Json) (entry : Json) : Bool :=
  match propSchema.bind (Json.get? (js "default")) with
  | some value => jsonValuesEqual codec entry value
  | none => false

def isDroppableEmptyEntry (entry : Json) (propSchema : Option Json) (required allowlisted : Bool) :
    Bool :=
  isEmptyToolArgValue entry && (allowlisted || ((present propSchema).isSome && !required))

def schemaTypeIncludes (type : Option Json) (wanted : JsString) : Bool :=
  match type with
  | some (.str s) => s == wanted
  | some (.arr items) => items.any fun item => item.str? == some wanted
  | _ => false

def hasOmissionSentinel (propSchema : Option Json) : Bool :=
  match (propSchema.bind (Json.get? (js "description"))).bind Json.str? with
  | some description =>
      description.includes (js "null = omit this parameter") &&
        (schemaTypeIncludes (propSchema.bind (Json.get? (js "type"))) (js "null") ||
          (arrayItems (propSchema.bind (Json.get? (js "enum")))).any fun item =>
            match item with
            | .null => true
            | _ => false)
  | none => false

def isDroppableNullEntry (entry : Json) (propSchema : Option Json) (required : Bool)
    (toolName : JsString) : Bool :=
  match entry with
  | .null =>
      toolName == agentTool ||
        ((present propSchema).isSome && (!required || hasOmissionSentinel propSchema))
  | _ => false

def stripEmptyOptionalToolArgsObject (members : List (JsString × Json))
    (toolName : JsString) (schema : Option Json) : List (JsString × Json) :=
  let properties := schemaProperties schema
  let allowlisted := strippableEmptyArgTools.contains toolName
  members.filter fun (key, entry) =>
    let propSchema := properties.bind (Json.get? key)
    let required := isRequired schema key
    !(matchesSchemaDefault codec propSchema entry ||
      isDroppableEmptyEntry entry propSchema required allowlisted ||
      isDroppableNullEntry entry propSchema required toolName)

/-- `stripEmptyOptionalToolArgs` of a value that is not `null`. -/
def stripEmptyOptionalToolArgs (value : Json) (toolName : JsString) (schema : Option Json) : Json :=
  match value with
  | .str text =>
      if !hasUsableSchema schema && !strippableEmptyArgTools.contains toolName &&
          toolName != agentTool then value
      else
        match codec.parse text with
        | some (.obj members) =>
            .str (codec.stringify
              (.obj (stripEmptyOptionalToolArgsObject codec members toolName schema)))
        | _ => value
  | .obj members => .obj (stripEmptyOptionalToolArgsObject codec members toolName schema)
  | _ => value

def argumentsText : Json → JsString
  | .str text => text
  | value => codec.stringify value

/-- The cleaned text of some arguments. -/
def strippedText (value : Json) (toolName : JsString) (schema : Option Json) : JsString :=
  argumentsText codec (stripEmptyOptionalToolArgs codec value toolName schema)

end RedRouter.Response
