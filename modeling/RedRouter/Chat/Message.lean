import RedRouter.Lib.Json

/-!
# Chat messages

The messages of an OpenAI-format request, as the request translators read and
write them.  A message may also carry Claude-format blocks in its content:
the repair helpers look for `tool_use` and `tool_result` blocks as well as
for `tool_calls` and `role: "tool"`.

An id that may be missing is an `Option`, and an empty id is as good as a
missing one: `presentId` is the truthiness test of the source.
-/

namespace RedRouter.Chat

/-- The role of a message. -/
inductive Role where
  | system
  | user
  | assistant
  | tool
  | other (name : JsString)
deriving DecidableEq

/-- One part of an array content. -/
inductive Part where
  | text (text : JsString) (cacheControl : Option Json)
  | imageUrl (url : JsString)
  | toolUse (id : Option JsString) (input : Json)
  | toolResult (toolUseId : Option JsString) (content : Json)
  | other (value : Json)

/-- The content of a message. -/
inductive Content where
  | absent
  | str (s : JsString)
  | parts (ps : List Part)

/-- One entry of `tool_calls`. -/
structure ToolCall where
  id : Option JsString
  name : JsString
  arguments : JsString

structure Message where
  role : Role
  content : Content := .absent
  toolCalls : Option (List ToolCall) := none
  toolCallId : Option JsString := none
  reasoningContent : Option JsString := none

def presentId : Option JsString → Option JsString
  | some (c :: cs) => some (c :: cs)
  | _ => none

@[simp] theorem presentId_none : presentId none = none := rfl

@[simp] theorem presentId_nil : presentId (some []) = none := rfl

theorem presentId_eq_some_iff {o : Option JsString} {id : JsString} :
    presentId o = some id ↔ o = some id ∧ id ≠ [] := by
  rcases o with _ | (_ | ⟨c, cs⟩)
  · simp
  · simp only [Option.some.injEq]
    constructor
    · intro h; cases h
    · rintro ⟨rfl, h⟩; exact absurd rfl h
  · simp only [presentId, Option.some.injEq]
    constructor
    · rintro rfl; simp
    · exact fun h => h.1

theorem presentId_isSome_iff {o : Option JsString} :
    (presentId o).isSome = true ↔ ∃ id, o = some id ∧ id ≠ [] := by
  rw [Option.isSome_iff_exists]
  simp only [presentId_eq_some_iff]

end RedRouter.Chat
