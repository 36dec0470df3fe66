import RedRouter.Lib.Json
import RedRouter.Lib.JsMap

/-!
# Tool names of Claude clients

The model of `restoreClaudeToolName` in `services/claudeCodeToolRemapper.ts`,
and the finish reasons that both translators to Claude look up in the same
way.  `toLowerCase` follows the Unicode tables; it is an argument here.  The
static table is looked up by its own keys only.
-/

namespace RedRouter.Response

def toolRenameMap : JsMap JsString JsString :=
  [("subagents", "SubDispatch"), ("session_status", "CheckStatus"), ("bash", "Bash"),
    ("read", "Read"), ("write", "Write"), ("edit", "Edit"), ("glob", "Glob"), ("grep", "Grep"),
    ("task", "Task"), ("agent", "Agent"), ("webfetch", "WebFetch"), ("websearch", "WebSearch"),
    ("todowrite", "TodoWrite"), ("todoread", "TodoRead"), ("question", "Question"),
    ("askuserquestion", "AskUserQuestion"), ("skill", "Skill"), ("slashcommand", "SlashCommand"),
    ("multiedit", "MultiEdit"), ("notebook", "Notebook"), ("notebookedit", "NotebookEdit"),
    ("notebookread", "NotebookRead"), ("lsp", "Lsp"), ("apply_patch", "ApplyPatch"),
    ("applypatch", "ApplyPatch"), ("bashoutput", "BashOutput"), ("killshell", "KillShell"),
    ("killbash", "KillBash"), ("enterplanmode", "EnterPlanMode"), ("exitplanmode", "ExitPlanMode"),
    ("enterworktree", "EnterWorktree"), ("exitworktree", "ExitWorktree"), ("artifact", "Artifact"),
    ("designsync", "DesignSync"), ("monitor", "Monitor"), ("sendmessage", "SendMessage"),
    ("listagents", "ListAgents"), ("pushnotification", "PushNotification"),
    ("reportfindings", "ReportFindings"), ("schedulewakeup", "ScheduleWakeup"),
    ("croncreate", "CronCreate"), ("crondelete", "CronDelete"), ("cronlist", "CronList"),
    ("taskoutput", "TaskOutput"), ("taskstop", "TaskStop"), ("taskcreate", "TaskCreate"),
    ("taskupdate", "TaskUpdate"), ("tasklist", "TaskList"), ("taskget", "TaskGet"),
    ("workflow", "Workflow")].map fun (k, v) => (js k, js v)

/-- The request-side aliases of a stream and the case mapping of the platform. -/
structure NameContext where
  toLowerCase : JsString → JsString
  toolNameMap : JsMap JsString JsString := []

variable (ctx : NameContext)

def restoreClaudeToolName (rawName : JsString) : JsString :=
  if rawName.isEmpty then rawName
  else
    let lower := ctx.toLowerCase rawName
    let canonical := (toolRenameMap.get lower).filter fun name => name ≠ rawName
    let exact := (ctx.toolNameMap.get rawName).filter fun name =>
      name ≠ rawName || canonical.isNone
    match exact with
    | some name => name
    | none =>
        let similar := ctx.toolNameMap.filter fun (sanitized, original) =>
          ctx.toLowerCase sanitized == lower || ctx.toLowerCase original == lower
        match similar.find? fun (_, original) => original ≠ rawName with
        | some (_, original) => original
        | none =>
            if !similar.isEmpty && canonical.isNone then rawName
            else canonical.getD rawName

/-- `isAbortFinishReason` in `utils/finishReason.ts`. -/
def isAbortFinishReason (reason : JsString) : Bool :=
  [js "malformed_function_call", js "unexpected_tool_call", js "finish_reason_unspecified",
    js "other", js "language", js "no_image"].contains (ctx.toLowerCase reason)

/-- `restoreClaudeToolName` of a name that is not known to be a string.  The
callers only have truthy names, and `toLowerCase` of one that is not a string
throws, which is `none`. -/
def restoreTextToolName : Json → Option JsString
  | .str rawName => some (restoreClaudeToolName ctx rawName)
  | _ => none

/-- A value that `restoreTextToolName` accepts. -/
def isName (name : Json) : Bool := name.str?.isSome

theorem restoreTextToolName_isSome (name : Json) :
    (restoreTextToolName ctx name).isSome = isName name := by
  cases name <;> rfl

end RedRouter.Response
