import SliceSync.World
import SliceSync.Text.Quoted
/-!
# Descriptions

How handlers, contexts, workspaces and hosts are shown to somebody who looks into a running program:
the kind of thing, then its parts by name within braces, lists within brackets, texts in quotes.
-/

namespace SliceSync.Describe

/-- Parts divided by commas. -/
def commas (parts : List String) : String := String.intercalate ", " parts

def list (parts : List String) : String := "[" ++ commas parts ++ "]"

/-- A thing of a kind with its parts by name. -/
def record (kind : String) (fields : List (String × String)) : String :=
  kind ++ " \x7b " ++ commas (fields.map fun f => f.1 ++ ": " ++ f.2) ++ " \x7d"

/-- A map within braces. -/
def map (entries : List (String × String)) : String :=
  "\x7b" ++ commas (entries.map fun e => Text.quote e.1 ++ ": " ++ Text.quote e.2) ++ "\x7d"

def bool (b : Bool) : String := if b then "true" else "false"

def contextId (id : ContextId) : String := "ContextId(" ++ Text.quote id.text ++ ")"

def slice (s : Slice) : String :=
  record "ProjectConfigurationSlice" [("dimensions", map s.dimensions.toList)]

def handlerSet (h : HandlerSet) : String :=
  record "HandlerSet"
    [("evaluation", list (h.evaluation.map fun e =>
        "(" ++ Text.quote e.1 ++ ", " ++ Text.quote e.2.name ++ ")")),
      ("command_line", list (h.arguments.map fun a => Text.quote a.name)),
      ("source_items", list (h.items.map fun i => Text.quote i.name)),
      ("released", bool h.released)]

def registry (r : Registry) : String :=
  record "HandlerRegistry"
    [("evaluation_rules", list (r.evaluationRules.map Text.quote)),
      ("command_line", toString r.arguments.length),
      ("source_items", toString r.items.length)]

def contextHandle (h : ContextHandle) : String :=
  record "ContextHandle" [("id", contextId h.id), ("handlers", handlerSet h.handlers)]

def integration : Integration → String
  | .pending => "Pending"
  | .integrated => "Integrated"
  | .failed => "Failed"

def workspace (w : Workspace) : String :=
  record "Workspace"
    [("slice", slice w.slice),
      ("context_id", match w.contextId with
        | some id => "Some(" ++ contextId id ++ ")"
        | none => "None"),
      ("evaluation", integration w.evaluation),
      ("build_integrated", bool w.buildIntegrated),
      ("unloading", bool w.unload.isCancelled)]

def hosted (h : Hosted) : String :=
  record "WorkspaceHandle" [("workspace", workspace h.workspace), ("driver_running", bool !h.claimed)]

def lifecycle (r : Registry) (s : Session) : String :=
  record "ContextLifecycleManager" [("registry", registry r), ("live", toString s.live.length)]

def source (s : Source) : String :=
  record "ChannelUpdateSource" [("capacity", toString s.capacity), ("feeds", toString s.feeds.size)]

end SliceSync.Describe
