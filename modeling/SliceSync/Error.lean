import SliceSync.Context
/-!
# Errors

Why synchronizing a workspace can fail, and how each cause reads. Two causes come from teardown and
are no faults; four leave the workspace unable to accept updates.
-/

namespace SliceSync

/-- Why an operation failed. -/
inductive SyncError
  /-- An evaluation lacks a property that creating a context needs. -/
  | missingProperty (rule property : String)
  | contextCreation (message : String)
  /-- A context of that id is live. -/
  | duplicateContext (id : ContextId)
  | failed
  | disposed
  /-- The workspace was torn down because another configuration became active. -/
  | activeConfigurationChanged
  /-- The workspace was torn down otherwise. -/
  | cancelled
  /-- No workspace is hosted for the active configuration. -/
  | noActiveWorkspace
  | handler (name message : String)
  /-- The context failed to integrate a batch. -/
  | batch (message : String)
  /-- The update streams could not be had, or have ended. -/
  | subscription (message : String)
  deriving DecidableEq, Repr

namespace SyncError

def message : SyncError → String
  | missingProperty rule property =>
    "evaluation rule `" ++ rule ++ "` is missing required property `" ++ property ++ "`"
  | contextCreation message => "failed to create context: " ++ message
  | duplicateContext id => "context `" ++ id.text ++ "` is already live"
  | failed => "workspace failed to initialize and no longer accepts updates"
  | disposed => "workspace has been disposed"
  | activeConfigurationChanged => "active configuration changed while the operation was in flight"
  | cancelled => "operation was cancelled"
  | noActiveWorkspace => "no workspace is hosted for the active configuration"
  | handler name message => "handler `" ++ name ++ "` failed: " ++ message
  | batch message => "context batch failed: " ++ message
  | subscription message => "update subscription failed: " ++ message

/-- Whether teardown is the cause. Such errors are no faults. -/
def isCancellation : SyncError → Bool
  | cancelled | activeConfigurationChanged => true
  | _ => false

/-- Whether the workspace can accept no more updates. -/
def isFatal : SyncError → Bool
  | missingProperty .. | contextCreation _ | duplicateContext _ | failed => true
  | _ => false

/-- Whether trying again against the newly active slice makes sense. -/
def isRetryable : SyncError → Bool
  | activeConfigurationChanged => true
  | _ => false

/-- Whether an update that ends so is reported as a fault: neither teardown nor a workspace that
accepts no updates is. -/
def isFault : SyncError → Bool
  | cancelled | activeConfigurationChanged | failed | disposed => false
  | _ => true

end SyncError

end SliceSync
