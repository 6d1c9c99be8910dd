import SliceSync.Error
/-!
# Unload requests

A workspace is torn down once its unload is requested, with the cause that was given first. Copies of
a token share one request: `TokenPool` keeps which tokens belong together.
-/

namespace SliceSync

/-- Why a workspace is torn down. -/
inductive DisposeCause
  /-- The project is unloaded, the slice is gone or the host shuts down. -/
  | unload
  | activeConfigurationChanged
  deriving DecidableEq, Repr, Inhabited

namespace DisposeCause

/-- The error that work in flight ends with. -/
def error : DisposeCause → SyncError
  | unload => .cancelled
  | activeConfigurationChanged => .activeConfigurationChanged

def name : DisposeCause → String
  | unload => "unload"
  | activeConfigurationChanged => "active_configuration_changed"

end DisposeCause

/-- Whether unload was requested, and why. -/
structure UnloadToken where
  cause : Option DisposeCause := none
  deriving DecidableEq, Repr, Inhabited

namespace UnloadToken

/-- Requests unload. The first cause stays. -/
def cancel (t : UnloadToken) (cause : DisposeCause) : UnloadToken := ⟨t.cause.or (some cause)⟩

def isCancelled (t : UnloadToken) : Bool := t.cause.isSome

/-- Refuses once unload was requested. -/
def check (t : UnloadToken) : Except SyncError Unit :=
  match t.cause with
  | some cause => .error cause.error
  | none => .ok ()

end UnloadToken

/-- Tokens in the order they were made. Each belongs to a family of copies, which share a request. -/
structure TokenPool where
  families : List UnloadToken := []
  tokens : List Nat := []
  deriving DecidableEq, Repr, Inhabited

namespace TokenPool

/-- Makes a token of a new family. -/
def fresh (p : TokenPool) : TokenPool :=
  { families := p.families ++ [{}], tokens := p.tokens ++ [p.families.length] }

/-- Makes a copy of a token. -/
def copy (p : TokenPool) (token : Nat) : TokenPool :=
  match p.tokens[token]? with
  | some family => { p with tokens := p.tokens ++ [family] }
  | none => p

def cancel (p : TokenPool) (token : Nat) (cause : DisposeCause) : TokenPool :=
  match p.tokens[token]? with
  | some family => { p with families := p.families.modify family (·.cancel cause) }
  | none => p

def get? (p : TokenPool) (token : Nat) : Option UnloadToken :=
  (p.tokens[token]?).bind fun family => p.families[family]?

end TokenPool

end SliceSync
