import SliceSync.Update
/-!
# Evaluations first

A context is created by the first evaluation, so builds that come before it are held back. The first
evaluation releases them: it goes first and they follow in order of arrival. From then on updates
pass as they come. How many builds are held is not limited; that they grew past a threshold is told
once.
-/

namespace SliceSync

/-- The builds held back before the first evaluation. -/
structure Holdback where
  /-- The number of held builds above which a warning is given. -/
  threshold : Nat
  held : List Update := []
  /-- Whether the first evaluation has passed. -/
  passing : Bool := false
  warned : Bool := false
  deriving DecidableEq

/-- More builds are held than the threshold allows. -/
structure HoldbackWarning where
  held : Nat
  threshold : Nat
  deriving DecidableEq, Repr

namespace Holdback

/-- Takes an update in: the updates that pass now, and a warning if one is due. -/
def push (h : Holdback) (u : Update) : Holdback × List Update × Option HoldbackWarning :=
  if h.passing then (h, [u], none)
  else
    match u.kind with
    | .evaluation => ({ h with held := [], passing := true }, u :: h.held, none)
    | .build =>
      let held := h.held ++ [u]
      if !h.warned && h.threshold < held.length then
        ({ h with held, warned := true }, [], some ⟨held.length, h.threshold⟩)
      else ({ h with held }, [], none)

def pending (h : Holdback) : Nat := h.held.length

end Holdback

end SliceSync
