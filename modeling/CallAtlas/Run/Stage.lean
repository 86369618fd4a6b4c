/-!
# Stages

The stages that a run passes through.
-/

namespace CallAtlas.Run

/-- A stage of a run. -/
inductive Stage where
  | idle | loading | building | projecting | aggregating | reporting | done | failed
  deriving DecidableEq, Repr

namespace Stage

def text : Stage → String
  | .idle => "idle"
  | .loading => "loading"
  | .building => "building"
  | .projecting => "projecting"
  | .aggregating => "aggregating"
  | .reporting => "reporting"
  | .done => "done"
  | .failed => "failed"

/-- The stages in their order. -/
def all : List Stage :=
  [.idle, .loading, .building, .projecting, .aggregating, .reporting, .done, .failed]

/-- The name of the stage with a number. -/
def codeText (n : Int) : String :=
  match n with
  | .ofNat k => (all[k]?).elim s!"Stage({n})" text
  | .negSucc _ => s!"Stage({n})"

end Stage

end CallAtlas.Run
