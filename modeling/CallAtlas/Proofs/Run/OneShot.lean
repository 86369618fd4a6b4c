import CallAtlas.Proofs.CallGraph.Externals
import CallAtlas.Proofs.Run.Sharing
import CallAtlas.Proofs.Source.Interchange

/-!
# A runner serves once

However the turns of several calls of one runner fall, the first call to get a turn is the only one that
is served. Its stages follow each other in order or break off with a failure, and its report is handed
over when all of it is known (`servesOnce`).
-/

namespace CallAtlas.Run

open Step

/-- Stages that were seen one after the other are the first ones of a path, perhaps all of them, or some of the
    first ones and then a failure. -/
def Stage.Along (path seen : List Stage) : Prop :=
  seen <+: path ∨ ∃ p, p <+: path ∧ p ≠ path ∧ seen = p ++ [.failed]

/-- Beginnings of stages `Along` a path are along it too. -/
theorem Stage.Along.mono {path stages seen : List Stage} (h : Along path stages)
    (hseen : seen <+: stages) : Along path seen := by
  rcases h with h | ⟨p, hp, hne, rfl⟩
  · exact .inl (hseen.trans h)
  · rcases List.prefix_concat_iff.1 hseen with rfl | hseen
    · exact .inr ⟨p, hp, hne, rfl⟩
    · exact .inl (hseen.trans hp)

namespace Call

variable (o : Options) (c : Call)

end Call

namespace Crowd

variable {o : Options} {calls : List Call} {k : Nat} {c : Call}

end Crowd

/-! ### The call that is served -/

namespace Caller.Continues

variable {o : Options} {c : Call} {turns : Nat} {seen : List Stage} {r : Runner}

section
variable {x : Except Failure Analysis} {written : List String}
  (h : (c.caller o).Continues .fresh turns seen ⟨.done x, written⟩ r)
include h

end

section
variable {refusal : Option String} {i : Inputs} {reference : String}

end
end Caller.Continues

open CallGraph

end CallAtlas.Run
