import CallAtlas.CallGraph.Edge

/-!
# Unused methods

Declared methods that nothing at hand calls and that the machine does not call by itself.
-/

namespace CallAtlas.Report

open Facts CallGraph

/-- The member that a program starts at. -/
def mainMember : String := "main(java.lang.String[])"

/-- The machine runs it without a call: a static initializer or a main method. -/
def runsByItself (l : Location) : Bool :=
  l.scheme == Location.schemeInitializer
    || (l.scheme == Location.schemeMethod && l.member == mainMember)

/-- The declared methods that no call leads to, that override nothing and that do not run by themselves. -/
def unreferencedLocations (s : Store) (calls : List Tuple) : List Location :=
  let targeted := setOf (calls.filterMap fun t => t[1]?)
  let overriding := setOf ((s.tuples relOverrides).filterMap List.head?)
  s.declarations.filter fun d =>
    !targeted.contains d && !overriding.contains d && !runsByItself d

/-- The names of the unused methods, ascending and each once. -/
def unreferenced (s : Store) (naming : Naming) : Except Failure (List String) :=
  match s.relation? relInvocation with
  | none => .error noInvocations
  | some calls => .ok (Text.sortDistinct ((unreferencedLocations s calls).map naming.name))

/-- One name a line. -/
def listText (names : List String) : String :=
  String.join (names.map (· ++ "\n"))

end CallAtlas.Report
