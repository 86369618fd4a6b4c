import CallAtlas.Facts.Store
import CallAtlas.Program.Build
import CallAtlas.Text.Json

/-!
# Documents about a build

What came of a build, and all facts of a store, as documents for files.
-/

namespace CallAtlas.Report

/-- A file left out or a warning. A position that is not positive is left out. -/
def diagnosticJson (d : Diagnostic) : Text.Json :=
  .object ([("path", .string d.path)] ++ Text.Json.memberIf (0 < d.offset) "offset" (.int d.offset) ++
    [("kind", .string d.kind.text), ("msg", .string d.message)])

/-- What came of a build. -/
def buildDocument (r : Program.Report) : Text.Json :=
  .object ([("classes", .int r.classes), ("methods", .int r.methods), ("call_sites", .int r.callSites),
    ("edges", .int r.edges), ("unresolved", .int r.unresolved)] ++
    Text.Json.memberIf (!r.diagnostics.isEmpty) "diags" (.array (r.diagnostics.map diagnosticJson)))

/-- All facts of a store, with the locations of a tuple written out. -/
def factsDocument (source : String) (s : Facts.Store) : Text.Json :=
  .object [("source", .string source), ("relations", .object (s.names.map fun name =>
    (name, .array ((s.tuples name).map fun t => Text.Json.strings (t.map Location.text)))))]

end CallAtlas.Report
