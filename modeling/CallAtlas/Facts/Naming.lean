import CallAtlas.Facts.Location
import CallAtlas.Text.Printable
import CallAtlas.Text.Quoted

/-!
# Identities of methods

How much of a location tells one method from another in a report.
-/

namespace CallAtlas

/-- What a method is called in a report. -/
inductive Naming where
  /-- Class and name; methods that differ in their parameters are one. -/
  | short
  /-- Class, name and parameter types. -/
  | signature
  /-- The whole location. -/
  | uri
  deriving DecidableEq, Repr

namespace Naming

def text : Naming → String
  | .short => "short"
  | .signature => "signature"
  | .uri => "uri"

/-- The naming with a number. -/
def ofCode? : Int → Option Naming
  | 0 => some .short
  | 1 => some .signature
  | 2 => some .uri
  | _ => none

def code : Naming → Int
  | .short => 0
  | .signature => 1
  | .uri => 2

/-- The name of the naming with a number, whether or not there is one. -/
def codeText (n : Int) : String :=
  (ofCode? n).elim s!"Naming({n})" text

/-- The naming with a name, in whatever case. -/
def ofText? (s : String) : Option Naming :=
  match Text.keyword s with
  | "" => some .short
  | "short" => some .short
  | "signature" => some .signature
  | "sig" => some .signature
  | "uri" => some .uri
  | _ => none

/-- The wording for a name that no naming has. -/
def unknownMessage (t : Text.RawText) : String :=
  "facts: unknown naming policy: " ++ Text.quoted t

/-- What a location is called. -/
def name (n : Naming) (l : Location) : String :=
  let p := Text.dropLeading '/' l.path.toList
  let base := Text.swapChar '/' '.' (Text.beforeFirst '(' p)
  match n with
  | .uri => l.text
  | .short => String.ofList base
  | .signature => String.ofList (base ++ Text.fromFirst '(' p)

end Naming
end CallAtlas
