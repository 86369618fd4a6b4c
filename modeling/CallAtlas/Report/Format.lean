import CallAtlas.Text.Printable
import CallAtlas.Text.Quoted

/-!
# Report formats
-/

namespace CallAtlas.Report

/-- How calls are written down. -/
inductive Format where
  | text | json | jsonl | dot
  deriving DecidableEq, Repr

namespace Format

def name : Format → String
  | .text => "text"
  | .json => "json"
  | .jsonl => "jsonl"
  | .dot => "dot"

def code : Format → Int
  | .text => 0
  | .json => 1
  | .jsonl => 2
  | .dot => 3

/-- The format with a number. -/
def ofCode? : Int → Option Format
  | 0 => some .text
  | 1 => some .json
  | 2 => some .jsonl
  | 3 => some .dot
  | _ => none

/-- The name of the format with a number, whether or not there is one. -/
def codeText (n : Int) : String :=
  (ofCode? n).elim s!"Format({n})" name

/-- The format with a name, in whatever case. -/
def ofText? (s : String) : Option Format :=
  match Text.keyword s with
  | "" => some .text
  | "text" => some .text
  | "txt" => some .text
  | "json" => some .json
  | "jsonl" => some .jsonl
  | "ndjson" => some .jsonl
  | "dot" => some .dot
  | "graphviz" => some .dot
  | _ => none

/-- The wording for a format that does not exist. -/
def unknownMessage (described : String) : String :=
  "report: unknown format: " ++ described

end Format
end CallAtlas.Report
