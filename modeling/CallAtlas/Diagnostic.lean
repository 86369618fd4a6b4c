import CallAtlas.Text.Number
import CallAtlas.Text.Raw

/-!
# Diagnostics

What is worth saying about an input without giving up on it.
-/

namespace CallAtlas

namespace Diagnostic

/-- What a diagnostic is about. -/
inductive Kind where
  | truncated | invalid | unknownTag | unsupported | duplicate | skipped
  | other (name : String)
  deriving DecidableEq, Repr

def Kind.text : Kind → String
  | .truncated => "truncated"
  | .invalid => "invalid"
  | .unknownTag => "unknown_tag"
  | .unsupported => "unsupported"
  | .duplicate => "duplicate"
  | .skipped => "skipped"
  | .other name => name

end Diagnostic

/-- A remark on a file, or on a position in it. -/
structure Diagnostic where
  path : Text.RawText
  /-- The position in the file, negative for none. -/
  offset : Int
  kind : Diagnostic.Kind
  message : Text.RawText
  deriving DecidableEq, Repr

namespace Diagnostic

/-- The diagnostic on one line. -/
def text (d : Diagnostic) : Text.RawText :=
  "[" ++ d.kind.text ++ "] " ++ d.path
    ++ (if d.offset < 0 then "" else "+0x" ++ Text.hexInt d.offset) ++ ": " ++ d.message

/-- `a` need not come behind `b` when diagnostics are listed by path and position. -/
def le (a b : Diagnostic) : Bool :=
  if a.path = b.path then a.offset ≤ b.offset else a.path.le b.path

/-- Diagnostics by path and position; those of one position keep their order. -/
def sort (ds : List Diagnostic) : List Diagnostic :=
  ds.mergeSort le

end Diagnostic

/-- What to do about a class file that cannot be used. -/
inductive Mode where
  /-- Leave it out and say so. -/
  | bestEffort
  /-- Give up. -/
  | strict
  deriving DecidableEq, Repr

namespace Mode

def text : Mode → String
  | .bestEffort => "best-effort"
  | .strict => "strict"

/-- The mode with a number. -/
def ofCode (n : Int) : Mode :=
  if n = 1 then .strict else .bestEffort

end Mode
end CallAtlas
