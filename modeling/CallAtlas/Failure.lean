import CallAtlas.Text.Raw

/-!
# Failures

What every error of the library comes down to for a caller that only reports it: a kind to act on
and a wording to show.
-/

namespace CallAtlas

/-- The kinds of failure that a caller can tell apart. -/
inductive FailureKind where
  | endOfData | positionRange
  | badMagic | truncatedClass | classTooLarge | poolIndex | poolTag
  | undefinedOpcode | truncatedCode | badTarget | codeTooLong
  | frozenStore | arityMismatch | badDescriptor
  | unknownNaming | unknownDispatch | noInvocations | unknownFormat
  | badSetting | alreadyRun
  | unreadableSource | badReference | entryTooLarge | noEndpoint
  | cancelled
  | other
  deriving DecidableEq, Repr

/-- A failure as it is reported. -/
structure Failure where
  kind : FailureKind
  message : Text.RawText
  /-- The stage of a run that failed. -/
  stage : Option String := none
  /-- The class file at fault and the position in it. -/
  origin : Option (Text.RawText × Int) := none
  deriving DecidableEq, Repr

/-- A failure with a wording only. -/
def Failure.ofText (message : Text.RawText) : Failure :=
  { kind := .other, message }

/-- The failure of a task that was called off. -/
def Failure.cancelled : Failure :=
  { kind := .cancelled, message := "context canceled" }

/-- The failure behind a heading. -/
def Failure.under (heading : Text.RawText) (f : Failure) : Failure :=
  { f with message := heading ++ ": " ++ f.message }

end CallAtlas
