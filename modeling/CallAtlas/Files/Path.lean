import CallAtlas.Text.Raw
import CallAtlas.Text.Split

/-!
# Paths

Paths as texts: names separated by slashes. A path is cleaned without a look at any files.
-/

namespace CallAtlas.Files

open Text (RawText)

/-- What stands between the names of a path. -/
def slash : UInt8 := 0x2f

/-- The names of a path, empty ones included. -/
def pathNames (path : RawText) : List RawText :=
  (Text.splitOn slash path.bytes).map RawText.mk

/-- Names with slashes between them. -/
def pathOf (names : List RawText) : RawText :=
  .joinWith "/" names

/-- A path that starts at the root of all files. -/
def isRooted (path : RawText) : Bool :=
  path.bytes.head? = some slash

/-- The name for the root of all files. -/
def root : RawText := "/"

/-- The name for the directory above. -/
def up : RawText := ".."

/-- A name that leads nowhere. -/
def isIdle (name : RawText) : Bool :=
  name.isEmpty || name = "."

/-- Drops empty names and `.`, and every name that is followed by `..`. -/
def cleanNames (rooted : Bool) (done : List RawText) : List RawText → List RawText
  | [] => done.reverse
  | n :: ns =>
    if isIdle n then cleanNames rooted done ns
    else if n = up then
      match done with
      | [] => cleanNames rooted (if rooted then [] else [up]) ns
      | d :: rest => if d = up then cleanNames rooted (up :: done) ns else cleanNames rooted rest ns
    else cleanNames rooted (n :: done) ns

/-- The shortest path of the same meaning; the empty path means the directory one is in. -/
def cleanPath (path : RawText) : RawText :=
  let names := cleanNames (isRooted path) [] (pathNames path)
  if isRooted path then "/" ++ pathOf names
  else if names.isEmpty then "." else pathOf names

/-- A path below another. -/
def joinPath (path below : RawText) : RawText :=
  if path.isEmpty then (if below.isEmpty then "" else cleanPath below)
  else if below.isEmpty then cleanPath path
  else cleanPath (path ++ "/" ++ below)

/-- The directory that a path lies in. -/
def parentPath (path : RawText) : RawText :=
  cleanPath ⟨Text.throughLast slash path.bytes⟩

/-- The path without slashes at its end. -/
def dropSlashes (path : RawText) : RawText :=
  ⟨(path.bytes.reverse.dropWhile (· == slash)).reverse⟩

/-- The last name of a path. -/
def baseName (path : RawText) : RawText :=
  if path.isEmpty then "."
  else
    let name : RawText := ⟨Text.afterLast slash (dropSlashes path).bytes⟩
    if name.isEmpty then "/" else name

/-- What the extension of a name starts with. -/
def point : UInt8 := 0x2e

/-- The last name of a path from its last point on, empty if it has none. -/
def extension (path : RawText) : RawText :=
  let name := Text.afterLast slash path.bytes
  if name.contains point then ⟨point :: Text.afterLast point name⟩ else ""

end CallAtlas.Files
