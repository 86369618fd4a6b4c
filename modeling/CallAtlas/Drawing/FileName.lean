import CallAtlas.Text.Raw

/-!
# File names

The name of the file that a method is drawn in.
-/

namespace CallAtlas.Drawing

open Text (RawText)

/-- The characters that file systems give a meaning to. -/
def isReserved (c : Char) : Bool :=
  ['/', '\\', ':', '*', '?', '"', '<', '>', '|', ' '].contains c

/-- The most bytes of a file name. -/
def maxFileName : Nat := 200

/-- The name of a method as a file name: reserved characters become underscores, and what is too long is cut
    off. -/
def fileName (name : String) : RawText :=
  .take maxFileName (String.ofList (name.toList.map fun c => if isReserved c then '_' else c))

/-- A file name for the `n`-th method that has it. From the second on it ends with the number. -/
def numbered (file : RawText) (n : Nat) : RawText :=
  if 1 < n then file ++ s!"_{n}" else file

/-- File names for the methods of some names, where names before made use of some file names. -/
def fileNamesAfter (used : List RawText) : List String → List RawText
  | [] => []
  | name :: names =>
    let file := fileName name
    numbered file (used.count file + 1) :: fileNamesAfter (file :: used) names

/-- File names for the methods of some names. -/
def fileNames (names : List String) : List RawText :=
  fileNamesAfter [] names

end CallAtlas.Drawing
