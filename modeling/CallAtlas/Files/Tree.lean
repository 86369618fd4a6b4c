import CallAtlas.Failure
import CallAtlas.Files.Path

/-!
# File trees

The files that a run can see, as a value: every name of a directory with what it stands for. Links
are followed wherever a name is passed through, and at the last name where a path is opened.
-/

namespace CallAtlas.Files

open Text (RawText)

/-- What a name in a directory stands for. -/
inductive Node where
  | file (content : List UInt8)
  | directory
  | link (target : RawText)
  deriving DecidableEq, Repr

/-- A place in a tree: the names that lead to it from the top. -/
abbrev Trail := List RawText

/-- A tree of files. The top is a directory, and so is whatever leads to a node. -/
structure Tree where
  nodes : List (Trail × Node)
  deriving DecidableEq, Repr

/-- Why a path cannot be used as intended. -/
inductive Problem where
  | missing | notDirectory | isDirectory | occupied | tooManyLinks | nameTooLong | badName
  deriving DecidableEq, Repr

def Problem.message : Problem → String
  | .missing => "no such file or directory"
  | .notDirectory => "not a directory"
  | .isDirectory => "is a directory"
  | .occupied => "file exists"
  | .tooManyLinks => "too many levels of symbolic links"
  | .nameTooLong => "file name too long"
  | .badName => "invalid argument"

/-- What was to be done with a path. -/
inductive Activity where
  | opening | status | reading | making
  deriving DecidableEq, Repr

def Activity.text : Activity → String
  | .opening => "open"
  | .status => "stat"
  | .reading => "read"
  | .making => "mkdir"

/-- An attempt that did not succeed. -/
structure Fault where
  activity : Activity
  path : RawText
  problem : Problem
  deriving DecidableEq, Repr

def Fault.message (f : Fault) : RawText :=
  f.activity.text ++ " " ++ f.path ++ ": " ++ f.problem.message

def Fault.failure (f : Fault) : Failure :=
  .ofText f.message

namespace Tree

def empty : Tree := ⟨[]⟩

/-- What stands at a place. -/
def node? (t : Tree) (trail : Trail) : Option Node :=
  if trail.isEmpty then some .directory else t.nodes.lookup trail

/-! ### Following paths -/

/-- The place above another. What is above the top has a name of its own, and nothing is above the root. -/
def above (trail : Trail) : Trail :=
  if trail = [root] then trail
  else if trail.all (· = up) then trail ++ [up]
  else trail.dropLast

/-- Where the names of a path start to count. -/
def startOf (path : RawText) (trail : Trail) : Trail :=
  if isRooted path then [root] else trail

/-- The most links that are followed for one path. -/
def mostLinks : Nat := 40

/-- The most bytes of a name. -/
def longestName : Nat := 255

/-- The most bytes of a path. -/
def longestPath : Nat := 4095

/-- What is done about the last name of a path. -/
inductive AtEnd where
  /-- A link is followed. -/
  | follow
  /-- A link stands for itself. -/
  | keep
  /-- A link is followed, and a name that stands for nothing yet will stand for a file. -/
  | create
  deriving DecidableEq, Repr

/-- Follows names from a place, and so many links. A link that is not the last name is always followed. -/
def walk (t : Tree) (atEnd : AtEnd) (links : Nat) (trail : Trail) (names : List RawText) :
    Except Problem (Trail × Option Node) :=
  match names with
  | [] => (t.node? trail).elim (.error .missing) fun n => .ok (trail, some n)
  | n :: rest =>
    match t.node? trail with
    | some .directory =>
      if isIdle n then walk t atEnd links trail rest
      else if n = up then walk t atEnd links (above trail) rest
      else if atEnd = .create ∧ rest ≠ [] ∧ rest.all (·.isEmpty) then .error .isDirectory
      else if longestName < n.size then .error .nameTooLong
      else
        match t.node? (trail ++ [n]) with
        | none => if atEnd = .create ∧ rest = [] then .ok (trail ++ [n], none) else .error .missing
        | some (.link target) =>
          if rest = [] ∧ atEnd = .keep then .ok (trail ++ [n], some (.link target))
          else
            match links with
            | 0 => .error .tooManyLinks
            | k + 1 => walk t atEnd k (startOf target trail) (pathNames target ++ rest)
        | some _ => walk t atEnd links (trail ++ [n]) rest
    | some _ => .error .notDirectory
    | none => .error .missing
termination_by (links, names.length)

/-- A path that can be followed at all. -/
def checkPath (path : RawText) : Except Problem Unit :=
  if path.bytes.contains 0 then .error .badName
  else if path.isEmpty then .error .missing
  else if longestPath < path.size then .error .nameTooLong
  else .ok ()

/-- Follows a path. -/
def trace (t : Tree) (atEnd : AtEnd) (path : RawText) : Except Problem (Trail × Option Node) := do
  checkPath path
  t.walk atEnd mostLinks (startOf path []) (pathNames path)

/-- What stands at the end of a path. -/
def findAt (t : Tree) (atEnd : AtEnd) (path : RawText) : Except Problem (Trail × Node) := do
  match ← t.trace atEnd path with
  | (trail, some n) => return (trail, n)
  | (_, none) => throw .missing

/-- What a path leads to. -/
def find (t : Tree) (path : RawText) : Except Problem (Trail × Node) :=
  t.findAt .follow path

/-- What a path leads to when a link at its end is not followed. -/
def findLink (t : Tree) (path : RawText) : Except Problem (Trail × Node) :=
  t.findAt .keep path

/-- A path leads to a directory. -/
def isDirectory (t : Tree) (path : RawText) : Bool :=
  match t.find path with
  | .ok (_, .directory) => true
  | _ => false

/-- The content of a file. -/
def readFile (t : Tree) (path : RawText) : Except Fault (List UInt8) :=
  match t.find path with
  | .ok (_, .file content) => .ok content
  | .ok _ => .error ⟨.reading, path, .isDirectory⟩
  | .error p => .error ⟨.opening, path, p⟩

/-- The order in which a tree is walked: by name, a directory before what is in it. -/
def trailLe (a b : Trail) : Bool :=
  !decide (b < a)

/-- The files below a place with their places relative to it, in the order of a walk. -/
def filesBelow (t : Tree) (trail : Trail) : List (Trail × List UInt8) :=
  (t.nodes.filterMap below).mergeSort fun a b => trailLe a.1 b.1
where
  /-- A node as a file below the place. -/
  below : Trail × Node → Option (Trail × List UInt8)
    | (place, .file content) =>
      if trail.isPrefixOf place ∧ trail.length < place.length then
        some (place.drop trail.length, content)
      else none
    | _ => none

/-! ### Changes -/

/-- Puts a node at a place. -/
def put (t : Tree) (trail : Trail) (node : Node) : Tree :=
  ⟨t.nodes.filter (·.1 ≠ trail) ++ [(trail, node)]⟩

/-- Puts a node at a path, with the directories that lead to it. -/
def plant (t : Tree) (path : RawText) (node : Node) : Tree :=
  let trail := cleanNames false [] (pathNames path)
  let parents := (List.range trail.length).map fun k => trail.take k
  let t := parents.foldl (fun t p => if (t.node? p).isNone then t.put p .directory else t) t
  t.put trail node

/-- Changes the content of a file, which is empty before if there is none. -/
def updateFile (t : Tree) (path : RawText) (change : List UInt8 → List UInt8) : Except Fault Tree :=
  match t.trace .create path with
  | .ok (trail, some (.file content)) => .ok (t.put trail (.file (change content)))
  | .ok (trail, none) => .ok (t.put trail (.file (change [])))
  | .ok _ => .error ⟨.opening, path, .isDirectory⟩
  | .error p => .error ⟨.opening, path, p⟩

/-- Writes a file, new or in place of one. -/
def writeFile (t : Tree) (path : RawText) (content : List UInt8) : Except Fault Tree :=
  t.updateFile path fun _ => content

/-- Adds to the end of a file, new or old. -/
def appendFile (t : Tree) (path : RawText) (content : List UInt8) : Except Fault Tree :=
  t.updateFile path (· ++ content)

/-- Makes one directory under a name that stands for nothing yet. -/
def makeDirectory (t : Tree) (path : RawText) : Except Problem Tree := do
  checkPath path
  let names := pathNames (dropSlashes path)
  let name := names.getLastD ""
  match ← t.walk .follow mostLinks (startOf path []) names.dropLast with
  | (trail, some .directory) =>
    if isIdle name ∨ name = up then throw .occupied
    if longestName < name.size then throw .nameTooLong
    if (t.node? (trail ++ [name])).isSome then throw .occupied
    return t.put (trail ++ [name]) .directory
  | _ => throw .notDirectory

/-- What leads to the last name of a path, without the slash behind it; nothing if the path has one name
    only. -/
def leading? (path : RawText) : Option RawText :=
  match Text.throughLast slash (dropSlashes path).bytes with
  | a :: b :: rest => some ⟨(a :: b :: rest).dropLast⟩
  | _ => none

/-- Makes a directory and all that leads to it, as many as there are steps at most. -/
def makeFrom (t : Tree) : (steps : Nat) → RawText → Except Fault Tree
  | 0, _ => .ok t
  | steps + 1, path =>
    match t.find path with
    | .ok (_, .directory) => .ok t
    | .ok _ => .error ⟨.making, path, .notDirectory⟩
    | .error _ => do
      let t ← (leading? path).elim (.ok t) (makeFrom t steps)
      match t.makeDirectory path with
      | .ok t => .ok t
      | .error p =>
        match t.findLink path with
        | .ok (_, .directory) => .ok t
        | _ => .error ⟨.making, path, p⟩

/-- Makes a directory and all that leads to it. -/
def makeDirectories (t : Tree) (path : RawText) : Except Fault Tree :=
  t.makeFrom (path.size + 1) path

/-- The files that are new or have another content than before, by path. -/
def changedSince (t before : Tree) : List (RawText × List UInt8) :=
  t.nodes.filterMap fun
    | (trail, .file content) =>
      if before.node? trail = some (.file content) then none else some (pathOf trail, content)
    | _ => none

/-- The directories that are new, by path. -/
def directoriesSince (t before : Tree) : List RawText :=
  t.nodes.filterMap fun
    | (trail, .directory) =>
      if before.node? trail = some .directory then none else some (pathOf trail)
    | _ => none

end Tree

end CallAtlas.Files
