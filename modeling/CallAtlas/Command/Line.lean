import CallAtlas.Command.Flag

/-!
# Command lines

A command line names a command and gives it flags and arguments, in any order up to a `--`, after
which all is an argument. Which word is the command is found first, and only then the flags of that
command are read.
-/

namespace CallAtlas.Command

/-- Why a command line is refused. -/
inductive LineProblem where
  | badSyntax (word : String)
  | unknownFlag (name : String)
  | unknownLetter (letter : Char) (letters : String)
  | noValue (name : String)
  | badValue (title given : String) (problem : Flag.ValueProblem)
  | argumentCount (expected : String) (count : Nat)
  | notCommand (word path : String)
  | flagMissing (name : String)
  deriving DecidableEq, Repr

/-- A character between single quotes. -/
def quotedLetter (c : Char) : String :=
  "'" ++ (if c = '\'' then "\\'" else if c = '"' then "\"" else Text.quotedChar c) ++ "'"

def LineProblem.message : LineProblem → String
  | .badSyntax word => "bad flag syntax: " ++ word
  | .unknownFlag name => "unknown flag: --" ++ name
  | .unknownLetter letter letters =>
    "unknown shorthand flag: " ++ quotedLetter letter ++ " in -" ++ letters
  | .noValue name => "flag needs an argument: --" ++ name
  | .badValue title given p =>
    "invalid argument " ++ Text.quoted given ++ " for " ++ Text.quoted title ++ " flag: "
      ++ p.message given
  | .argumentCount expected count => s!"accepts {expected} arg(s), received {count}"
  | .notCommand word path => "unknown command " ++ Text.quoted word ++ " for " ++ Text.quoted path
  | .flagMissing name => "required flag(s) " ++ Text.quoted name ++ " not set"

def LineProblem.failure (p : LineProblem) : Failure :=
  .ofText p.message

/-! ### Finding the command -/

/-- Whether a word is a flag whose value is the next word, as far as the shared flags tell. A flag that is not
    among them is taken for one. -/
def takesNext (word : String) : Bool :=
  match word.toList with
  | '-' :: '-' :: name =>
    !name.contains '=' &&
      !(Action.sharedFlags.any fun f => f.isSwitch && f.name.toList == name)
  | ['-', c] => c != '=' && c.toNat < 128
  | _ => false

/-- The first word that is neither a flag nor the value of one. A value at the very end is not skipped, and ends
    the search. -/
def firstPlainWord? : List String → Option String
  | [] => none
  | word :: rest =>
    if word = "--" then none
    else if takesNext word then
      match rest with
      | _ :: next :: more => firstPlainWord? (next :: more)
      | _ => none
    else if word ≠ "" ∧ ¬ word.startsWith "-" then some word
    else firstPlainWord? rest

/-- A command line without the first word that names its command. -/
def dropCommandWord (name : String) : List String → List String
  | [] => []
  | word :: rest =>
    if word = "--" then word :: rest
    else if takesNext word then
      match rest with
      | value :: more => word :: value :: dropCommandWord name more
      | [] => [word]
    else if word = name then rest
    else word :: dropCommandWord name rest

/-- The command of a line and the words for it. -/
def splitCommand (words : List String) : Action × List String :=
  match firstPlainWord? words with
  | none => (.plain, words)
  | some word =>
    match Action.ofName? word with
    | some c => (c, dropCommandWord word words)
    | none => (.plain, words)

/-! ### Reading flags and arguments -/

/-- The words of a command line, taken apart. -/
structure Words where
  /-- The flags that are given and their values. -/
  given : List (String × FlagValue) := []
  arguments : List String := []
  deriving DecidableEq, Repr

/-- Sets a flag. -/
def Words.set (w : Words) (f : Flag) (text : String) : Except LineProblem Words :=
  match f.setTo (w.given.lookup f.name) text with
  | .ok v => .ok { w with given := (f.name, v) :: w.given }
  | .error p => .error (.badValue f.title text p)

/-- The start of letters that belong to a test harness and count for nothing. -/
def harnessStart : List Char := "test.".toList

/-- Reads letters, each of which stands for a switch. A value can follow the last one. -/
def readLetters (flags : List Flag) (w : Words) : List Char → Except LineProblem Words
  | [] => .ok w
  | c :: cs =>
    if harnessStart.isPrefixOf (c :: cs) then .ok w else
    match flags.find? (·.letter = some c) with
    | none =>
      let first := (Text.toBytes c.toString).head?.map fun b => Char.ofNat b.toNat
      .error (.unknownLetter (first.getD c) (String.ofList (c :: cs)))
    | some f =>
      match cs with
      | '=' :: v :: value => w.set f (String.ofList (v :: value))
      | _ => do readLetters flags (← w.set f "true") cs

/-- The name of a flag and its value where an equals sign gives one. -/
def splitFlag (cs : List Char) : String × Option String :=
  (String.ofList (Text.beforeFirst '=' cs),
    match Text.fromFirst '=' cs with
    | _ :: value => some (String.ofList value)
    | [] => none)

/-- Reads the words of a command with some flags. -/
def readWords (flags : List Flag) (w : Words) : List String → Except LineProblem Words
  | [] => .ok w
  | word :: rest =>
    match word.toList with
    | ['-', '-'] => .ok { w with arguments := w.arguments ++ rest }
    | '-' :: '-' :: cs =>
      if cs.head? = some '-' ∨ cs.head? = some '=' then .error (.badSyntax word) else
      let (name, value?) := splitFlag cs
      match flags.find? (·.name = name) with
      | none => .error (.unknownFlag name)
      | some f =>
        match value? with
        | some value => do readWords flags (← w.set f value) rest
        | none =>
          if f.isSwitch then do readWords flags (← w.set f "true") rest
          else
            match rest with
            | value :: more => do readWords flags (← w.set f value) more
            | [] => .error (.noValue name)
    | '-' :: c :: cs => do readWords flags (← readLetters flags w (c :: cs)) rest
    | _ => readWords flags { w with arguments := w.arguments ++ [word] } rest

/-! ### Invocations -/

/-- A command with its flags and arguments. -/
structure Invocation where
  command : Action
  words : Words
  deriving DecidableEq, Repr

namespace Invocation

/-- Checks the number of arguments. -/
def checkArguments (i : Invocation) : Except LineProblem Unit :=
  let arguments := i.words.arguments
  match i.command with
  | .plain =>
    if 1 < arguments.length then .error (.argumentCount "at most 1" arguments.length) else .ok ()
  | .version =>
    match arguments with
    | [] => .ok ()
    | word :: _ => .error (.notCommand word "jarcalls version")
  | .help => .ok ()
  | .completion => .ok ()
  | _ =>
    if arguments.length ≠ 1 then .error (.argumentCount "1" arguments.length) else .ok ()

/-- Whether a flag is given. -/
def isGiven (i : Invocation) (name : String) : Bool :=
  (i.words.given.lookup name).isSome

/-- Checks that the flags are there that a command cannot do without. -/
def checkFlags (i : Invocation) : Except LineProblem Unit :=
  match i.command.requiredFlags.find? (!i.isGiven ·) with
  | some name => .error (.flagMissing name)
  | none => .ok ()

/-- The value of a flag, none if the command does not know it. -/
def value? (i : Invocation) (name : String) : Option FlagValue :=
  (i.words.given.lookup name).or
    ((i.command.flags.find? (·.name = name)).map Flag.default)

/-- The value of a text flag without white space around it, empty if there is none. -/
def text (i : Invocation) (name : String) : String :=
  match i.value? name with
  | some (.text s) => String.ofList (Text.trimSpace s.toList)
  | _ => ""

/-- The value of a number flag. -/
def number (i : Invocation) (name : String) : Int :=
  match i.value? name with
  | some (.number n) => n
  | _ => 0

/-- The value of a switch. -/
def isOn (i : Invocation) (name : String) : Bool :=
  i.value? name == some (.truth true)

/-- The value of a list flag. -/
def list (i : Invocation) (name : String) : List String :=
  match i.value? name with
  | some (.list ss) => ss
  | _ => []

/-- The command that help is asked for, if it is. -/
def helpFor? (i : Invocation) : Option Action :=
  if i.isOn "help" then some i.command
  else match i.command with
    | .plain => if i.words.arguments.isEmpty then some .plain else none
    | .help => some (splitCommand i.words.arguments).1
    | .completion => some .completion
    | _ => none

/-- The invocation that a command line stands for. Flags are read before arguments are counted, and these before
    missing flags are looked for; who asks for help is spared both. -/
def ofWords (words : List String) : Except LineProblem Invocation := do
  let (command, rest) := splitCommand words
  let i : Invocation := ⟨command, ← readWords command.flags {} rest⟩
  if i.isOn "help" then return i
  i.checkArguments
  i.checkFlags
  return i

end Invocation

end CallAtlas.Command
