import FieldInjection.CommandLine.Flags
import FieldInjection.CommandLine.Option

/-!
# Reading the command line

Arguments are read from left to right. A word that begins with two dashes or one is an option or, behind one
dash, several short ones; any other word is the value of an option that waits for one, or else the root. After
two dashes alone every word is the root.

A value that is not attached to its option waits until the next argument is understood; only then is it
missed or taken. So a word that is no argument at all is reported before a value missing in front of it.
-/

namespace FieldInjection.CommandLine

/-- What is wrong with a command line. -/
inductive Misuse where
  | unknown (word : String)
  | missingValue (argument : Argument)
  | repeated (argument : Argument)
  | surplusValue (argument : Argument) (value : String)
  deriving DecidableEq, Repr

def Misuse.message : Misuse → String
  | unknown word => "unexpected argument '" ++ word ++ "' found"
  | missingValue a => "a value is required for '" ++ a.display ++ "' but none was supplied"
  | repeated a => "the argument '" ++ a.display ++ "' cannot be used multiple times"
  | surplusValue a value =>
    "unexpected value '" ++ value ++ "' for '" ++ a.display ++ "' found; no more were expected"

/-- Why a command line yields no flags. -/
inductive Stop where
  | help
  | version
  | misuse (misuse : Misuse)
  deriving DecidableEq, Repr

/-- What has been read so far. -/
structure Progress where
  flags : Flags := {}
  /-- The arguments that were given. -/
  given : List Argument := []
  /-- An argument whose value is awaited, or was read and is not taken yet. -/
  waiting : Option (Argument × Option String) := none
  /-- Whether the root was given. -/
  hasRoot : Bool := false
  deriving Repr

/-- The flags with the value of an argument. -/
def record (f : Flags) (value : String) : Argument → Flags
  | .root => { f with root := some ⟨value⟩ }
  | .config => { f with config := some ⟨value⟩ }
  | .including => { f with including := f.including ++ [value] }
  | .excluding => { f with excluding := f.excluding ++ [value] }
  | .classPattern => { f with classPattern := some value }
  | .classFiles => { f with classFiles := some value }
  | .accessorModule => { f with accessorModule := some value }
  | .accessor => { f with accessor := some value }
  | .logLevel => { f with logLevel := some value }
  | .dryRun => { f with isDryRun := true }
  | .json => { f with asJson := true }
  | .printConfig => { f with printsSettings := true }
  | .help | .version => f

namespace Progress

/-- Takes a value, or the option itself if it has none. -/
def take (p : Progress) (a : Argument) (value : String) : Except Stop Progress :=
  if p.given.contains a && !a.isRepeatable then .error (.misuse (.repeated a))
  else if a.isPath && value = "" then .error (.misuse (.missingValue a))
  else .ok { p with flags := record p.flags value a, given := a :: p.given }

/-- Takes what is waiting. -/
def settle (p : Progress) : Except Stop Progress :=
  match p.waiting with
  | none => .ok p
  | some (a, none) => .error (.misuse (.missingValue a))
  | some (a, some value) => { p with waiting := none }.take a value

def option (p : Progress) (a : Argument) : Except Stop Progress :=
  match p.settle with
  | .error stop => .error stop
  | .ok p =>
    -- these two end the reading, whatever stands behind them
    match a with
    | .help => .error .help
    | .version => .error .version
    | a => p.take a ""

/-- Understands an option with the value attached to it, or without one yet. -/
def valued (p : Progress) (a : Argument) (attached : Option String) : Except Stop Progress :=
  match p.settle with
  | .error stop => .error stop
  | .ok p =>
    match attached with
    | some value => p.take a value
    | none => .ok { p with waiting := some (a, none) }

/-- Understands a word that is no option: the awaited value or the root. -/
def word (p : Progress) (isFree : Bool) (text : String) : Except Stop Progress :=
  match isFree, p.waiting with
  -- the awaited value
  | true, some (a, none) => .ok { p with waiting := some (a, some text) }
  | _, _ =>
    -- the root, of which there is one
    if p.hasRoot then .error (.misuse (.unknown text))
    else
      match p.settle with
      | .error stop => .error stop
      | .ok p => .ok { p with waiting := some (.root, some text), hasRoot := true }

def long (p : Progress) (body : List Char) : Except Stop Progress :=
  let name := String.ofList (body.takeWhile (· ≠ '='))
  let attached :=
    match body.dropWhile (· ≠ '=') with
    | [] => none
    | _ :: value => some (String.ofList value)
  match Argument.ofLongName? name with
  | none => .error (.misuse (.unknown ("--" ++ name)))
  | some a =>
    if a.takesValue then p.valued a attached
    else
      match attached with
      | some value => .error (.misuse (.surplusValue a value))
      | none => p.option a

/-- Understands what follows one dash: short options, the last of which may have its value attached. -/
def short (p : Progress) : List Char → Except Stop Progress
  | [] => .ok p
  | c :: cs =>
    match Argument.ofShortName? c with
    | none => .error (.misuse (.unknown ("-" ++ String.singleton c)))
    | some a =>
      if a.takesValue then
        p.valued a <|
          match cs with
          | [] => none
          -- one `=` in front of the value does not count
          | '=' :: value => some (String.ofList value)
          | value => some (String.ofList value)
      else
        match p.option a with
        | .error stop => .error stop
        | .ok p => p.short cs

/-- Understands an argument in front of two dashes alone. -/
def argument (p : Progress) (text : String) : Except Stop Progress :=
  match text.toList with
  | '-' :: '-' :: body => p.long body
  | '-' :: c :: cs => p.short (c :: cs)
  | _ => p.word true text

/-- Understands the arguments after two dashes alone. -/
def rest (p : Progress) : List String → Except Stop Progress
  | [] => .ok p
  | text :: texts =>
    match p.word false text with
    | .error stop => .error stop
    | .ok p => p.rest texts

def all (p : Progress) : List String → Except Stop Progress
  | [] => .ok p
  | text :: texts =>
    if text = "--" then p.rest texts
    else
      match p.argument text with
      | .error stop => .error stop
      | .ok p => p.all texts

end Progress

/-- Reads the arguments behind the program's name. -/
def read (arguments : List String) : Except Stop Flags :=
  match Progress.all {} arguments with
  | .error stop => .error stop
  | .ok p => p.settle.map Progress.flags

end FieldInjection.CommandLine
