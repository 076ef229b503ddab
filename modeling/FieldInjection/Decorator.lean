import FieldInjection.ObjectLiteral

/-!
# Parameter decorators and resolution options

A decorator on a constructor parameter is classified once, by its name and arguments: four of them are
flags without arguments that turn into options of the accessor call, one names the token to look up in
place of the declared type, and all others mean nothing here.

The options of a parameter are the flags it carries, each once, in the order of their first occurrence.
-/

namespace FieldInjection

/-- A flag of the accessor call. -/
inductive ResolutionOption where
  | optional
  | selfOnly
  | skipSelf
  | host
  deriving DecidableEq, Repr

namespace ResolutionOption

/-- The option's key in the options literal. -/
def key : ResolutionOption → String
  | optional => "optional"
  | selfOnly => "self"
  | skipSelf => "skipSelf"
  | host => "host"

def ofKey? : String → Option ResolutionOption
  | "optional" => some optional
  | "self" => some selfOnly
  | "skipSelf" => some skipSelf
  | "host" => some host
  | _ => none

theorem ofKey?_key (o : ResolutionOption) : ofKey? o.key = some o := by
  cases o <;> rfl

end ResolutionOption

/-- What a decorator means for its parameter. -/
inductive DecoratorKind where
  | flag (option : ResolutionOption)
  /-- Look up this token instead of the declared type. -/
  | token (text : String)
  | unrecognized
  deriving DecidableEq, Repr

/-- The flag a decorator name stands for. -/
def ResolutionOption.ofDecorator? : String → Option ResolutionOption
  | "Optional" => some .optional
  | "Self" => some .selfOnly
  | "SkipSelf" => some .skipSelf
  | "Host" => some .host
  | _ => none

namespace DecoratorKind

/-- Classifies a decorator by name and arguments, `none` standing for one that is not called. A flag is
called without arguments, a token is the first argument of `Inject`. -/
def classify (name : String) : Option (List String) → DecoratorKind
  | none => unrecognized
  | some [] =>
    match ResolutionOption.ofDecorator? name with
    | some option => flag option
    | none => unrecognized
  | some (first :: _) => if name = "Inject" then token first else unrecognized

/-- The flag, if the decorator is one. -/
def option? : DecoratorKind → Option ResolutionOption
  | flag option => some option
  | _ => none

/-- The token, if the decorator names one. -/
def token? : DecoratorKind → Option String
  | token text => some text
  | _ => none

end DecoratorKind

/-- A decorator with its text in the source. -/
structure Decorator where
  text : String
  kind : DecoratorKind
  deriving DecidableEq, Repr

/-- The options switched on, without repetition, in the order they were switched on. -/
structure ResolutionOptions where
  enabled : List ResolutionOption := []
  deriving DecidableEq, Repr

namespace ResolutionOptions

def empty : ResolutionOptions := ⟨[]⟩

/-- Switches an option on; one that is on already keeps its place. -/
def enable (os : ResolutionOptions) (o : ResolutionOption) : ResolutionOptions :=
  if o ∈ os.enabled then os else ⟨os.enabled ++ [o]⟩

/-- Switches options on from left to right. -/
def ofList (os : List ResolutionOption) : ResolutionOptions := os.foldl enable empty

/-- The options that a parameter's decorators switch on. -/
def ofDecorators (ds : List Decorator) : ResolutionOptions :=
  ofList (ds.filterMap fun d => d.kind.option?)

/-- The options literal, or nothing when no option is on. -/
def render (os : ResolutionOptions) : String :=
  if os.enabled.isEmpty then ""
  else renderObjectLiteral (os.enabled.map fun o => ⟨o.key, .boolean true⟩)

end ResolutionOptions

end FieldInjection
