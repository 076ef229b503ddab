import FieldInjection.Failure
import FieldInjection.Source.Class

/-!
# Accessor calls

The initializer of a field is a call of the accessor function. Its first argument is the token of the
first decorator that names one, or else the declared type; its second argument, if the parameter carries
flags, is an object literal with the flags as options. A parameter with neither token nor type is
malformed.
-/

namespace FieldInjection.Accessor

/-- What a parameter looks up. -/
def target (className : String) (p : Parameter) : Except Refusal String :=
  match p.decorators.findSome? fun d => d.kind.token? with
  | some token => .ok token
  | none =>
    match p.declaredType with
    | some type => .ok type
    | none => .error (.malformedParameter className p.name)

/-- The call that looks a parameter up. -/
def call (function className : String) (p : Parameter) : Except Refusal String :=
  match target className p with
  | .error refusal => .error refusal
  | .ok target =>
    let options := (ResolutionOptions.ofDecorators p.decorators).render
    .ok <|
      if options.isEmpty then function ++ "(" ++ target ++ ")"
      else function ++ "(" ++ target ++ "," ++ options ++ ")"

end FieldInjection.Accessor
