import FieldInjection.Accessor
import FieldInjection.Field

/-!
# Promoting parameters to fields

Every parameter of the constructor of a class becomes a field, inserted at the top of the class body in the
order of the parameters, and the parameter list is emptied. A constructor with overload signatures or with a
parameter that is not bound to a single name has no such form.
-/

namespace FieldInjection.FieldPromotion

/-- What happened to a class. -/
inductive Outcome where
  | unchanged
  | promoted (fields : Nat)
  deriving DecidableEq, Repr

/-- Why the parameters of a constructor cannot become fields. -/
inductive Obstacle where
  | overloads (count : Nat)
  | restParameter (name : String)
  | destructuredParameter (pattern : String)
  deriving DecidableEq, Repr

def Obstacle.message : Obstacle → String
  | overloads count => toString count ++ " constructor overload signature(s)"
  | restParameter name => "rest parameter `..." ++ name ++ "` has no field form"
  | destructuredParameter pattern => "destructured parameter `" ++ pattern ++ "` has no field form"

/-- What keeps a parameter from becoming a field. -/
def parameterObstacle? (p : Parameter) : Option Obstacle :=
  match p.binding with
  | .identifier => none
  | .rest => some (.restParameter p.name)
  | .destructured => some (.destructuredParameter p.name)

/-- What keeps the parameters of a constructor from becoming fields: the overloads, or else the first
parameter without a field form. -/
def obstacle? (k : Constructor) : Option Obstacle :=
  if k.overloads > 0 then some (.overloads k.overloads)
  else k.parameters.findSome? parameterObstacle?

def fieldOf (function className : String) (p : Parameter) : Except Refusal Field :=
  match Accessor.call function className p with
  | .error refusal => .error refusal
  | .ok initializer =>
    .ok ⟨p.name, p.declaredType, p.isReadonly, p.isOverride, p.scope, initializer⟩

/-- The fields of some parameters, or the refusal of the first that has none. -/
def fieldsOf (function className : String) : List Parameter → Except Refusal (List Field)
  | [] => .ok []
  | p :: ps =>
    match fieldOf function className p with
    | .error refusal => .error refusal
    | .ok field =>
      match fieldsOf function className ps with
      | .error refusal => .error refusal
      | .ok fields => .ok (field :: fields)

/-- The fields that a class would gain. -/
def planFields (function : String) (c : ClassDecl) : Except Refusal (List Field) :=
  fieldsOf function c.name c.parameters

/-- The text that is inserted at the beginning of a class body: a line for each field, and an empty line
before the members if there are any. -/
def fieldBlock (c : ClassDecl) (fields : List Field) : String :=
  String.join (fields.map fun f => c.lineEnding.text ++ c.memberIndent ++ f.render) ++
    if c.hasMembers then c.lineEnding.text else ""

/-- The ranges in which the parameters are taken out, from `start` to `stop`: each reaches to the start of
the next parameter, the last one to the end, so the separators go too. -/
def removalRanges (start stop : Nat) : List Parameter → List TextRange
  | [] => []
  | [_] => [⟨start, stop⟩]
  | _ :: next :: rest =>
    ⟨start, next.range.start⟩ :: removalRanges next.range.start stop (next :: rest)

/-- The edits that turn the parameters of a constructor into the given fields. -/
def edits (c : ClassDecl) (k : Constructor) (fields : List Field) : List PlannedEdit :=
  ⟨c.file, .insertFields c.name (fields.map Field.name), .insert c.bodyStart (fieldBlock c fields)⟩ ::
    List.zipWith
      (fun p range => ⟨c.file, .removeParameter c.name p.name, .delete range⟩)
      k.parameters (removalRanges k.parameterList.start k.parameterList.stop k.parameters)

/-- Plans the promotion of the parameters of a class. -/
def promote (function : String) (c : ClassDecl) (log : EditLog) :
    Except Refusal (EditLog × Outcome) :=
  match c.constructor? with
  | none => .ok (log, .unchanged)
  | some k =>
    if k.parameters.isEmpty then .ok (log, .unchanged)
    else
      -- the log is left alone until every field has its initializer
      match obstacle? k with
      | some obstacle => .error (.unsupportedConstructor c.name obstacle.message)
      | none =>
        match planFields function c with
        | .error refusal => .error refusal
        | .ok fields => .ok ((edits c k fields).foldl EditLog.push log, .promoted fields.length)

end FieldInjection.FieldPromotion
