import FieldInjection.TypeScript.Reader.Parameter

/-!
# Import statements

Reads an import statement from the trees behind the word `import`. The words `type`, `as` and `from` are
also names, so what each of them is depends on its neighbours: `{ type }` and `{ type as x }` import a name
`type`, `{ type x }` and `{ type x as y }` import only a type. An import of a namespace alias and a call of
`import` are no import statements.
-/

namespace FieldInjection.TypeScript

/-- The node of a name, which may be a string. -/
def nameNode (field : String) (t : Tree) : SyntaxNode := inField field (ruleNode "identifier" [t] [])

/-- The node of a name in the list of an import statement. -/
def specifierNode? (trees : List Tree) : Option SyntaxNode :=
  let specifier := ruleNode "import_specifier" trees
  match trees with
  | [name] => some (specifier [nameNode "name" name])
  -- `type x`; any other first word is kept out of the name all the same
  | [modifier, name] => some (specifier [tokenNode modifier.first, nameNode "name" name])
  -- `x as y`, where `x` may be the name `type`
  | [name, word, localName] =>
    some (specifier [nameNode "name" name, tokenNode word.first, nameNode "alias" localName])
  | [modifier, name, word, localName] =>
    some (specifier [tokenNode modifier.first, nameNode "name" name, tokenNode word.first,
      nameNode "alias" localName])
  | _ => none

/-- The node of a list of names in braces. -/
def listNode (opening closing : Token) (inner : List Tree) : SyntaxNode :=
  bracketNode "named_imports" opening closing
    ((piecesOf .atArgument inner).filterMap fun piece => specifierNode? (withoutComments piece))

/-- The node of a clause over some trees. -/
def clauseNode (trees : List Tree) (parts : List SyntaxNode) : SyntaxNode :=
  ruleNode "import_clause" trees parts

/-- The part of a clause behind a default binding, if there is one, or the whole clause: a list or a namespace. -/
def groupNode? : List Tree → Option (SyntaxNode × List Tree)
  | .group .brace opening inner closing :: rest => some (listNode opening closing inner, rest)
  -- the star is followed by `as` and a name
  | star :: word :: name :: rest =>
    if star.isOperator "*" then some (ruleNode "namespace_import" [star, word, name] [nameNode "name" name], rest)
    else none
  | _ => none

/-- The clause at the beginning of some trees without comments, and the trees behind it. -/
def clauseNode? (trees : List Tree) : Option (SyntaxNode × List Tree) :=
  match groupNode? trees, trees with
  | some (group, rest), _ => some (.node ⟨"import_clause", true, none, group.range⟩ [group], rest)
  | none, name :: rest =>
    if name.word?.isNone then none
    else
      let binding := ruleNode "identifier" [name] []
      match rest with
      | comma :: behind =>
        if comma.isOperator "," then
          (groupNode? behind).map fun (group, rest) =>
            (.node ⟨"import_clause", true, none, ⟨name.start, group.stop⟩⟩ [binding, tokenNode comma.first, group], rest)
        else some (clauseNode [name] [binding], rest)
      | [] => some (clauseNode [name] [binding], rest)
  | none, [] => none

/-- A string in the source, with its quotes. -/
def string? : Tree → Option Token
  | .leaf t => if t.kind == .string then some t else none
  | _ => none

/-- Where a statement ends whose last required token ends at `stop`: behind its attributes and its
semicolon. -/
def statementEnd (stop : Nat) (ts : List Tree) : Nat :=
  let (stop, ts) :=
    match ts with
    | word :: attributes :: rest =>
      if (word.isWord "with" || word.isWord "assert") && attributes.isGroup .brace then
        (attributes.stop, rest)
      else (stop, ts)
    | _ => (stop, ts)
  match ts with
  | t :: _ => if t.isOperator ";" then t.stop else stop
  | [] => stop

/-- Whether the trees behind `import` begin with the modifier `type` of the whole statement. -/
def beginsWithTypeModifier : List Tree → Bool
  | t :: next :: rest =>
    t.isWord "type" &&
      (next.isGroup .brace || next.isOperator "*" || (string? next).isSome ||
        -- in `type from "m"` the word `type` is the name that is bound
        (next.word?.isSome && !(next.isWord "from" && (rest.head?.bind string?).isSome)))
  | _ => false

/-- The import statement that begins with a word at an offset, before the given trees. -/
def importNode? (word : Tree) (behind : List Tree) : Option SyntaxNode :=
  let ts := withoutComments behind
  let isTypeOnly := beginsWithTypeModifier ts
  let modifier := if isTypeOnly || ts.head?.any (Tree.isWord "typeof") then ts.take 1 else []
  let ts := ts.drop modifier.length
  let statement (clause : List SyntaxNode) (module : Token) (rest : List Tree) : SyntaxNode :=
    .node ⟨"import_statement", true, none, ⟨word.start, statementEnd module.stop rest⟩⟩
      (tokenNode word.first :: modifier.map (fun t => tokenNode t.first) ++ clause ++
        [.node ⟨"string", true, some "source", ⟨module.start, module.stop⟩⟩ []])
  match ts with
  | [] => none
  | t :: rest =>
    match string? t with
    -- a statement for its effects names its module right away
    | some module => some (statement [] module rest)
    | none =>
      match clauseNode? ts with
      | some (clause, word :: module :: rest) =>
        match word.isWord "from", string? module with
        | true, some module => some (statement [clause, tokenNode word.first] module rest)
        | _, _ => none
      | _ => none

end FieldInjection.TypeScript
