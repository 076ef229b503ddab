import FieldInjection.Text.Range
import FieldInjection.TypeScript.Reader.Lexer

/-!
# Token trees

The tokens of a text, nested by their brackets. A bracket without a partner stays a token by itself and
makes the text unbalanced; what was read behind an opening bracket without a partner then belongs to the
level around it.
-/

namespace FieldInjection.TypeScript

/-- A token, or the trees between two brackets. -/
inductive Tree where
  | leaf (token : Token)
  | group (bracket : Bracket) (opening : Token) (inner : List Tree) (closing : Token)
  deriving Repr

namespace Tree

def first : Tree → Token
  | leaf t => t
  | group _ opening _ _ => opening

def last : Tree → Token
  | leaf t => t
  | group _ _ _ closing => closing

def start (t : Tree) : Nat := t.first.start

/-- The offset just behind the tree. -/
def stop (t : Tree) : Nat := t.last.stop

mutual

/-- The tokens of a tree, from left to right. -/
def tokens : Tree → List Token
  | leaf t => [t]
  | group _ opening inner closing => opening :: tokensOfList inner ++ [closing]

/-- The tokens of some trees, from left to right. -/
def tokensOfList : List Tree → List Token
  | [] => []
  | t :: ts => t.tokens ++ tokensOfList ts

end

def isComment : Tree → Bool
  | leaf t => t.kind == .comment
  | _ => false

/-- The word, if the tree is one. -/
def word? : Tree → Option String
  | leaf t => if t.kind == .word then some t.text else none
  | _ => none

def isWord (w : String) (t : Tree) : Bool := t.word? == some w

def isOperator (sign : String) : Tree → Bool
  | leaf t => t.kind == .operator && t.text == sign
  | _ => false

def isGroup (b : Bracket) : Tree → Bool
  | leaf _ => false
  | group bracket _ _ _ => bracket == b

def isEmptyGroup (b : Bracket) : Tree → Bool
  | group bracket _ [] _ => bracket == b
  | _ => false

end Tree

/-- The trees without the comments among them. -/
def withoutComments (ts : List Tree) : List Tree := ts.filter fun t => !t.isComment

/-- The trees without the comments in front. -/
def skipComments (ts : List Tree) : List Tree := ts.dropWhile Tree.isComment

/-- The trees without the comments at the end. -/
def trimComments (ts : List Tree) : List Tree := (ts.reverse.dropWhile Tree.isComment).reverse

/-- An opening bracket that waits for its partner, with the trees before it, last one first. -/
structure OpenGroup where
  bracket : Bracket
  opening : Token
  before : List Tree

/-- Token trees with the mark whether all brackets have their partners. -/
structure Nesting where
  trees : List Tree
  balanced : Bool

/-- Nests tokens. `around` holds the open brackets, innermost first, and `level` the trees of the innermost
level, last one first. -/
def nestFrom (around : List OpenGroup) (level : List Tree) (balanced : Bool) :
    List Token → Nesting
  | [] =>
    -- an opener that is still waiting becomes a leaf before what was read behind it
    ⟨(around.foldl (fun level g => level ++ .leaf g.opening :: g.before) level).reverse,
      balanced && around.isEmpty⟩
  | t :: ts =>
    match t.kind with
    | .opener b => nestFrom (⟨b, t, level⟩ :: around) [] balanced ts
    | .closer b =>
      match around with
      | [] => nestFrom [] (.leaf t :: level) false ts
      | g :: around =>
        -- a closing bracket of another kind closes nothing
        if g.bracket = b then
          nestFrom around (.group b g.opening level.reverse t :: g.before) balanced ts
        else nestFrom (g :: around) (.leaf t :: level) false ts
    | _ => nestFrom around (.leaf t :: level) balanced ts

/-- The token trees of a sequence of tokens. -/
def nest (tokens : List Token) : Nesting := nestFrom [] [] true tokens

/-- All brackets have their partners and no token is malformed. -/
def Nesting.isWellFormed (n : Nesting) (tokens : List Token) : Bool :=
  n.balanced && !tokens.any fun t => t.kind == .malformed

end FieldInjection.TypeScript
