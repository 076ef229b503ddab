/-!
# Glob patterns

A glob pattern is read into tokens. `?` and `*` stand for bytes, `[…]` for a set of characters, `{…,…}`
for alternatives that may be nested, and a backslash takes the next character as it is. A double star
stands for any number of whole directories where it fills a stretch between slashes, and for two single
stars anywhere else; the slashes around it belong to it.
-/

namespace FieldInjection.Glob

/-- A part of a glob pattern. -/
inductive Token where
  | literal (char : Char)
  | anyOne
  | anyMany
  /-- A double star at the beginning, with the slash behind it. -/
  | leadingDirectories
  /-- A slash and a double star at the end. -/
  | trailingDirectories
  /-- A double star with the slashes on both sides. -/
  | innerDirectories
  | set (negated : Bool) (ranges : List (Char × Char))
  | alternatives (branches : List (List Token))
  deriving Repr

/-- Why a text is not a glob pattern. -/
inductive PatternError where
  | unclosedSet
  | invalidRange (low high : Char)
  | unopenedAlternatives
  | unclosedAlternatives
  | danglingEscape
  deriving DecidableEq, Repr

/-- The tokens of a branch, last one first. -/
abbrev Branch := List Token

/-- An alternation that is being read: what stood before it and its finished branches, last one first. -/
structure OpenAlternation where
  before : Branch
  finished : List (List Token)

/-- The reader's state: the alternations around the current branch, innermost first, the branch itself,
and the character read last. -/
structure Reader where
  around : List OpenAlternation
  branch : Branch
  last : Option Char

def Reader.start : Reader := ⟨[], [], none⟩

/-- Adds a token to the current branch. -/
def Reader.push (r : Reader) (t : Token) : Reader := { r with branch := t :: r.branch }

/-- Replaces the last token of the branch, a slash, by a token that includes it. A double star that
follows another one is absorbed by it when it stands at the beginning or the end. -/
def Reader.absorbSlash (r : Reader) (t : Token) : Reader :=
  match r.branch with
  | .leadingDirectories :: _ => r
  | .trailingDirectories :: _ => r
  | _ :: rest => { r with branch := t :: rest }
  | [] => { r with branch := [t] }

/-- Reads the rest of a set up to its closing bracket: the ranges, and what follows. `first` tells that
nothing has been read yet, `open?` that a range waits for its upper end; `ranges` come last one first. -/
def readSet : List Char → (first isOpen : Bool) → List (Char × Char) →
    Except PatternError (List (Char × Char) × List Char)
  | [], _, _, _ => .error .unclosedSet
  | c :: cs, first, isOpen, ranges =>
    -- a bracket or a hyphen right at the beginning is a member
    if c = ']' ∧ !first then
      .ok ((if isOpen then ('-', '-') :: ranges else ranges).reverse, cs)
    else if c = '-' ∧ !first ∧ !isOpen then readSet cs false true ranges
    else
      match isOpen, ranges with
      -- the upper end of a range
      | true, (low, _) :: rest =>
        if c < low then .error (.invalidRange low c) else readSet cs false false ((low, c) :: rest)
      | _, _ => readSet cs false false ((c, c) :: ranges)

theorem readSet_length {cs : List Char} {first isOpen : Bool} {ranges out : List (Char × Char)}
    {rest : List Char} (h : readSet cs first isOpen ranges = .ok (out, rest)) :
    rest.length < cs.length := by
  induction cs generalizing first isOpen ranges with
  | nil => simp [readSet] at h
  | cons c cs ih =>
    unfold readSet at h
    split at h
    · simp only [Except.ok.injEq, Prod.mk.injEq] at h
      simp [← h.2]
    · split at h
      · have := ih h
        simp only [List.length_cons]
        omega
      · split at h
        · split at h
          · simp at h
          · have := ih h
            simp only [List.length_cons]
            omega
        · have := ih h
          simp only [List.length_cons]
          omega

/-- Whether a set is negated, and the text of the set behind the sign of negation. -/
def readNegation : List Char → Bool × List Char
  | [] => (false, [])
  | c :: cs => if c = '!' ∨ c = '^' then (true, cs) else (false, c :: cs)

theorem readNegation_length (cs : List Char) : (readNegation cs).2.length ≤ cs.length := by
  cases cs with
  | nil => simp [readNegation]
  | cons c cs =>
    simp only [readNegation]
    split <;> simp

/-- What a double star means, between the character before it and the rest of the pattern: the token it
becomes and the rest behind it, or `none` when it is two single stars. -/
def Reader.directories? (r : Reader) (before : Option Char) (rest : List Char) :
    Option (Token × List Char) :=
  let nested := !r.around.isEmpty
  if r.branch.isEmpty then
    match rest with
    | [] => some (.leadingDirectories, [])
    | c :: rest' => if c = '/' then some (.leadingDirectories, rest') else none
  else if before = some '/' ∨ (nested ∧ (before = some ',' ∨ before = some '{')) then
    match rest with
    | [] => some (.trailingDirectories, [])
    | c :: rest' =>
      if c = '/' then some (.innerDirectories, rest')
      else if nested ∧ (c = ',' ∨ c = '}') then some (.trailingDirectories, c :: rest')
      else none
  else none

theorem Reader.directories?_length {r : Reader} {before : Option Char} {rest rest' : List Char}
    {t : Token} (h : r.directories? before rest = some (t, rest')) :
    rest'.length ≤ rest.length := by
  unfold Reader.directories? at h
  cases rest with
  | nil =>
    simp only at h
    split at h
    · simp_all
    · split at h <;> simp_all
  | cons c cs =>
    simp only at h
    split at h
    · split at h
      · simp only [Option.some.injEq, Prod.mk.injEq] at h
        simp [← h.2]
      · simp at h
    · split at h
      · split at h
        · simp only [Option.some.injEq, Prod.mk.injEq] at h
          simp [← h.2]
        · split at h
          · simp only [Option.some.injEq, Prod.mk.injEq] at h
            simp [← h.2]
          · simp at h
      · simp at h

/-- Adds a double star that stands for directories. -/
def Reader.pushDirectories (r : Reader) : Token → Reader
  | .leadingDirectories => r.push .leadingDirectories
  | t => r.absorbSlash t

def readTokens (r : Reader) : List Char → Except PatternError Reader
  | [] => .ok r
  | '?' :: cs => readTokens { r.push .anyOne with last := some '?' } cs
  | '*' :: '*' :: cs =>
    match h : r.directories? r.last cs with
    | some (t, rest) =>
      have := Reader.directories?_length h
      -- the slash behind the double star may have been read along
      let last := if rest.length < cs.length then '/' else '*'
      readTokens { r.pushDirectories t with last := some last } rest
    | none => readTokens { (r.push .anyMany).push .anyMany with last := some '*' } cs
  | '*' :: cs => readTokens { r.push .anyMany with last := some '*' } cs
  | '[' :: cs =>
    match h : readSet (readNegation cs).2 true false [] with
    | .error e => .error e
    | .ok (ranges, rest) =>
      have := readSet_length h
      have := readNegation_length cs
      readTokens { r.push (.set (readNegation cs).1 ranges) with last := some ']' } rest
  | '{' :: cs => readTokens ⟨⟨r.branch, []⟩ :: r.around, [], some '{'⟩ cs
  | '}' :: cs =>
    -- the alternation becomes a token of the branch that it stands in
    match r.around with
    | [] => .error .unopenedAlternatives
    | a :: around =>
      let branches := (r.branch.reverse :: a.finished).reverse
      readTokens ⟨around, .alternatives branches :: a.before, some '}'⟩ cs
  | ',' :: cs =>
    match r.around with
    -- outside alternations a comma stands for itself
    | [] => readTokens { r.push (.literal ',') with last := some ',' } cs
    | a :: around =>
      readTokens ⟨{ a with finished := r.branch.reverse :: a.finished } :: around, [], some ','⟩ cs
  | '\\' :: [] => .error .danglingEscape
  | '\\' :: c :: cs => readTokens { r.push (.literal c) with last := some c } cs
  | c :: cs => readTokens { r.push (.literal c) with last := some c } cs
termination_by cs => cs.length
decreasing_by all_goals (simp only [List.length_cons]; omega)

def readPattern (pattern : String) : Except PatternError (List Token) :=
  match readTokens .start pattern.toList with
  | .error e => .error e
  | .ok r => if r.around.isEmpty then .ok r.branch.reverse else .error .unclosedAlternatives

end FieldInjection.Glob
