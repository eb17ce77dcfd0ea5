import ShapeSchema.Runner.Files

/-!
# File name patterns

A pattern is a path in which `?` stands for any character, `*` for any run of characters, `[abc]`
and `[!a-c]` for a character in or out of a set, and the component `**` for any directories. The
pattern as a whole must be well-formed, and so must be each of its components.
-/

namespace ShapeSchema.Runner

/-- Ranges of characters, both ends included. -/
abbrev CharSet := List (Char × Char)

/-- Whether a character is in one of the ranges. -/
def CharSet.contains (set : CharSet) (c : Char) : Bool :=
  set.any fun (first, last) => first.toNat ≤ c.toNat && c.toNat ≤ last.toNat

/-- The set written between brackets: a character, a dash and a character are a range. -/
def CharSet.ofChars : List Char → CharSet
  | first :: '-' :: last :: rest => (first, last) :: ofChars rest
  | c :: rest => (c, c) :: ofChars rest
  | [] => []

/-- A part of a pattern within a component. -/
inductive PatternToken where
  | char (c : Char)
  | anyChar
  | anySequence
  | within (set : CharSet)
  | outside (set : CharSet)

/-- Whether the character is one that the token stands for. -/
def PatternToken.admits : PatternToken → Char → Bool
  | char c, d => c == d
  | anyChar, _ => true
  | anySequence, _ => true
  | within set, d => set.contains d
  | outside set, d => !set.contains d

/-- What is wrong with a pattern. -/
inductive PatternFault where
  | tooManyStars
  | recursiveNotAlone
  | invalidRange

/-- What is wrong with a pattern, and where. -/
structure PatternError where
  position : Nat
  fault : PatternFault

/-- The message of a pattern error. -/
def PatternError.message (e : PatternError) : String :=
  "Pattern syntax error near position " ++ Nat.repr e.position ++ ": " ++
  match e.fault with
  | .tooManyStars => "wildcards are either regular `*` or recursive `**`"
  | .recursiveNotAlone => "recursive wildcards must form a single path component"
  | .invalidRange => "invalid range pattern"

namespace Pattern

/-- The characters up to a closing bracket that is not the first of them. -/
def splitBracket : List Char → Option (List Char)
  | [] => none
  | first :: rest =>
    if rest.contains ']' then some (first :: rest.takeWhile (· ≠ ']')) else none

/-- The token of a bracket, from what follows it, and how many characters that takes. -/
def bracket? : List Char → Option (PatternToken × Nat)
  | '!' :: rest => (splitBracket rest).map fun cs => (.outside (.ofChars cs), cs.length + 2)
  | rest => (splitBracket rest).map fun cs => (.within (.ofChars cs), cs.length + 1)

/-- The token of a run of stars that starts at `position` after `before`, and how many characters
follow the first star. Two stars must be a component of their own. -/
def stars (position : Nat) (before : Option Char) (rest : List Char) :
    Except PatternError (PatternToken × Nat) :=
  let more := (rest.takeWhile (· = '*')).length
  if more = 0 then .ok (.anySequence, 0)
  else if 1 < more then .error ⟨position + 2, .tooManyStars⟩
  else if before ≠ none ∧ before ≠ some '/' then .error ⟨position - 1, .recursiveNotAlone⟩
  else
    match rest.drop 1 with
    | [] | '/' :: _ => .ok (.anySequence, 1)
    | _ => .error ⟨position + 2, .recursiveNotAlone⟩

/-- Read a pattern from `position` on; the first `skip` characters belong to the token before. -/
def tokens : Nat → Nat → Option Char → List Char → Except PatternError (List PatternToken)
  | _, _, _, [] => .ok []
  | skip + 1, position, _, c :: rest => tokens skip (position + 1) (some c) rest
  | 0, position, before, c :: rest => do
    let (token, taken) ←
      if c = '?' then .ok (PatternToken.anyChar, 0)
      else if c = '*' then stars position before rest
      else if c = '[' then
        match bracket? rest with
        | some found => .ok found
        | none => .error ⟨position, .invalidRange⟩
      else .ok (.char c, 0)
    .ok (token :: (← tokens taken (position + 1) (some c) rest))

/-- The answers for all ends of a name, from the whole name down to nothing, where a token that
stands for one character precedes what `later` answers for. -/
def afterOne (token : PatternToken) : List Char → List Bool → List Bool
  | c :: name, _ :: later => (token.admits c && later.headD false) :: afterOne token name later
  | _, _ => [false]

/-- The answers for all ends of a name where any run of characters precedes what `later` answers
for: an end will do if it or a shorter one does. -/
def afterAny : List Bool → List Bool
  | [] => []
  | fits :: later =>
    let shorter := afterAny later
    (fits || shorter.headD false) :: shorter

/-- For each end of the name, from the whole name down to nothing, whether the tokens describe it.
Each token is set against each end once, however many runs of characters the pattern has. -/
def describedEnds (name : List Char) : List PatternToken → List Bool
  | [] => List.replicate name.length false ++ [true]
  | .anySequence :: rest => afterAny (describedEnds name rest)
  | token :: rest => afterOne token name (describedEnds name rest)

/-- Whether the tokens describe the name. -/
def describes (tokens : List PatternToken) (name : List Char) : Bool :=
  (describedEnds name tokens).headD false

/-- The text that the tokens stand for, if they are all plain characters. -/
def literal? : List PatternToken → Option (List Char)
  | [] => some []
  | .char c :: rest => (literal? rest).map (c :: ·)
  | _ => none

end Pattern

/-- A component of a pattern. -/
inductive Segment where
  /-- A plain name, or nothing between two slashes. -/
  | name (name : String)
  | wildcard (tokens : List PatternToken)
  /-- Any directories. -/
  | recursive

/-- A component from its text. -/
def Segment.ofText (text : List Char) : Except PatternError Segment := do
  if text = ['*', '*'] then .ok recursive
  else
    let tokens ← Pattern.tokens 0 0 none text
    match Pattern.literal? tokens with
    | some chars => .ok (.name (String.ofList chars))
    | none => .ok (wildcard tokens)

/-- A pattern. -/
structure Pattern where
  segments : List Segment
  /-- Whether only directories are meant: the pattern ends in a slash. -/
  directories : Bool

namespace Pattern

/-- Whether a text is a pattern, rather than a path. -/
def isPattern (text : String) : Bool :=
  text.toList.any fun c => c = '*' || c = '?' || c = '[' || c = '\x7b'

/-- The pattern that a text is. -/
def ofText (text : String) : Except PatternError Pattern := do
  let _ ← tokens 0 0 none text.toList
  let parts := splitSlash text.toList
  let directories := text.toList.getLast? = some '/'
  let segments ← (if directories then parts.dropLast else parts).mapM Segment.ofText
  .ok ⟨segments, directories⟩

end Pattern

/-- What was found in a directory or below it. -/
structure Found where
  path : String
  name : String
  isDirectory : Bool

mutual

/-- All that lies below an entry; each comes before what lies below it. -/
def Entry.beneath (path : String) : Entry → List Found
  | .file _ => []
  | .directory entries => belowAll path entries
termination_by structural entry => entry

/-- The entries of a directory and all that lies below them. -/
def belowAll (path : String) : List (String × Entry) → List Found
  | [] => []
  | (name, entry) :: rest =>
    ⟨joinPath path name, name, entry.isDirectory⟩ :: entry.beneath (joinPath path name) ++
      belowAll path rest
termination_by structural entries => entries

end

namespace Files

/-- Whether a path leads to a directory. -/
def isDirectory (files : Files) (path : String) : Bool :=
  match files.resolve path with
  | .ok entry => entry.isDirectory
  | .error _ => false

/-- Whether a path leads anywhere. -/
def leadsAnywhere (files : Files) (path : String) : Bool := (files.resolve path).toBool

/-- All that lies below a path. -/
def below (files : Files) (path : String) : List Found :=
  match files.resolve path with
  | .ok entry => entry.beneath path
  | .error _ => []

/-- The entries of a directory that the tokens describe. The directory itself and the one above it
count as entries only where the tokens start with a dot. -/
def described (files : Files) (tokens : List PatternToken) (path : String) : List String :=
  let listed := match files.resolve path with
    | .ok entry => (Table.keys entry.entries).map fun name => (name, joinPath path name)
    | .error _ => []
  let dots := match tokens with
    | .char '.' :: _ => [".", ".."].map fun name => (name, extendPath path name)
    | _ => []
  ((listed ++ dots).filter fun (name, _) => Pattern.describes tokens name.toList).map Prod.snd

/-- The paths that match the segments, seen from a directory. Plain names are not searched for but
looked up, except behind `**`, which looks through everything below the directory. -/
def matching (files : Files) : List Segment → String → List String
  | [], path => [path]
  | .name name :: rest, path =>
    let next := joinPath path name
    let there :=
      if name = "." ∨ name = ".." then files.isDirectory path else files.leadsAnywhere next
    if there then matching files rest next else []
  | .wildcard tokens :: rest, path =>
    if files.isDirectory path then
      (files.described tokens path).flatMap fun next => matching files rest next
    else []
  | [.recursive], path =>
    ((files.below path).filter fun found => found.isDirectory).map fun found => found.path
  | .recursive :: .recursive :: rest, path => matching files (.recursive :: rest) path
  | .recursive :: .name name :: rest, path =>
    ((files.below path).filter fun found => found.name = name).flatMap
      fun found => matching files rest found.path
  | .recursive :: .wildcard tokens :: rest, path =>
    ((files.below path).filter fun found => Pattern.describes tokens found.name.toList).flatMap
      fun found => matching files rest found.path
termination_by structural segments => segments

/-- The paths that match a pattern. -/
def expand (files : Files) (pattern : Pattern) : List String :=
  let paths := files.matching pattern.segments "."
  if pattern.directories then paths.filter files.isDirectory else paths

end Files

end ShapeSchema.Runner
