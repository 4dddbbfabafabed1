import Mathlib

namespace Gale.VerusStrip

-- From tools/verus-strip/src/lib.rs. The trees are those of proc_macro2; a position in a
-- vector of trees is the list from there on.

inductive Delimiter where
  | Parenthesis
  | Brace
  | Bracket
  | None
  deriving DecidableEq, Repr

inductive TokenTree where
  | Ident (name : String)
  | Punct (char : Char) (joint : Bool)
  | Literal (text : String)
  | Group (delimiter : Delimiter) (stream : List TokenTree)
  deriving Repr

-- Finding the macro in the text.

def splitFirst (pattern : List Char) : List Char → Option (List Char × List Char)
  | [] => none
  | c :: cs =>
    if pattern.isPrefixOf (c :: cs) then some ([], (c :: cs).drop pattern.length)
    else (splitFirst pattern cs).map fun (before, after) => (c :: before, after)

-- The brace counter knows line comments and strings.
inductive Mode where
  | Code
  | LineComment
  | Text
  | Escape

def advance (mode : Mode) (depth : Nat) (c : Char) (next : Option Char) : Mode × Nat :=
  match mode with
  | .Code =>
    if c = '{' then (.Code, depth + 1)
    else if c = '}' then (.Code, depth - 1)
    else if c = '/' ∧ next = some '/' then (.LineComment, depth)
    else if c = '"' then (.Text, depth)
    else (.Code, depth)
  | .LineComment => (if c = '\n' then .Code else .LineComment, depth)
  | .Text => (if c = '"' then .Code else if c = '\\' then .Escape else .Text, depth)
  | .Escape => (.Text, depth)

-- The text up to the brace that brings the depth to zero, and the text after it.
def scan : Mode → Nat → List Char → Option (List Char × List Char)
  | _, _, [] => none
  | mode, depth, c :: cs =>
    let (mode, depth) := advance mode depth c cs.head?
    if depth = 0 then some ([], cs)
    else (scan mode depth cs).map fun (body, after) => (c :: body, after)

def splitAtVerusMacro (input : List Char) : List Char × List Char × List Char :=
  match splitFirst "verus!".toList input with
  | some (before, rest) =>
    match splitFirst ['{'] rest with
    | some (_, inside) =>
      match scan .Code 1 inside with
      | some (body, after) => (before, body, after)
      | none => (input, [], [])
    | none => (input, [], [])
  | none => (input, [], [])

def lines : List Char → List (List Char)
  | [] => []
  | c :: cs =>
    if c = '\n' then [] :: lines cs
    else
      match lines cs with
      | [] => [[c]]
      | line :: rest => (c :: line) :: rest

def trimStart (line : List Char) : List Char := line.dropWhile Char.isWhitespace

def isVstdImport (line : List Char) : Bool := "use vstd".toList.isPrefixOf (trimStart line)

def joinLines (ls : List (List Char)) : List Char := List.intercalate ['\n'] ls

def stripVstdImports (text : List Char) : List Char :=
  joinLines ((lines text).filter fun line => !isVstdImport line)

def stripLeadingDocComments (text : List Char) : List Char :=
  joinLines ((lines text).dropWhile fun line =>
    (trimStart line).isEmpty || "//!".toList.isPrefixOf (trimStart line))

def ITEM_KEYWORDS : List String :=
  ["pub", "fn", "struct", "enum", "impl", "use", "const", "type", "trait", "mod", "static",
    "unsafe", "extern"]

def isItemKeyword (s : String) : Bool := s ∈ ITEM_KEYWORDS

def isItemStart : List TokenTree → Bool
  | .Ident s :: _ => isItemKeyword s
  | .Punct c _ :: _ => c = '#'
  | _ => false

def collectIdents : Nat → List TokenTree → List String
  | n + 1, .Ident s :: rest => s :: collectIdents n rest
  | _, _ => []

def isVerusItem (idents : List String) : Bool :=
  ["pub", "open", "spec", "fn"].isPrefixOf idents || ["pub", "closed", "spec", "fn"].isPrefixOf idents ||
    ["pub", "proof", "fn"].isPrefixOf idents || ["proof", "fn"].isPrefixOf idents

-- The scan for the end of an item; last is what follows the last brace group so far.
def itemEnd : Option (List TokenTree) → List TokenTree → Option (List TokenTree)
  | last, [] => last
  | last, tree :: rest =>
    match tree with
    | .Group .Brace _ => if isItemStart rest || rest.isEmpty then some rest else itemEnd (some rest) rest
    | .Ident s => if last.isSome && isItemKeyword s then last else itemEnd last rest
    | _ => itemEnd last rest

def trySkipVerusItem (trees : List TokenTree) : Option (List TokenTree) :=
  if isVerusItem (collectIdents 5 trees) then itemEnd none trees else none

-- Clauses.

def CLAUSE_KEYWORDS : List String := ["requires", "ensures", "recommends", "invariant", "decreases"]

def isVerusClauseAt : List TokenTree → Bool
  | .Ident s :: _ => s ∈ CLAUSE_KEYWORDS
  | _ => false

-- What stands before a brace group that is taken for the body.
def endsClause : TokenTree → Bool
  | .Punct c _ => c = ','
  | .Group d _ => d = .Brace
  | _ => false

def skipClause : TokenTree → List TokenTree → List TokenTree
  | _, [] => []
  | prev, tree :: rest =>
    match tree with
    | .Group .Brace _ => if endsClause prev then tree :: rest else skipClause tree rest
    | _ => skipClause tree rest

-- Statements.

def skipSemicolon : List TokenTree → List TokenTree
  | [] => []
  | tree :: rest =>
    match tree with
    | .Punct c _ => if c = ';' then rest else skipSemicolon rest
    | _ => skipSemicolon rest

def dropSemicolon : List TokenTree → List TokenTree
  | .Punct c joint :: rest => if c = ';' then rest else .Punct c joint :: rest
  | trees => trees

def isVerusAssertAt : List TokenTree → Bool
  | .Ident s :: .Group d _ :: _ => s = "assert" ∧ d = .Parenthesis
  | _ => false

-- The optional by(..).
def skipBy : List TokenTree → List TokenTree
  | .Ident s :: rest =>
    if s = "by" then
      match rest with
      | .Group .Parenthesis _ :: after => after
      | _ => rest
    else .Ident s :: rest
  | trees => trees

-- From the tree after assert(..).
def skipVerusAssert (trees : List TokenTree) : List TokenTree :=
  match skipBy trees with
  | .Ident s :: rest => if s = "requires" then skipSemicolon rest else .Ident s :: rest
  | trees => dropSemicolon trees

def isVerusAssertForallAt : List TokenTree → Bool
  | .Ident s :: .Ident t :: _ => s = "assert" ∧ t = "forall"
  | _ => false

def afterBrace : List TokenTree → Option (List TokenTree)
  | .Group .Brace _ :: after => some after
  | _ => none

-- What follows the first by {..}.
def findBy : List TokenTree → Option (List TokenTree)
  | [] => none
  | tree :: rest =>
    match tree with
    | .Ident s =>
      if s = "by" then
        match afterBrace rest with
        | some after => some (dropSemicolon after)
        | none => findBy rest
      else findBy rest
    | _ => findBy rest

def skipVerusAssertForall (trees : List TokenTree) : List TokenTree := (findBy trees).getD trees

def isProofBlockAt : List TokenTree → Bool
  | .Ident s :: .Group d _ :: _ => s = "proof" ∧ d = .Brace
  | _ => false

def isLetGhostAt : List TokenTree → Bool
  | .Ident s :: .Ident t :: _ => s = "let" ∧ t = "ghost"
  | _ => false

def isAssumeSpecificationAt : List TokenTree → Bool
  | .Ident s :: _ => s = "assume_specification"
  | _ => false

-- Attributes, by how their text starts.

def isAttrAt (starts : List (List Char)) : List TokenTree → Bool
  | .Punct c _ :: .Group .Bracket (.Ident s :: _) :: _ =>
    c = '#' && starts.any fun start => start.isPrefixOf s.toList
  | _ => false

def isDocAttrAt : List TokenTree → Bool := isAttrAt ["doc".toList]

def isVerifierAttrAt : List TokenTree → Bool := isAttrAt ["verifier".toList, "trigger".toList]

def skipDocAttrs : List TokenTree → List TokenTree
  | hash :: attr :: rest =>
    if isDocAttrAt (hash :: attr :: rest) then skipDocAttrs rest else hash :: attr :: rest
  | trees => trees

-- The type of a named return value, and what follows.
def tryStripNamedReturn : List TokenTree → Option (List TokenTree × List TokenTree)
  | .Punct c joint :: .Punct d _ :: .Group .Parenthesis (.Ident _ :: .Punct colon _ :: t :: ts) :: rest =>
    if c = '-' ∧ joint = true ∧ d = '>' ∧ colon = ':' then some (t :: ts, rest) else none
  | _ => none

-- One turn of the loop of strip_body.

inductive Action where
  | Skip (rest : List TokenTree)
  | SkipSpecification (rest : List TokenTree)
  | Emit (tokens rest : List TokenTree)
  | Enter (stream rest : List TokenTree)

def arrow : List TokenTree := [.Punct '-' true, .Punct '>' false]

def skipDocumentedItem (trees : List TokenTree) : Option (List TokenTree) :=
  if isDocAttrAt trees then trySkipVerusItem (skipDocAttrs trees) else none

-- Brace groups are stripped inside, other trees are kept as they are.
def passOn (tree : TokenTree) (rest : List TokenTree) : Action :=
  match tree with
  | .Group .Brace stream => .Enter stream rest
  | _ => .Emit [tree] rest

def action (tree : TokenTree) (rest : List TokenTree) : Action :=
  match skipDocumentedItem (tree :: rest) with
  | some after => .Skip after
  | none =>
  match trySkipVerusItem (tree :: rest) with
  | some after => .Skip after
  | none =>
  if isVerusClauseAt (tree :: rest) then .Skip (skipClause tree rest)
  else if isVerusAssertAt (tree :: rest) then .Skip (skipVerusAssert rest.tail)
  else if isVerusAssertForallAt (tree :: rest) then .Skip (skipVerusAssertForall rest.tail)
  else if isVerifierAttrAt (tree :: rest) then .Skip rest.tail
  else if isProofBlockAt (tree :: rest) then .Skip rest.tail
  else if isLetGhostAt (tree :: rest) then .Skip (skipSemicolon rest.tail)
  else if isAssumeSpecificationAt (tree :: rest) then .SkipSpecification (skipSemicolon rest)
  else
  match tryStripNamedReturn (tree :: rest) with
  | some (type, after) => .Emit (arrow ++ type) after
  | none => passOn tree rest

-- assume_specification takes back a pub that was just put out.
def dropPub (out : List TokenTree) : List TokenTree :=
  match out.getLast? with
  | some (.Ident s) => if s = "pub" then out.dropLast else out
  | _ => out

-- Every turn uses up a tree, so that the number of trees at all depths is fuel enough.
def stripLoop : Nat → List TokenTree → List TokenTree → List TokenTree
  | 0, _, out => out
  | _, [], out => out
  | fuel + 1, tree :: rest, out =>
    match action tree rest with
    | .Skip after => stripLoop fuel after out
    | .SkipSpecification after => stripLoop fuel after (dropPub out)
    | .Emit tokens after => stripLoop fuel after (out ++ tokens)
    | .Enter stream after =>
      stripLoop fuel after (out ++ [.Group .Brace (stripLoop fuel stream [])])

mutual

def TokenTree.size : TokenTree → Nat
  | .Group _ stream => sizes stream + 1
  | _ => 1

def sizes : List TokenTree → Nat
  | [] => 0
  | tree :: rest => tree.size + sizes rest

end

def stripBody (trees : List TokenTree) : List TokenTree := stripLoop (sizes trees) trees []

-- The tokens of the stripped file, for the tokenizer lex. What follows the macro is not used.
def stripFile (lex : List Char → List TokenTree) (input : List Char) : List TokenTree :=
  let (preamble, body, _after) := splitAtVerusMacro input
  lex (stripVstdImports preamble) ++ stripBody (lex (stripLeadingDocComments body))

end Gale.VerusStrip
