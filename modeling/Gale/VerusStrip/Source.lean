import Gale.VerusStrip

namespace Gale.VerusStrip

-- The source that the tool reads: executable code with ghost constructs in between.

inductive Keyword where
  | Requires
  | Ensures
  | Recommends
  | Invariant
  | Decreases

def Keyword.name : Keyword → String
  | .Requires => "requires"
  | .Ensures => "ensures"
  | .Recommends => "recommends"
  | .Invariant => "invariant"
  | .Decreases => "decreases"

-- How a ghost function begins; there are more ways than the tool knows.
inductive GhostForm where
  | PubOpenSpec
  | PubClosedSpec
  | PubProof
  | Proof
  | Other (trees : List TokenTree)

def GhostForm.trees : GhostForm → List TokenTree
  | .PubOpenSpec => [.Ident "pub", .Ident "open", .Ident "spec", .Ident "fn"]
  | .PubClosedSpec => [.Ident "pub", .Ident "closed", .Ident "spec", .Ident "fn"]
  | .PubProof => [.Ident "pub", .Ident "proof", .Ident "fn"]
  | .Proof => [.Ident "proof", .Ident "fn"]
  | .Other trees => trees

def GhostForm.Known (form : GhostForm) : Prop := ∀ trees, form ≠ .Other trees

inductive AttrName where
  | Verifier
  | Trigger

def AttrName.name : AttrName → String
  | .Verifier => "verifier"
  | .Trigger => "trigger"

inductive GhostAttr where
  | Verifier (name : AttrName) (args : List TokenTree)
  | Doc (text : String)

inductive Node where
  | Plain (tree : TokenTree)
  | Block (nodes : List Node)
  -- the clauses of a function or a loop, from the first keyword to its body
  | Spec (keyword : Keyword) (clauses : List TokenTree) (body : List Node)
  -- the clauses of a function that is only declared
  | Declaration (keyword : Keyword) (clauses : List TokenTree)
  | GhostFn (attrs : List GhostAttr) (form : GhostForm) (head body : List TokenTree)
  | VerifierAttr (name : AttrName) (args : List TokenTree)
  -- assert(..); with an optional by(..) and requires
  | Assert (condition : List TokenTree) (prover needs : Option (List TokenTree))
  | AssertBy (condition proof : List TokenTree) (semicolon : Bool)
  | AssertForall (condition proof : List TokenTree) (semicolon : Bool)
  | ProofBlock (proof : List TokenTree)
  | GhostLet (binding : List TokenTree)
  | NamedReturn (name : String) (first : TokenTree) (type : List TokenTree)

def semicolons (semicolon : Bool) : List TokenTree := if semicolon then [.Punct ';' false] else []

def verifierAttr (name : AttrName) (args : List TokenTree) : List TokenTree :=
  [.Punct '#' false, .Group .Bracket (.Ident name.name :: args)]

def GhostAttr.render : GhostAttr → List TokenTree
  | .Verifier name args => verifierAttr name args
  | .Doc text => [.Punct '#' false, .Group .Bracket [.Ident "doc", .Punct '=' false, .Literal text]]

mutual

def Node.render : Node → List TokenTree
  | .Plain tree => [tree]
  | .Block nodes => [.Group .Brace (render nodes)]
  | .Spec keyword clauses body =>
    .Ident keyword.name :: (clauses ++ [.Group .Brace (render body)])
  | .Declaration keyword clauses => .Ident keyword.name :: (clauses ++ [.Punct ';' false])
  | .GhostFn attrs form head body =>
    attrs.flatMap GhostAttr.render ++ (form.trees ++ (head ++ [.Group .Brace body]))
  | .VerifierAttr name args => verifierAttr name args
  | .Assert condition prover needs =>
    .Ident "assert" :: .Group .Parenthesis condition ::
      ((prover.elim [] fun args => [.Ident "by", .Group .Parenthesis args]) ++
        ((needs.elim [] fun facts => .Ident "requires" :: facts) ++ [.Punct ';' false]))
  | .AssertBy condition proof semicolon =>
    [.Ident "assert", .Group .Parenthesis condition, .Ident "by", .Group .Brace proof] ++
      semicolons semicolon
  | .AssertForall condition proof semicolon =>
    .Ident "assert" :: .Ident "forall" ::
      (condition ++ ([.Ident "by", .Group .Brace proof] ++ semicolons semicolon))
  | .ProofBlock proof => [.Ident "proof", .Group .Brace proof]
  | .GhostLet binding => .Ident "let" :: .Ident "ghost" :: (binding ++ [.Punct ';' false])
  | .NamedReturn name first type =>
    arrow ++ [.Group .Parenthesis (.Ident name :: .Punct ':' false :: first :: type)]

def render : List Node → List TokenTree
  | [] => []
  | node :: rest => node.render ++ render rest

end

-- The executable tokens, with what is left of each assert .. by { .. }.
mutual

def Node.kept (left : List TokenTree → Bool → List TokenTree) : Node → List TokenTree
  | .Plain tree => [tree]
  | .Block nodes => [.Group .Brace (kept left nodes)]
  | .Spec _ _ body => [.Group .Brace (kept left body)]
  | .Declaration _ _ => [.Punct ';' false]
  | .AssertBy _ proof semicolon => left proof semicolon
  | .NamedReturn _ first type => arrow ++ first :: type
  | _ => []

def kept (left : List TokenTree → Bool → List TokenTree) : List Node → List TokenTree
  | [] => []
  | node :: rest => node.kept left ++ kept left rest

end

def executable (nodes : List Node) : List TokenTree := kept (fun _ _ => []) nodes

-- Clauses that the tool sees the end of: they end in a comma or a brace, and no brace group
-- inside follows one of these.
def Terminated : TokenTree → List TokenTree → Prop
  | prev, [] => endsClause prev = true
  | prev, tree :: rest =>
    match tree with
    | .Group .Brace _ => endsClause prev = false ∧ Terminated tree rest
    | _ => Terminated tree rest

-- The head of a ghost function: after a brace group nothing looks like another item.
def Spans : Bool → List TokenTree → Prop
  | _, [] => True
  | seen, tree :: rest =>
    match tree with
    | .Group .Brace _ => isItemStart rest = false ∧ Spans true rest
    | .Ident s => (seen = true → isItemKeyword s = false) ∧ Spans seen rest
    | _ => Spans seen rest

-- An item keyword comes before the next brace group, or neither comes.
def Clears : List TokenTree → Prop
  | [] => True
  | tree :: rest =>
    match tree with
    | .Group .Brace _ => False
    | .Ident s => isItemKeyword s = true ∨ Clears rest
    | _ => Clears rest

def NoSemicolon : List TokenTree → Prop
  | [] => True
  | tree :: rest =>
    match tree with
    | .Punct c _ => c ≠ ';' ∧ NoSemicolon rest
    | _ => NoSemicolon rest

def NoBy : List TokenTree → Prop
  | [] => True
  | tree :: rest =>
    match tree with
    | .Ident s => (s = "by" → afterBrace rest = none) ∧ NoBy rest
    | _ => NoBy rest

-- The documentation comes after the other attributes.
def DocsLast : List GhostAttr → Prop
  | [] => True
  | .Verifier _ _ :: rest => DocsLast rest
  | .Doc _ :: rest => ∀ attr ∈ rest, ∃ text, attr = .Doc text

-- A token that the tool does not take for the beginning of something.
structure Undisturbed (trees : List TokenTree) : Prop where
  documented : skipDocumentedItem trees = none
  item : trySkipVerusItem trees = none
  clause : isVerusClauseAt trees = false
  assert : isVerusAssertAt trees = false
  assertForall : isVerusAssertForallAt trees = false
  attr : isVerifierAttrAt trees = false
  proofBlock : isProofBlockAt trees = false
  letGhost : isLetGhostAt trees = false
  assumption : isAssumeSpecificationAt trees = false
  namedReturn : tryStripNamedReturn trees = none

def TokenTree.isBrace : TokenTree → Bool
  | .Group .Brace _ => true
  | _ => false

-- The conditions under which the tool finds the ends of the constructs, on a node and the
-- tokens that follow it.
mutual

def Node.Delimited : Node → List TokenTree → Prop
  | .Plain tree, rest => tree.isBrace = false ∧ Undisturbed (tree :: rest)
  | .Block nodes, _ => Delimited nodes
  | .Spec keyword clauses body, _ => Terminated (.Ident keyword.name) clauses ∧ Delimited body
  | .Declaration _ _, _ => False
  | .GhostFn attrs form head _, rest =>
    DocsLast attrs ∧ form.Known ∧ Spans false head ∧ (isItemStart rest = true ∨ Clears rest)
  | .Assert _ _ needs, _ => ∀ facts, needs = some facts → NoSemicolon facts
  | .AssertForall condition _ semicolon, rest =>
    NoBy condition ∧ (semicolon = false → dropSemicolon rest = rest)
  | .GhostLet binding, _ => NoSemicolon binding
  | _, _ => True

def Delimited : List Node → Prop
  | [] => True
  | node :: rest => node.Delimited (render rest) ∧ Delimited rest

end

mutual

def Node.ByFree : Node → Prop
  | .Block nodes => ByFree nodes
  | .Spec _ _ body => ByFree body
  | .AssertBy _ _ _ => False
  | _ => True

def ByFree : List Node → Prop
  | [] => True
  | node :: rest => node.ByFree ∧ ByFree rest

end

def Node.isStatement : Node → Bool
  | .AssertBy _ _ _ => true
  | _ => false

end Gale.VerusStrip
