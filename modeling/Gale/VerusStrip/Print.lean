import Gale.VerusStrip.Theorems

namespace Gale.VerusStrip

-- The text that strip_body puts out. alphanumeric is that of Rust's characters, display the text
-- proc_macro2 gives a stream, and cut what a construct that is skipped takes off the text so far.
section Print

variable (alphanumeric : Char → Bool) (display : List TokenTree → List Char)
  (cut : List TokenTree → List Char → List Char)

def needsSpaceBefore (out : List Char) : Bool :=
  match out.getLast? with
  | none => false
  | some c => alphanumeric c || c = '_' || c = ')' || c = '}'

def Delimiter.texts : Delimiter → List Char × List Char
  | .Brace => (['{'], ['}'])
  | .Parenthesis => (['('], [')'])
  | .Bracket => (['['], [']'])
  | .None => ([], [])

def emitToken (tree : TokenTree) (out : List Char) : List Char :=
  match tree with
  | .Group d stream => out ++ d.texts.1 ++ display stream ++ d.texts.2
  | .Ident s | .Literal s => (if needsSpaceBefore alphanumeric out then out ++ [' '] else out) ++ s.toList
  | .Punct c _ => out ++ [c]

-- Only a named return value puts out more than one token.
def emit (tokens : List TokenTree) (out : List Char) : List Char :=
  match tokens with
  | [tree] => emitToken alphanumeric display tree out
  | _ => out ++ "-> ".toList ++ display (tokens.drop arrow.length)

def printLoop : Nat → List TokenTree → List Char → List Char
  | 0, _, out => out
  | _, [], out => out
  | fuel + 1, tree :: rest, out =>
    match action tree rest with
    | .Skip after | .SkipSpecification after => printLoop fuel after (cut (tree :: rest) out)
    | .Emit tokens after => printLoop fuel after (emit alphanumeric display tokens out)
    | .Enter stream after => printLoop fuel after (out ++ '{' :: printLoop fuel stream [] ++ ['}'])

def stripText (trees : List TokenTree) : List Char :=
  printLoop alphanumeric display cut (sizes trees) trees []

-- No Verus construct starts at any tree, in brace groups of any depth.
inductive Plain : List TokenTree → Prop
  | Nil : Plain []
  | Brace {stream rest : List TokenTree} (hs : Plain stream) (hr : Plain rest) :
    Plain (.Group .Brace stream :: rest)
  | Other {tree : TokenTree} {rest : List TokenTree} (hu : Undisturbed (tree :: rest))
    (hb : tree.isBrace = false) (hr : Plain rest) : Plain (tree :: rest)

-- The same trees, but for which operator characters are joined outside of ( ) and [ ].
inductive Respaced : List TokenTree → List TokenTree → Prop
  | Nil : Respaced [] []
  | Punct {c : Char} {a b : Bool} {s t : List TokenTree} (h : Respaced s t) :
    Respaced (.Punct c a :: s) (.Punct c b :: t)
  | Brace {x y s t : List TokenTree} (hx : Respaced x y) (h : Respaced s t) :
    Respaced (.Group .Brace x :: s) (.Group .Brace y :: t)
  | Same {tree : TokenTree} {s t : List TokenTree} (hb : tree.isBrace = false) (h : Respaced s t) :
    Respaced (tree :: s) (tree :: t)

variable {alphanumeric display cut} {s t : List TokenTree}

theorem Respaced.sizes_eq (h : Respaced s t) : sizes s = sizes t := by
  induction h with
  | Nil => rfl
  | Punct _ ih | Same _ _ ih => simp only [sizes, TokenTree.size, ih]
  | Brace _ _ ihx ih => simp only [sizes, TokenTree.size, ihx, ih]

theorem Plain.tail {tree : TokenTree} (h : Plain (tree :: s)) : Plain s := by
  cases h with
  | Brace _ hr | Other _ _ hr => exact hr

theorem printLoop_other {tree : TokenTree} (h : Plain (tree :: s)) (hb : tree.isBrace = false) (fuel : Nat)
    (out : List Char) : printLoop alphanumeric display cut (fuel + 1) (tree :: s) out =
      printLoop alphanumeric display cut fuel s (emitToken alphanumeric display tree out) := by
  cases h with
  | Brace => cases hb
  | Other hu _ _ => simp only [printLoop, action_plain hu hb, emit]

-- The printer does not look at the spacing.
theorem Respaced.printLoop_eq (h : Respaced s t) (hs : Plain s) (ht : Plain t) (fuel : Nat) (out : List Char) :
    printLoop alphanumeric display cut fuel s out = printLoop alphanumeric display cut fuel t out := by
  induction h generalizing fuel out with
  | Nil => rfl
  | Punct _ ih =>
    cases fuel with
    | zero => rfl
    | succ fuel =>
      rw [printLoop_other hs rfl, printLoop_other ht rfl]
      exact ih hs.tail ht.tail fuel _
  | Brace _ _ ihx ih =>
    cases fuel with
    | zero => rfl
    | succ fuel =>
      cases hs with
      | Other _ hb _ => cases hb
      | Brace hxs hs =>
        cases ht with
        | Other _ hb _ => cases hb
        | Brace hyt ht =>
          simp only [printLoop, action_brace, ihx hxs hyt]
          exact ih hs ht fuel _
  | Same hb _ ih =>
    cases fuel with
    | zero => rfl
    | succ fuel =>
      rw [printLoop_other hs hb, printLoop_other ht hb]
      exact ih hs.tail ht.tail fuel _

theorem Plain.stripLoop_eq (h : Plain s) {fuel : Nat} (hf : sizes s ≤ fuel) (out : List TokenTree) :
    stripLoop fuel s out = out ++ s := by
  induction h generalizing fuel out with
  | Nil => cases fuel <;> simp [stripLoop]
  | Brace _ _ ihs ihr =>
    simp only [sizes, TokenTree.size] at hf
    obtain ⟨fuel, rfl⟩ := Nat.exists_eq_succ_of_ne_zero (show fuel ≠ 0 by omega)
    rw [stripLoop_brace, ihs (by omega), ihr (by omega)]
    simp
  | @Other tree rest hu hb _ ih =>
    have hp := size_pos tree
    simp only [sizes] at hf
    obtain ⟨fuel, rfl⟩ := Nat.exists_eq_succ_of_ne_zero (show fuel ≠ 0 by omega)
    rw [stripLoop_emit (action_plain hu hb), ih (by omega)]
    simp

-- Code without a Verus construct stays as it is, inside braces too.
theorem stripBody_plain (h : Plain s) : stripBody s = s := h.stripLoop_eq le_rfl []

end Print

-- a & &b, and a && b.
def reference (joint : Bool) : List TokenTree := [.Ident "a", .Punct '&' joint, .Punct '&' false, .Ident "b"]

theorem reference_plain (joint : Bool) : Plain (reference joint) := by
  refine .Other ?_ rfl (.Other ?_ rfl (.Other ?_ rfl (.Other ?_ rfl .Nil))) <;> constructor <;> rfl

theorem braced_reference_unchanged : stripBody [.Group .Brace (reference true)] = [.Group .Brace (reference true)] :=
  stripBody_plain (.Brace (reference_plain true) .Nil)

theorem reference_respaced (a b : Bool) : Respaced (reference a) (reference b) :=
  .Same rfl (.Punct (.Punct (.Same rfl .Nil)))

def asciiText : List TokenTree → List Char := stripText Char.isAlphanum (fun _ => []) fun _ out => out

def lexConjunction (text : List Char) : List TokenTree := if text = "a&&b".toList then reference true else []

end Gale.VerusStrip
