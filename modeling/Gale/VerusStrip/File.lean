import Gale.VerusStrip.Theorems

namespace Gale.VerusStrip

-- The text around the macro: each import of vstd is on one line.

inductive Line where
  | VstdImport (indent path : List Char)
  | Other (text : List Char)

def Line.text : Line → List Char
  | .VstdImport indent path => indent ++ ("use vstd".toList ++ path)
  | .Other text => text

def textOf (ls : List Line) : List Char := ls.flatMap fun line => line.text ++ ['\n']

def withoutVstd (ls : List Line) : List Char :=
  joinLines (ls.filterMap fun line =>
    match line with
    | .VstdImport _ _ => none
    | .Other text => some text)

structure Line.Valid (line : Line) : Prop where
  single : '\n' ∉ line.text
  indented : ∀ indent path, line = .VstdImport indent path → ∀ c ∈ indent, c.isWhitespace = true
  other : ∀ text, line = .Other text → isVstdImport text = false

structure File where
  before : List Line
  gap : List Char
  body : List Char
  after : List Line
  nodes : List Node

def File.text (f : File) : List Char :=
  textOf f.before ++ ("verus!".toList ++ (f.gap ++ '{' :: (f.body ++ '}' :: textOf f.after)))

def File.expected (lex : List Char → List TokenTree) (f : File) : List TokenTree :=
  lex (withoutVstd f.before) ++ (executable f.nodes ++ lex (withoutVstd f.after))

-- The brace counter comes to the end of the body as it began.
def Encloses : Mode → Nat → List Char → Prop
  | mode, depth, [] => mode = .Code ∧ depth = 1
  | mode, depth, c :: cs =>
    (advance mode depth c (cs.head?.or (some '}'))).2 ≠ 0 ∧
      Encloses (advance mode depth c (cs.head?.or (some '}'))).1
        (advance mode depth c (cs.head?.or (some '}'))).2 cs

structure File.Delimited (lex : List Char → List TokenTree) (f : File) : Prop where
  before : ∀ line ∈ f.before, line.Valid
  -- the first verus! of the text is that of the macro
  first : ∀ k < (textOf f.before).length, "verus!".toList.isPrefixOf (f.text.drop k) = false
  gap : '{' ∉ f.gap
  body : Encloses .Code 1 f.body
  tokens : lex (stripLeadingDocComments f.body) = render f.nodes
  nodes : VerusStrip.Delimited f.nodes
  items : ∀ node ∈ f.nodes, node.isStatement = false

theorem splitFirst_append {pattern before rest : List Char} (hp : pattern ≠ [])
    (hf : ∀ k < before.length, pattern.isPrefixOf ((before ++ (pattern ++ rest)).drop k) = false) :
    splitFirst pattern (before ++ (pattern ++ rest)) = some (before, rest) := by
  induction before with
  | nil =>
    obtain ⟨c, cs, rfl⟩ := List.exists_cons_of_ne_nil hp
    have hh : (c :: cs).isPrefixOf (c :: (cs ++ rest)) = true :=
      List.isPrefixOf_iff_prefix.mpr (List.prefix_append (c :: cs) rest)
    rw [List.nil_append, List.cons_append, splitFirst, if_pos hh]
    simp
  | cons c before ih =>
    have hn := hf 0 (Nat.zero_lt_succ _)
    have hl := ih fun k hk => hf (k + 1) (Nat.succ_lt_succ hk)
    rw [List.drop_zero, List.cons_append] at hn
    rw [List.cons_append, splitFirst, if_neg (by rw [hn]; decide), hl]
    rfl

theorem splitFirst_brace {gap rest : List Char} (h : '{' ∉ gap) :
    splitFirst ['{'] (gap ++ '{' :: rest) = some (gap, rest) := by
  induction gap with
  | nil => simp [splitFirst, List.isPrefixOf]
  | cons c gap ih =>
    obtain ⟨hne, hg⟩ : ¬ '{' = c ∧ '{' ∉ gap := by simpa using h
    rw [List.cons_append, splitFirst, ih hg]
    simp [List.isPrefixOf, hne]

theorem scan_encloses {mode : Mode} {depth : Nat} {body : List Char} (h : Encloses mode depth body)
    (after : List Char) : scan mode depth (body ++ '}' :: after) = some (body, after) := by
  induction body generalizing mode depth with
  | nil =>
    obtain ⟨rfl, rfl⟩ := h
    simp [scan, advance]
  | cons c body ih =>
    obtain ⟨hd, hr⟩ := h
    have hn : (body ++ '}' :: after).head? = body.head?.or (some '}') := by
      cases body <;> rfl
    rw [List.cons_append, scan, hn]
    simp only [hd, if_false, ih hr, Option.map_some]

variable {ls : List Line} {lex : List Char → List TokenTree} {f : File}

theorem lines_textOf (h : ∀ line ∈ ls, '\n' ∉ line.text) : lines (textOf ls) = ls.map Line.text := by
  have hl : ∀ (text rest : List Char), '\n' ∉ text → lines (text ++ '\n' :: rest) = text :: lines rest := by
    intro text rest ht
    induction text with
    | nil => simp [lines]
    | cons c text ih =>
      obtain ⟨hne, hr⟩ : ¬ '\n' = c ∧ '\n' ∉ text := by simpa using ht
      rw [List.cons_append, lines, if_neg (Ne.symm hne), ih hr]
  induction ls with
  | nil => rfl
  | cons line ls ih =>
    have hr := ih fun o ho => h o (List.mem_cons_of_mem _ ho)
    have ht : textOf (line :: ls) = line.text ++ '\n' :: textOf ls := by
      simp [textOf]
    rw [ht, hl _ _ (h line List.mem_cons_self), hr, List.map_cons]

theorem isVstdImport_text {indent path : List Char} (h : ∀ c ∈ indent, c.isWhitespace = true) :
    isVstdImport (Line.VstdImport indent path).text = true := by
  have ht : trimStart (indent ++ ("use vstd".toList ++ path)) = "use vstd".toList ++ path := by
    induction indent with
    | nil => rfl
    | cons c indent ih =>
      have hs := h c List.mem_cons_self
      have hr := ih fun d hd => h d (List.mem_cons_of_mem _ hd)
      rw [trimStart] at hr ⊢
      rw [List.cons_append, List.dropWhile_cons_of_pos hs, hr]
  rw [isVstdImport, Line.text, ht]
  exact List.isPrefixOf_iff_prefix.mpr (List.prefix_append _ _)

theorem stripVstdImports_textOf (h : ∀ line ∈ ls, line.Valid) : stripVstdImports (textOf ls) = withoutVstd ls := by
  rw [stripVstdImports, lines_textOf fun line hl => (h line hl).single, withoutVstd]
  congr 1
  induction ls with
  | nil => rfl
  | cons line ls ih =>
    have hr := ih fun o ho => h o (List.mem_cons_of_mem _ ho)
    have hv := h line List.mem_cons_self
    rw [List.map_cons]
    cases line with
    | VstdImport indent path =>
      have hi := @isVstdImport_text indent path (hv.indented indent path rfl)
      rw [List.filter_cons_of_neg (by simp [hi]), hr]
      rfl
    | Other text =>
      have ho := hv.other text rfl
      rw [List.filter_cons_of_pos (by simp [Line.text, ho]), hr]
      rfl

theorem splitAtVerusMacro_text (h : f.Delimited lex) :
    splitAtVerusMacro f.text = (textOf f.before, f.body, textOf f.after) := by
  have hm : splitFirst "verus!".toList f.text =
      some (textOf f.before, f.gap ++ '{' :: (f.body ++ '}' :: textOf f.after)) :=
    splitFirst_append (by decide) h.first
  have hb : splitFirst ['{'] (f.gap ++ '{' :: (f.body ++ '}' :: textOf f.after)) =
      some (f.gap, f.body ++ '}' :: textOf f.after) := splitFirst_brace h.gap
  have hbd : scan .Code 1 (f.body ++ '}' :: textOf f.after) = some (f.body, textOf f.after) :=
    scan_encloses h.body _
  simp only [splitAtVerusMacro, hm, hb, hbd]

theorem stripFile_text (h : f.Delimited lex) :
    stripFile lex f.text = lex (withoutVstd f.before) ++ kept leftover f.nodes := by
  simp [stripFile, splitAtVerusMacro_text h, stripVstdImports_textOf h.before, h.tokens, stripBody_render h.nodes]

-- use vstd::prelude::*; and then fn f() requires x, { y } in the macro.
def commaNodes : List Node :=
  [.Plain (.Ident "fn"), .Plain (.Ident "f"), .Plain (.Group .Parenthesis []),
    .Spec .Requires [.Ident "x", .Punct ',' false] [.Plain (.Ident "y")]]

def commaFile : File where
  before := [.VstdImport [] "::prelude::*;".toList]
  gap := [' ']
  body := "fn f() requires x, {y}".toList
  after := []
  nodes := commaNodes

def commaLex (text : List Char) : List TokenTree :=
  if text = commaFile.body then render commaNodes else []

theorem commaNodes_delimited : Delimited commaNodes := by
  refine ⟨⟨rfl, ?_⟩, ⟨rfl, ?_⟩, ⟨rfl, ?_⟩, ⟨rfl, ⟨rfl, ?_⟩, trivial⟩, trivial⟩
  all_goals exact ⟨rfl, rfl, rfl, rfl, rfl, rfl, rfl, rfl, rfl, rfl⟩

theorem commaFile_delimited : commaFile.Delimited commaLex where
  before := by
    intro line hl
    obtain rfl : line = .VstdImport [] "::prelude::*;".toList := List.mem_singleton.mp hl
    refine ⟨by decide, ?_, nofun⟩
    rintro indent path ⟨⟩
    exact nofun
  first := by decide
  gap := by decide
  body := by simp [commaFile, Encloses, advance]
  tokens := if_pos rfl
  nodes := commaNodes_delimited
  items := by simp [commaFile, commaNodes, Node.isStatement]

def charLex (text : List Char) : List TokenTree := text.map fun c => .Ident (String.singleton c)

-- verus!{} and then x.
def tailFile : File := ⟨[], [], [], [.Other ['x']], []⟩

-- A body with assert(c) by {p}.
def byNodes : List Node := [.Block [.AssertBy [.Ident "c"] [.Ident "p"] false]]

-- f requires x {a} g requires y, {b}
def bareNodes : List Node :=
  [.Plain (.Ident "f"), .Spec .Requires [.Ident "x"] [.Plain (.Ident "a")],
    .Plain (.Ident "g"), .Spec .Requires [.Ident "y", .Punct ',' false] [.Plain (.Ident "b")]]

-- pub open spec fn s {} m! {a}
def macroNodes : List Node :=
  [.GhostFn [] .PubOpenSpec [.Ident "s"] [], .Plain (.Ident "m"), .Plain (.Punct '!' false),
    .Block [.Plain (.Ident "a")]]

end Gale.VerusStrip
