import Gale.VerusStrip.Source

namespace Gale.VerusStrip

-- The loop uses up its input.

theorem size_pos (tree : TokenTree) : 0 < tree.size := by
  cases tree <;> simp [TokenTree.size]

theorem sizes_append (first second : List TokenTree) : sizes (first ++ second) = sizes first + sizes second := by
  induction first with
  | nil => simp [sizes]
  | cons tree rest ih => simp only [List.cons_append, sizes, ih, Nat.add_assoc]

theorem sizes_suffix {first second : List TokenTree} (h : first <:+ second) : sizes first ≤ sizes second := by
  obtain ⟨before, rfl⟩ := h
  rw [sizes_append]
  exact Nat.le_add_left _ _

theorem skipClause_suffix (prev : TokenTree) (trees : List TokenTree) : skipClause prev trees <:+ trees := by
  induction trees generalizing prev with
  | nil => exact List.suffix_rfl
  | cons tree rest ih =>
    have hl := (ih tree).trans (List.suffix_cons tree rest)
    unfold skipClause
    split
    · split
      · exact List.suffix_rfl
      · exact hl
    · exact hl

theorem skipSemicolon_suffix (trees : List TokenTree) : skipSemicolon trees <:+ trees := by
  induction trees with
  | nil => exact List.suffix_rfl
  | cons tree rest ih =>
    have hl := ih.trans (List.suffix_cons tree rest)
    unfold skipSemicolon
    split
    · split
      · exact List.suffix_cons _ _
      · exact hl
    · exact hl

theorem dropSemicolon_suffix (trees : List TokenTree) : dropSemicolon trees <:+ trees := by
  unfold dropSemicolon
  split
  · split
    · exact List.suffix_cons _ _
    · exact List.suffix_rfl
  · exact List.suffix_rfl

theorem skipBy_suffix (trees : List TokenTree) : skipBy trees <:+ trees := by
  unfold skipBy
  split
  · split
    · split
      · exact (List.suffix_cons _ _).trans (List.suffix_cons _ _)
      · exact List.suffix_cons _ _
    · exact List.suffix_rfl
  · exact List.suffix_rfl

theorem skipVerusAssert_suffix (trees : List TokenTree) : skipVerusAssert trees <:+ trees := by
  have hby := skipBy_suffix trees
  unfold skipVerusAssert
  split
  · next s rest heq =>
      rw [heq] at hby
      split
      · exact ((skipSemicolon_suffix rest).trans (List.suffix_cons _ _)).trans hby
      · exact hby
  · exact (dropSemicolon_suffix _).trans hby

variable {after : List TokenTree} {tree : TokenTree} {nodes : List Node}

theorem afterBrace_suffix {trees : List TokenTree} (h : afterBrace trees = some after) : after <:+ trees := by
  unfold afterBrace at h
  split at h
  · cases h
    exact List.suffix_cons _ _
  · cases h

theorem findBy_suffix {trees : List TokenTree} (h : findBy trees = some after) : after <:+ trees := by
  induction trees with
  | nil => cases h
  | cons tree rest ih =>
    have hl : findBy rest = some after → after <:+ tree :: rest :=
      fun hr => (ih hr).trans (List.suffix_cons tree rest)
    cases tree with
    | Ident s =>
      simp only [findBy] at h
      split at h
      · split at h
        · next hb =>
            cases h
            exact ((dropSemicolon_suffix _).trans (afterBrace_suffix hb)).trans
              (List.suffix_cons _ _)
        · exact hl h
      · exact hl h
    | _ => exact hl h

theorem itemEnd_suffix {last : Option (List TokenTree)} {trees whole : List TokenTree}
    (hl : ∀ kept, last = some kept → kept <:+ whole) (ht : trees <:+ whole)
    (h : itemEnd last trees = some after) : after <:+ whole := by
  induction trees generalizing last with
  | nil => exact hl after h
  | cons tree rest ih =>
    have hr : rest <:+ whole := (List.suffix_cons tree rest).trans ht
    unfold itemEnd at h
    split at h
    · split at h
      · cases h
        exact hr
      · exact ih (fun kept hk => Option.some.inj hk ▸ hr) hr h
    · split at h
      · exact hl after h
      · exact ih hl hr h
    · exact ih hl hr h

theorem trySkipVerusItem_suffix {rest : List TokenTree}
    (h : trySkipVerusItem (tree :: rest) = some after) : after <:+ rest := by
  unfold trySkipVerusItem at h
  split at h
  · unfold itemEnd at h
    split at h
    · split at h
      · cases h
        exact List.suffix_rfl
      · exact itemEnd_suffix (fun kept hk => Option.some.inj hk ▸ List.suffix_rfl)
          List.suffix_rfl h
    · exact itemEnd_suffix (by simp) List.suffix_rfl h
    · exact itemEnd_suffix (by simp) List.suffix_rfl h
  · cases h

theorem skipDocAttrs_suffix (trees : List TokenTree) : skipDocAttrs trees <:+ trees := by
  fun_induction skipDocAttrs trees with
  | case1 hash attr rest _ ih =>
    exact (ih.trans (List.suffix_cons attr rest)).trans (List.suffix_cons hash _)
  | case2 | case3 => exact List.suffix_rfl

theorem skipDocumentedItem_suffix {rest : List TokenTree}
    (h : skipDocumentedItem (tree :: rest) = some after) : after <:+ rest := by
  unfold skipDocumentedItem at h
  split at h
  · next hdc =>
      cases rest with
      | nil => simp [isDocAttrAt, isAttrAt] at hdc
      | cons attr rest =>
        rw [skipDocAttrs, if_pos hdc] at h
        have hd : skipDocAttrs rest <:+ attr :: rest :=
          (skipDocAttrs_suffix rest).trans (List.suffix_cons attr rest)
        cases hp : skipDocAttrs rest with
        | nil => simp [hp, trySkipVerusItem, collectIdents, isVerusItem] at h
        | cons first os =>
          rw [hp] at h hd
          exact (trySkipVerusItem_suffix h).trans ((List.suffix_cons first os).trans hd)
  · cases h

theorem tryStripNamedReturn_suffix {rest type : List TokenTree}
    (h : tryStripNamedReturn (tree :: rest) = some (type, after)) : after <:+ rest := by
  unfold tryStripNamedReturn at h
  split at h
  · next heq =>
      cases heq
      split at h
      · cases h
        exact (List.suffix_cons _ _).trans (List.suffix_cons _ _)
      · cases h
  · cases h

def Action.rest : Action → List TokenTree
  | .Skip rest | .SkipSpecification rest | .Emit _ rest | .Enter _ rest => rest

theorem passOn_rest (tree : TokenTree) (rest : List TokenTree) : (passOn tree rest).rest = rest := by
  unfold passOn
  split
  · rfl
  · rfl

theorem action_rest (tree : TokenTree) (rest : List TokenTree) : (action tree rest).rest <:+ rest := by
  have ht : rest.tail <:+ rest := List.tail_suffix rest
  unfold action
  split
  · next h => exact skipDocumentedItem_suffix h
  split
  · next h => exact trySkipVerusItem_suffix h
  split
  · exact skipClause_suffix tree rest
  split
  · exact (skipVerusAssert_suffix _).trans ht
  split
  · refine List.IsSuffix.trans ?_ ht
    unfold skipVerusAssertForall
    cases hf : findBy rest.tail with
    | none => exact List.suffix_rfl
    | some after => exact findBy_suffix hf
  split
  · exact ht
  split
  · exact ht
  split
  · exact (skipSemicolon_suffix _).trans ht
  split
  · exact skipSemicolon_suffix rest
  split
  · next h => exact tryStripNamedReturn_suffix h
  · exact passOn_rest _ _ ▸ List.suffix_rfl

theorem action_enter {rest stream : List TokenTree} (h : action tree rest = .Enter stream after) :
    tree = .Group .Brace stream := by
  have hp : passOn tree rest = .Enter stream after := by
    unfold action at h
    split at h <;> try cases h
    split at h <;> try cases h
    split_ifs at h
    split at h <;> try cases h
    exact h
  unfold passOn at hp
  split at hp
  · cases hp
    rfl
  · cases hp

theorem stripLoop_fuel {fuel fuel' : Nat} {trees : List TokenTree} (hfl : sizes trees ≤ fuel)
    (hf : sizes trees ≤ fuel') (out : List TokenTree) :
    stripLoop fuel trees out = stripLoop fuel' trees out := by
  induction fuel generalizing fuel' trees out with
  | zero =>
    cases trees with
    | nil => cases fuel' <;> rfl
    | cons tree rest =>
      have := size_pos tree
      simp only [sizes] at hfl
      omega
  | succ fuel ih =>
    cases trees with
    | nil => cases fuel' <;> rfl
    | cons tree rest =>
      have hp := size_pos tree
      simp only [sizes] at hfl hf
      obtain ⟨fuel', rfl⟩ : ∃ k, fuel' = k + 1 := ⟨fuel' - 1, by omega⟩
      have hr := sizes_suffix (action_rest tree rest)
      simp only [stripLoop]
      cases ha : action tree rest with
      | Skip after =>
        rw [ha] at hr
        exact ih (by simp only [Action.rest] at hr; omega)
          (by simp only [Action.rest] at hr; omega) out
      | SkipSpecification after | Emit tokens after =>
        rw [ha] at hr
        exact ih (by simp only [Action.rest] at hr; omega)
          (by simp only [Action.rest] at hr; omega) _
      | Enter stream after =>
        rw [ha] at hr
        obtain rfl := action_enter ha
        simp only [Action.rest] at hr
        simp only [TokenTree.size] at hfl hf
        dsimp only
        rw [@ih fuel' stream (by omega) (by omega)]
        exact ih (by omega) (by omega) _

-- Where the constructs end.

section Ends

variable {rest : List TokenTree}

theorem skipClause_terminated {prev : TokenTree} {clauses body : List TokenTree} (h : Terminated prev clauses) :
    skipClause prev (clauses ++ .Group .Brace body :: rest) = .Group .Brace body :: rest := by
  induction clauses generalizing prev with
  | nil => exact if_pos h
  | cons tree clauses ih =>
    rw [List.cons_append]
    cases tree with
    | Ident s | Punct c joint | Literal s => exact ih h
    | Group d stream =>
      cases d with
      | Parenthesis | Bracket | None => exact ih h
      | Brace =>
        obtain ⟨he, ht⟩ : endsClause prev = false ∧ Terminated _ clauses := h
        exact (if_neg (by rw [he]; decide)).trans (ih ht)

theorem itemEnd_clears {last : List TokenTree} (h : Clears rest) : itemEnd (some last) rest = some last := by
  induction rest with
  | nil => rfl
  | cons tree rest ih =>
    cases tree with
    | Ident s =>
      by_cases hk : isItemKeyword s = true
      · simp [itemEnd, hk]
      · have hr : Clears rest := Or.resolve_left h hk
        simpa [itemEnd, hk] using ih hr
    | Group delimiter stream =>
      cases delimiter with
      | Brace => exact False.elim h
      | _ => exact ih h
    | _ => exact ih h

theorem itemEnd_spans {last : Option (List TokenTree)} {head body : List TokenTree}
    (hs : Spans last.isSome head) (hsp : isItemStart rest = true ∨ Clears rest) :
    itemEnd last (head ++ .Group .Brace body :: rest) = some rest := by
  induction head generalizing last with
  | nil =>
    rw [List.nil_append]
    unfold itemEnd
    dsimp only
    split
    · rfl
    · next hnt =>
        rw [Bool.or_eq_true, not_or] at hnt
        exact itemEnd_clears (hsp.resolve_left hnt.1)
  | cons tree head ih =>
    rw [List.cons_append]
    cases tree with
    | Ident s =>
      obtain ⟨hk, hr⟩ : (last.isSome = true → isItemKeyword s = false) ∧ Spans last.isSome head := hs
      unfold itemEnd
      dsimp only
      rw [if_neg]
      · exact ih hr
      · rw [Bool.and_eq_true]
        rintro ⟨hsm, ht⟩
        rw [hk hsm] at ht
        cases ht
    | Group delimiter stream =>
      cases delimiter with
      | Brace =>
        obtain ⟨hst, hr⟩ : isItemStart head = false ∧ Spans true head := hs
        have hn : isItemStart (head ++ .Group .Brace body :: rest) = false := by
          cases head with
          | nil => rfl
          | cons first os => cases first <;> exact hst
        unfold itemEnd
        rw [hn, if_neg (by simp)]
        exact ih hr
      | _ => exact ih hs
    | _ => exact ih hs

theorem skipSemicolon_append {trees : List TokenTree} (h : NoSemicolon trees) :
    skipSemicolon (trees ++ .Punct ';' false :: rest) = rest := by
  induction trees with
  | nil => rfl
  | cons tree trees ih =>
    cases tree with
    | Punct c joint =>
      obtain ⟨hne, hr⟩ : c ≠ ';' ∧ NoSemicolon trees := h
      rw [List.cons_append, skipSemicolon, if_neg hne]
      exact ih hr
    | _ => exact ih h

theorem findBy_append {condition proof : List TokenTree} (h : NoBy condition) :
    findBy (condition ++ .Ident "by" :: .Group .Brace proof :: rest) = some (dropSemicolon rest) := by
  induction condition with
  | nil => rfl
  | cons tree condition ih =>
    cases tree with
    | Ident s =>
      obtain ⟨hby, hr⟩ : (s = "by" → afterBrace condition = none) ∧ NoBy condition := h
      rw [List.cons_append]
      unfold findBy
      dsimp only
      split
      · next heq =>
          have hn : afterBrace (condition ++ .Ident "by" :: .Group .Brace proof :: rest) =
              none := by
            cases condition with
            | nil => rfl
            | cons first os =>
              cases first with
              | Group delimiter stream =>
                cases delimiter with
                | Brace => cases hby heq
                | _ => rfl
              | _ => rfl
          rw [hn]
          exact ih hr
      · exact ih hr
    | _ => exact ih h

end Ends

-- What the loop does at each construct.

section Actions

variable {rest : List TokenTree}

theorem action_plain {tree : TokenTree} (h : Undisturbed (tree :: rest))
    (hb : tree.isBrace = false) : action tree rest = .Emit [tree] rest := by
  have hp : passOn tree rest = .Emit [tree] rest := by
    unfold passOn
    split
    · cases hb
    · rfl
  simp [action, h.documented, h.item, h.clause, h.assert, h.assertForall, h.attr, h.proofBlock,
    h.letGhost, h.assumption, h.namedReturn, hp]

theorem action_brace (stream : List TokenTree) : action (.Group .Brace stream) rest = .Enter stream rest := rfl

theorem action_keyword (keyword : Keyword) :
    action (.Ident keyword.name) rest = .Skip (skipClause (.Ident keyword.name) rest) := by
  cases keyword <;> rfl

theorem action_verifierAttr (name : AttrName) (args : List TokenTree) :
    action (.Punct '#' false) (.Group .Bracket (.Ident name.name :: args) :: rest) = .Skip rest := by
  cases name <;> rfl

theorem action_assert (cond : List TokenTree) :
    action (.Ident "assert") (.Group .Parenthesis cond :: rest) = .Skip (skipVerusAssert rest) := rfl

theorem action_assertForall :
    action (.Ident "assert") (.Ident "forall" :: rest) = .Skip (skipVerusAssertForall rest) := rfl

theorem action_proofBlock (proof : List TokenTree) :
    action (.Ident "proof") (.Group .Brace proof :: rest) = .Skip rest := rfl

theorem action_letGhost : action (.Ident "let") (.Ident "ghost" :: rest) = .Skip (skipSemicolon rest) := rfl

theorem action_namedReturn (name : String) (first : TokenTree) (type : List TokenTree) :
    action (.Punct '-' true) (.Punct '>' false ::
      .Group .Parenthesis (.Ident name :: .Punct ':' false :: first :: type) :: rest) =
      .Emit (arrow ++ first :: type) rest := rfl

theorem trySkipVerusItem_ghost {form : GhostForm} {head body : List TokenTree} (hk : form.Known)
    (hsp : Spans false head) (hs : isItemStart rest = true ∨ Clears rest) :
    trySkipVerusItem (form.trees ++ (head ++ .Group .Brace body :: rest)) = some rest := by
  have he : itemEnd none (form.trees ++ (head ++ .Group .Brace body :: rest)) = some rest := by
    rw [← List.append_assoc]
    refine itemEnd_spans ?_ hs
    cases form with
    | Other trees => exact absurd rfl (hk trees)
    | _ => simpa [GhostForm.trees, Spans] using hsp
  rw [trySkipVerusItem, if_pos, he]
  cases form with
  | Other trees => exact absurd rfl (hk trees)
  | _ => rfl

theorem skipDocAttrs_docs {ats : List GhostAttr} (h : ∀ attr ∈ ats, ∃ text, attr = .Doc text)
    {tail : List TokenTree} (ht : skipDocAttrs tail = tail) :
    skipDocAttrs (ats.flatMap GhostAttr.render ++ tail) = tail := by
  induction ats with
  | nil => exact ht
  | cons attr ats ih =>
    obtain ⟨text, rfl⟩ := h attr List.mem_cons_self
    exact ih fun o ho => h o (List.mem_cons_of_mem _ ho)

theorem skipDocumentedItem_ghost {text : String} {ats : List GhostAttr} {form : GhostForm}
    {head body : List TokenTree} (hd : ∀ attr ∈ ats, ∃ text, attr = .Doc text)
    (hk : form.Known) (hs : Spans false head)
    (hst : isItemStart rest = true ∨ Clears rest) :
    skipDocumentedItem ((GhostAttr.Doc text :: ats).flatMap GhostAttr.render ++
      (form.trees ++ (head ++ .Group .Brace body :: rest))) = some rest := by
  have ht : skipDocAttrs (form.trees ++ (head ++ .Group .Brace body :: rest)) =
      form.trees ++ (head ++ .Group .Brace body :: rest) := by
    cases form with
    | Other trees => exact absurd rfl (hk trees)
    | _ => rfl
  have hdc : isDocAttrAt ((GhostAttr.Doc text :: ats).flatMap GhostAttr.render ++
      (form.trees ++ (head ++ .Group .Brace body :: rest))) = true := rfl
  have hal : ∀ attr ∈ GhostAttr.Doc text :: ats, ∃ text, attr = .Doc text := by
    intro attr ha
    rcases List.mem_cons.mp ha with rfl | hm
    · exact ⟨text, rfl⟩
    · exact hd attr hm
  rw [skipDocumentedItem, if_pos hdc, skipDocAttrs_docs hal ht]
  exact trySkipVerusItem_ghost hk hs hst

theorem skipVerusAssert_append {prover needs : Option (List TokenTree)}
    (h : ∀ facts, needs = some facts → NoSemicolon facts) :
    skipVerusAssert ((prover.elim [] fun args => [.Ident "by", .Group .Parenthesis args]) ++
      ((needs.elim [] fun facts => .Ident "requires" :: facts) ++ .Punct ';' false :: rest)) = rest := by
  cases prover with
  | none | some args =>
    cases needs with
    | none => rfl
    | some facts => exact skipSemicolon_append (h facts rfl)

end Actions

section Loop

variable {fuel : Nat} {tree : TokenTree} {rest after stream tokens : List TokenTree}

theorem stripLoop_skip (h : action tree rest = .Skip after) (out : List TokenTree) :
    stripLoop (fuel + 1) (tree :: rest) out = stripLoop fuel after out := by
  rw [stripLoop, h]

theorem stripLoop_emit (h : action tree rest = .Emit tokens after) (out : List TokenTree) :
    stripLoop (fuel + 1) (tree :: rest) out = stripLoop fuel after (out ++ tokens) := by
  rw [stripLoop, h]

theorem stripLoop_brace (out : List TokenTree) : stripLoop (fuel + 1) (.Group .Brace stream :: rest) out =
      stripLoop fuel rest (out ++ [.Group .Brace (stripLoop fuel stream [])]) := by
  rw [stripLoop, action_brace]

end Loop

def leftover (proof : List TokenTree) (semicolon : Bool) : List TokenTree :=
  .Group .Brace (stripBody proof) :: semicolons semicolon

theorem isAttrAt_of_ne {c : Char} (h : c ≠ '#') (starts : List (List Char)) (joint : Bool)
    (rest : List TokenTree) : isAttrAt starts (.Punct c joint :: rest) = false := by
  unfold isAttrAt
  split
  · next heq =>
      cases heq
      simp [h]
  · rfl

theorem tryStripNamedReturn_of_ne {c : Char} (h : c ≠ '-') (joint : Bool) (rest : List TokenTree) :
    tryStripNamedReturn (.Punct c joint :: rest) = none := by
  unfold tryStripNamedReturn
  split
  · next heq =>
      cases heq
      simp [h]
  · rfl

theorem undisturbed_semicolon (rest : List TokenTree) : Undisturbed (.Punct ';' false :: rest) where
  documented := if_neg (by rw [isDocAttrAt, isAttrAt_of_ne (by decide)]; decide)
  item := rfl
  clause := rfl
  assert := rfl
  assertForall := rfl
  attr := isAttrAt_of_ne (by decide) _ _ _
  proofBlock := rfl
  letGhost := rfl
  assumption := rfl
  namedReturn := tryStripNamedReturn_of_ne (by decide) _ _

theorem sizes_pos {trees : List TokenTree} (h : trees ≠ []) : 0 < sizes trees := by
  cases trees with
  | nil => exact absurd rfl h
  | cons tree rest => exact Nat.add_pos_left (size_pos tree) _

theorem render_ne_nil (node : Node) : node.render ≠ [] := by
  cases node <;> simp [Node.render, verifierAttr, arrow]

theorem action_item {s : String} {rest : List TokenTree} (h : trySkipVerusItem (.Ident s :: rest) = some after) :
    action (.Ident s) rest = .Skip after := by
  have hp : skipDocumentedItem (.Ident s :: rest) = none := rfl
  rw [action, hp, h]

theorem action_documented {rest : List TokenTree}
    (h : skipDocumentedItem (tree :: rest) = some after) : action tree rest = .Skip after := by
  rw [action, h]

theorem GhostForm.Known.trees {form : GhostForm} (h : form.Known) : ∃ s words, form.trees = .Ident s :: words := by
  cases form with
  | Other trees => exact absurd rfl (h trees)
  | _ => exact ⟨_, _, rfl⟩

theorem dropSemicolon_append {semicolon : Bool} {rest : List TokenTree}
    (h : semicolon = false → dropSemicolon rest = rest) :
    dropSemicolon (semicolons semicolon ++ rest) = rest := by
  cases semicolon with
  | true => rfl
  | false => exact h rfl

-- The loop keeps of some nodes what it should, and what is left over.
def Resumes (fuel : Nat) (nodes : List Node) : Prop :=
  ∀ out, stripLoop fuel (render nodes) out = out ++ kept leftover nodes

theorem resumes_of_skip {fuel : Nat} {node : Node} {rest : List Node} {trees : List TokenTree}
    (hr : render (node :: rest) = tree :: trees)
    (ha : action tree trees = .Skip (render nodes))
    (hk : kept leftover (node :: rest) = kept leftover nodes) (hn : Resumes fuel nodes) :
    Resumes (fuel + 1) (node :: rest) := by
  intro out
  rw [hr, stripLoop_skip ha, hn out, hk]

theorem resumes_ghostFn {fuel : Nat} {ats : List GhostAttr} {form : GhostForm}
    {head body : List TokenTree} {rest : List Node}
    (h : (Node.GhostFn ats form head body).Delimited (render rest)) (hr : Resumes fuel rest)
    (ha : ∀ name args os, ats = .Verifier name args :: os → Resumes fuel (.GhostFn os form head body :: rest)) :
    Resumes (fuel + 1) (.GhostFn ats form head body :: rest) := by
  obtain ⟨hd, hk, hs, hst⟩ := h
  cases ats with
  | nil =>
    have hi : trySkipVerusItem (form.trees ++ (head ++ .Group .Brace body :: render rest)) =
        some (render rest) := trySkipVerusItem_ghost hk hs hst
    obtain ⟨s, words, ht⟩ := hk.trees
    rw [ht] at hi
    refine resumes_of_skip ?_ (action_item hi) rfl hr
    simp [render, Node.render, ht]
  | cons attr ats =>
    cases attr with
    | Verifier name args =>
      have hac : action (.Punct '#' false) (.Group .Bracket (.Ident name.name :: args) ::
          render (.GhostFn ats form head body :: rest)) =
          .Skip (render (.GhostFn ats form head body :: rest)) := action_verifierAttr name args
      refine resumes_of_skip ?_ hac rfl (ha name args ats rfl)
      simp [render, Node.render, GhostAttr.render, verifierAttr]
    | Doc text =>
      have hi : skipDocumentedItem ((GhostAttr.Doc text :: ats).flatMap GhostAttr.render ++
          (form.trees ++ (head ++ .Group .Brace body :: render rest))) = some (render rest) :=
        skipDocumentedItem_ghost hd hk hs hst
      refine resumes_of_skip ?_ (action_documented hi) rfl hr
      simp only [render, Node.render, List.append_assoc, List.cons_append, List.nil_append]
      rfl

theorem resumes_assertBy {fuel : Nat} {cond proof : List TokenTree} {semicolon : Bool}
    {rest : List Node} (hp : sizes proof ≤ fuel) (hr : Resumes fuel rest)
    (hs : semicolon = true → Resumes fuel (.Plain (.Punct ';' false) :: rest)) :
    Resumes (fuel + 2) (.AssertBy cond proof semicolon :: rest) := by
  intro out
  have hb : stripLoop fuel proof [] = stripBody proof := stripLoop_fuel hp (Nat.le_refl _) []
  have hsk : action (.Ident "assert") (.Group .Parenthesis cond :: .Ident "by" ::
      .Group .Brace proof :: (semicolons semicolon ++ render rest)) =
      .Skip (.Group .Brace proof :: (semicolons semicolon ++ render rest)) := rfl
  simp only [render, Node.render, List.cons_append, List.nil_append]
  rw [stripLoop_skip hsk, stripLoop_brace, hb]
  cases semicolon with
  | true =>
    have hl := hs rfl (out ++ [.Group .Brace (stripBody proof)])
    simpa [render, Node.render, semicolons, kept, Node.kept, leftover] using hl
  | false =>
    have hl := hr (out ++ [.Group .Brace (stripBody proof)])
    simpa [semicolons, kept, Node.kept, leftover] using hl

theorem resumes_plain {fuel : Nat} {rest : List Node}
    (h : (Node.Plain tree).Delimited (render rest)) (hr : Resumes fuel rest) :
    Resumes (fuel + 1) (.Plain tree :: rest) := by
  intro out
  have ha := action_plain h.2 h.1
  have hl := hr (out ++ [tree])
  simp only [render, Node.render, List.singleton_append, stripLoop_emit ha]
  simpa [kept, Node.kept] using hl

theorem resumes_namedReturn {fuel : Nat} {name : String} {first : TokenTree} {type : List TokenTree}
    {rest : List Node} (hr : Resumes fuel rest) :
    Resumes (fuel + 1) (.NamedReturn name first type :: rest) := by
  intro out
  have hl := hr (out ++ (arrow ++ first :: type))
  refine (stripLoop_emit (action_namedReturn name first type) out).trans ?_
  simpa [kept, Node.kept] using hl

theorem resumes_block {fuel : Nat} {inner rest : List Node} (hi : Resumes fuel inner)
    (hr : Resumes fuel rest) : Resumes (fuel + 1) (.Block inner :: rest) := by
  intro out
  have hl := hr (out ++ [.Group .Brace (kept leftover inner)])
  simp only [render, Node.render, List.singleton_append, stripLoop_brace]
  rw [hi [], List.nil_append, hl, kept, Node.kept, List.append_assoc]

theorem resumes_of_delimited {fuel : Nat} (h : Delimited nodes)
    (hf : sizes (render nodes) ≤ fuel) : Resumes fuel nodes := by
  induction fuel using Nat.strongRecOn generalizing nodes with
  | _ fuel ih =>
    cases nodes with
    | nil => cases fuel <;> simp [Resumes, render, stripLoop, kept]
    | cons node rest =>
      obtain ⟨hn, hr⟩ : node.Delimited (render rest) ∧ Delimited rest := h
      have hp := sizes_pos (render_ne_nil node)
      have hs : sizes node.render + sizes (render rest) ≤ fuel := by
        simpa only [render, sizes_append] using hf
      obtain ⟨fuel, rfl⟩ : ∃ k, fuel = k + 1 := ⟨fuel - 1, by omega⟩
      have hl : Resumes fuel rest := ih fuel (by omega) hr (by omega)
      cases node with
      | Plain tree => exact resumes_plain hn hl
      | Block inner =>
        have hi : sizes (render inner) ≤ fuel := by
          simp only [Node.render, sizes, TokenTree.size] at hs
          omega
        exact resumes_block (ih fuel (by omega) hn hi) hl
      | Spec keyword clauses body =>
        obtain ⟨ht, hb⟩ := hn
        have hbl : Resumes fuel (.Block body :: rest) := by
          refine ih fuel (by omega) ⟨hb, hr⟩ ?_
          simp only [Node.render, sizes, sizes_append, render, TokenTree.size] at hs ⊢
          omega
        have hac : action (.Ident keyword.name)
            (clauses ++ .Group .Brace (render body) :: render rest) =
            .Skip (render (.Block body :: rest)) := by
          rw [action_keyword, skipClause_terminated ht]
          rfl
        refine resumes_of_skip ?_ hac rfl hbl
        simp [render, Node.render]
      | Declaration keyword clauses => exact hn.elim
      | GhostFn ats form head body =>
        refine resumes_ghostFn hn hl fun name args os ha => ?_
        subst ha
        refine ih fuel (by omega) ⟨hn, hr⟩ ?_
        simp only [Node.render, List.flatMap_cons, sizes_append, render, GhostAttr.render,
          verifierAttr, sizes, TokenTree.size] at hs ⊢
        omega
      | VerifierAttr name args =>
        exact resumes_of_skip rfl (action_verifierAttr name args) rfl hl
      | Assert cond prover needs =>
        have hac := @action_assert
          ((prover.elim [] fun args => [.Ident "by", .Group .Parenthesis args]) ++
            ((needs.elim [] fun facts => .Ident "requires" :: facts) ++ .Punct ';' false :: render rest)) cond
        rw [skipVerusAssert_append hn] at hac
        refine resumes_of_skip ?_ hac rfl hl
        simp [render, Node.render]
      | AssertBy cond proof semicolon =>
        simp only [Node.render, sizes_append, sizes, TokenTree.size] at hs
        obtain ⟨fuel, rfl⟩ : ∃ k, fuel = k + 1 := ⟨fuel - 1, by omega⟩
        refine resumes_assertBy (by omega) (ih fuel (by omega) hr (by omega)) ?_
        rintro rfl
        refine ih fuel (by omega) ⟨⟨rfl, undisturbed_semicolon _⟩, hr⟩ ?_
        simp only [render, Node.render, semicolons, sizes_append, sizes, TokenTree.size, if_true] at hs ⊢
        omega
      | AssertForall cond proof semicolon =>
        have hac := @action_assertForall (cond ++ .Ident "by" ::
          .Group .Brace proof :: (semicolons semicolon ++ render rest))
        rw [skipVerusAssertForall, findBy_append hn.1, dropSemicolon_append hn.2, Option.getD_some] at hac
        refine resumes_of_skip ?_ hac rfl hl
        simp [render, Node.render]
      | ProofBlock proof => exact resumes_of_skip rfl (action_proofBlock proof) rfl hl
      | GhostLet binding =>
        have hac := @action_letGhost (binding ++ .Punct ';' false :: render rest)
        rw [skipSemicolon_append hn] at hac
        refine resumes_of_skip ?_ hac rfl hl
        simp [render, Node.render]
      | NamedReturn name first type => exact resumes_namedReturn hl

theorem stripBody_render (h : Delimited nodes) : stripBody (render nodes) = kept leftover nodes := by
  have hr := resumes_of_delimited h (Nat.le_refl _) []
  rwa [List.nil_append] at hr

-- The blocks left behind are all that is too much.

theorem leftover_pos (proof : List TokenTree) (semicolon : Bool) : 0 < sizes (leftover proof semicolon) :=
  sizes_pos (List.cons_ne_nil _ _)

mutual

theorem Node.kept_sizes : ∀ node : Node, sizes (node.kept fun _ _ => []) ≤ sizes (node.kept leftover) ∧
      (sizes (node.kept leftover) ≤ sizes (node.kept fun _ _ => []) → node.ByFree)
  | .Block nodes => by
    have h := kept_sizes nodes
    simp only [Node.kept, sizes, TokenTree.size]
    exact ⟨by omega, fun hle => h.2 (by omega)⟩
  | .Spec _ _ body => by
    have h := kept_sizes body
    simp only [Node.kept, sizes, TokenTree.size]
    exact ⟨by omega, fun hle => h.2 (by omega)⟩
  | .AssertBy _ proof semicolon => by
    have hp := leftover_pos proof semicolon
    simp only [Node.kept, sizes]
    exact ⟨Nat.zero_le _, fun hle => by omega⟩
  | .Plain _ | .Declaration _ _ | .GhostFn _ _ _ _ | .VerifierAttr _ _ | .Assert _ _ _
  | .AssertForall _ _ _ | .ProofBlock _ | .GhostLet _ | .NamedReturn _ _ _ =>
    ⟨Nat.le_refl _, fun _ => trivial⟩

theorem kept_sizes : ∀ nodes : List Node, sizes (kept (fun _ _ => []) nodes) ≤ sizes (kept leftover nodes) ∧
      (sizes (kept leftover nodes) ≤ sizes (kept (fun _ _ => []) nodes) → ByFree nodes)
  | [] => ⟨Nat.le_refl _, fun _ => trivial⟩
  | node :: rest => by
    have hn := Node.kept_sizes node
    have hr := kept_sizes rest
    simp only [kept, sizes_append]
    exact ⟨by omega, fun hle => ⟨hn.2 (by omega), hr.2 (by omega)⟩⟩

end

mutual

theorem Node.kept_of_byFree (left : List TokenTree → Bool → List TokenTree) :
    ∀ node : Node, node.ByFree → node.kept left = node.kept fun _ _ => []
  | .Block nodes, h => by simp [Node.kept, kept_of_byFree left nodes h]
  | .Spec _ _ body, h => by simp [Node.kept, kept_of_byFree left body h]
  | .AssertBy _ _ _, h => h.elim
  | .Plain _, _ | .Declaration _ _, _ | .GhostFn _ _ _ _, _ | .VerifierAttr _ _, _
  | .Assert _ _ _, _ | .AssertForall _ _ _, _ | .ProofBlock _, _ | .GhostLet _, _
  | .NamedReturn _ _ _, _ => rfl

theorem kept_of_byFree (left : List TokenTree → Bool → List TokenTree) :
    ∀ nodes : List Node, ByFree nodes → kept left nodes = kept (fun _ _ => []) nodes
  | [], _ => rfl
  | node :: rest, h => by
    simp [kept, Node.kept_of_byFree left node h.1, kept_of_byFree left rest h.2]

end

theorem kept_length (h : ∀ node ∈ nodes, node.isStatement = false) :
    (kept leftover nodes).length = (executable nodes).length := by
  unfold executable
  induction nodes with
  | nil => rfl
  | cons node rest ih =>
    have hn : (node.kept leftover).length = (node.kept fun _ _ => []).length := by
      cases node with
      | AssertBy cond proof semicolon => cases h _ List.mem_cons_self
      | _ => rfl
    rw [kept, kept, List.length_append, List.length_append, hn, ih fun o ho => h o (List.mem_cons_of_mem _ ho)]

theorem kept_eq_iff (hi : ∀ node ∈ nodes, node.isStatement = false) (after : List TokenTree) :
    kept leftover nodes = executable nodes ++ after ↔ after = [] ∧ ByFree nodes := by
  constructor
  · intro heq
    have hl := congrArg List.length heq
    rw [List.length_append, kept_length hi] at hl
    have hn : after = [] := List.length_eq_zero_iff.mp (by omega)
    refine ⟨hn, (kept_sizes nodes).2 ?_⟩
    rw [heq, hn, List.append_nil]
    exact Nat.le_refl _
  · rintro ⟨rfl, hf⟩
    rw [List.append_nil]
    exact kept_of_byFree leftover nodes hf

end Gale.VerusStrip
