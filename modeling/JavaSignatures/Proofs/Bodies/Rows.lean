import JavaSignatures.Proofs.Bodies.Enclosed
import JavaSignatures.Proofs.Canonical.Parsing

set_option autoImplicit false

/-!
# Trees of enclosed text

The lexemes of an enclosed text are grouped into trees among themselves: no bracket in it pairs with
one outside.  So a source text can be read part by part (`Enclosed.readAfter_append_mark`), and the
parts of a statement stay in it, since nothing that would end it stands outside of the brackets.
-/

namespace JavaSignatures.Source

open Lexeme
open Canonical (StaysInHead)

/-! ## Tokens -/

namespace Token

/-- The white space and comments behind the last token, the last one first. -/
def gapAfter (gap : List Lexeme) : List Lexeme → List Lexeme
  | [] => gap
  | lexeme :: rest => if lexeme.isTrivia then gapAfter (lexeme :: gap) rest else gapAfter [] rest

theorem ofLexemesAfter_append (gap row more : List Lexeme) :
    ofLexemesAfter gap (row ++ more) =
      ofLexemesAfter gap row ++ ofLexemesAfter (gapAfter gap row) more := by
  induction row generalizing gap with
  | nil => rfl
  | cons lexeme row ih =>
    rw [List.cons_append, ofLexemesAfter, ofLexemesAfter, gapAfter]
    by_cases htrivia : lexeme.isTrivia = true
    · rw [if_pos htrivia, if_pos htrivia, if_pos htrivia]
      exact ih _
    · rw [if_neg htrivia, if_neg htrivia, if_neg htrivia, ih, List.cons_append]

theorem ofLexemesAfter_symbol (gap : List Lexeme) (c : Char) (rest : List Lexeme) :
    ofLexemesAfter gap (⟨.symbol, [c]⟩ :: rest) = mark gap.reverse c :: ofLexemesAfter [] rest :=
  rfl

/-- A lexeme that is not the symbol makes no token that is. -/
theorem not_isSymbol_of_ne (gap : List Lexeme) {lexeme : Lexeme} {c : Char}
    (h : lexeme ≠ ⟨.symbol, [c]⟩) : (⟨gap, lexeme⟩ : Token).isSymbol c = false := by
  rw [isSymbol, Bool.eq_false_iff]
  intro hsymbol
  rw [Bool.and_eq_true, beq_iff_eq, beq_iff_eq] at hsymbol
  obtain ⟨hkind, htext⟩ := hsymbol
  obtain ⟨kind, text⟩ := lexeme
  simp only at hkind htext
  exact h (by rw [hkind, htext])

end Token

/-! ## Rows of trees -/

open JavaSignatures.Source.Tree (tokensOf Nests)

/-- The trees of a text that stands in the place.  Its angle brackets are not grouped yet. -/
inductive TreeRow : Position → List Tree → Prop where
  | nil (place : Position) : TreeRow place []
  | leaf {place : Position} {token : Token} {rest : List Tree}
    (hsymbol : ∀ c ∈ bracketMarks ++ place.barred, token.isSymbol c = false)
    (h : TreeRow place rest) : TreeRow place (.leaf token :: rest)
  | group {place : Position} {pair : Char × Char} {inner rest : List Tree} (gap behind : List Lexeme)
    (hpair : pair ∈ Brackets.nesting) (hplace : pair.1 ∉ place.barred)
    (hinner : TreeRow .inside inner) (h : TreeRow place rest) :
    TreeRow place (.group (Token.mark gap pair.1) inner (some (Token.mark behind pair.2)) :: rest)
  | angles {place : Position} {inner rest : List Tree} (gap behind : List Lexeme)
    (hplace : place.hasAngles = true) (hinner : TreeRow .arguments inner)
    (h : TreeRow place rest) :
    TreeRow place
      (.leaf (Token.mark gap '<') :: (inner ++ .leaf (Token.mark behind '>') :: rest))

/-- A row of lexemes becomes a row of trees, whatever is passed over in front of it. -/
theorem LexemeRow.exists_trees {place : Position} {row : List Lexeme} (h : LexemeRow place row)
    (gap : List Lexeme) :
    ∃ trees, TreeRow place trees ∧ tokensOf trees = Token.ofLexemesAfter gap row := by
  induction h generalizing gap with
  | nil place => exact ⟨[], .nil place, rfl⟩
  | @single place lexeme rest hsymbol h ih =>
    rw [Token.ofLexemesAfter]
    split
    · exact ih _
    · obtain ⟨trees, htrees, htokens⟩ := ih []
      have hleaf : ∀ c ∈ bracketMarks ++ place.barred,
          (⟨gap.reverse, lexeme⟩ : Token).isSymbol c = false :=
        fun c hc => Token.not_isSymbol_of_ne _ (hsymbol c hc)
      refine ⟨_, .leaf hleaf htrees, ?_⟩
      rw [tokensOf, htokens]
      rfl
  | @group place pair inner rest hpair hplace hinner h ihinner ih =>
    obtain ⟨trees, htrees, htokens⟩ := ihinner []
    obtain ⟨more, hmore, htokens'⟩ := ih []
    refine ⟨_, .group gap.reverse (Token.gapAfter [] inner).reverse hpair hplace htrees hmore, ?_⟩
    rw [Token.ofLexemesAfter_symbol, Token.ofLexemesAfter_append, Token.ofLexemesAfter_symbol,
      ← htokens, ← htokens']
    simp [tokensOf, Tree.tokens]
  | @angles place inner rest hplace hinner h ihinner ih =>
    obtain ⟨trees, htrees, htokens⟩ := ihinner []
    obtain ⟨more, hmore, htokens'⟩ := ih []
    refine ⟨_, .angles gap.reverse (Token.gapAfter [] inner).reverse hplace htrees hmore, ?_⟩
    rw [Token.ofLexemesAfter_symbol, Token.ofLexemesAfter_append, Token.ofLexemesAfter_symbol,
      ← htokens, ← htokens']
    simp [tokensOf, Tree.tokens, Tree.tokensOf_append]

namespace TreeRow

variable {place : Position} {trees : List Tree}

theorem closed?_eq_none {token : Token} (h : ∀ c ∈ bracketMarks, token.isSymbol c = false) :
    Brackets.nesting.closed? token = none := by
  simp only [bracketMarks, List.forall_mem_cons] at h
  simp [Brackets.closed?, Brackets.nesting, h]

theorem nests (h : TreeRow place trees) : Nests trees := by
  induction h with
  | nil => exact .nil
  | @leaf place token rest hsymbol h ih =>
    have hnot : ∀ c ∈ bracketMarks, token.isSymbol c = false :=
      fun c hc => hsymbol c (List.mem_append_left _ hc)
    refine .cons (.leaf ?_ (closed?_eq_none hnot)) ih
    simp only [bracketMarks, List.forall_mem_cons] at hnot
    simp [Brackets.opened?, Brackets.nesting, hnot]
  | group gap behind hpair hplace hinner h ihinner ih =>
    exact .cons (.enclosed gap behind _ hpair ihinner) ih
  | angles gap behind hplace hinner h ihinner ih =>
    exact .cons (.angle gap (Or.inl rfl))
      (.append ihinner (.cons (.angle behind (Or.inr (Or.inl rfl))) ih))

theorem append {more : List Tree} (h : TreeRow place trees) (hmore : TreeRow place more) :
    TreeRow place (trees ++ more) := by
  induction h with
  | nil => exact hmore
  | leaf hsymbol h ih => exact .leaf hsymbol (ih hmore)
  | group gap behind hpair hplace hinner h ihinner ih =>
    exact .group gap behind hpair hplace hinner (ih hmore)
  | @angles place inner rest gap behind hplace hinner h ihinner ih =>
    have hrow := TreeRow.angles gap behind hplace hinner (ih hmore)
    simpa using hrow

/-- Where no semicolon stands, nothing ends a statement. -/
theorem not_isEnd (h : TreeRow place trees) (hplace : ';' ∈ place.barred) :
    ∀ tree ∈ trees, Statement.isEnd tree = false := by
  induction h with
  | nil => simp
  | @leaf place token rest hsymbol h ih =>
    have hsemicolon := hsymbol ';' (List.mem_append_right _ hplace)
    have hclosed := closed?_eq_none fun c hc => hsymbol c (List.mem_append_left _ hc)
    refine List.forall_mem_cons.mpr ⟨?_, ih hplace⟩
    rw [Statement.isEnd, Statement.endsAt, hsemicolon, hclosed]
    rfl
  | group gap behind hpair hopening hinner h ihinner ih =>
    exact List.forall_mem_cons.mpr ⟨rfl, ih hplace⟩
  | angles gap behind hangles hinner h ihinner ih =>
    have hinside := ihinner (by decide)
    rw [List.forall_mem_cons, List.forall_mem_append, List.forall_mem_cons]
    exact ⟨rfl, hinside, rfl, ih hplace⟩

/-- What stands in a head neither ends it nor makes it an assignment. -/
theorem staysInHead (h : TreeRow place trees)
    (hplace : ∀ c ∈ Position.head.barred, c ∈ place.barred) :
    ∀ tree ∈ trees, StaysInHead tree := by
  have hend := h.not_isEnd (hplace ';' (by decide))
  induction h with
  | nil => simp
  | @leaf place token rest hsymbol h ih =>
    obtain ⟨hfirst, hrest⟩ := List.forall_mem_cons.mp hend
    have hequals := hsymbol '=' (List.mem_append_right _ (hplace '=' (by decide)))
    exact List.forall_mem_cons.mpr ⟨⟨hfirst, fun _ => rfl, hequals⟩, ih hplace hrest⟩
  | @group place pair inner rest gap behind hpair hopening hinner h ihinner ih =>
    obtain ⟨-, hrest⟩ := List.forall_mem_cons.mp hend
    have hbrace : pair.1 ≠ '{' := by
      intro heq
      rw [heq] at hopening
      exact hopening (hplace '{' (by decide))
    exact List.forall_mem_cons.mpr ⟨Canonical.staysInHead_group hbrace _ _, ih hplace hrest⟩
  | angles gap behind hangles hinner h ihinner ih =>
    rw [List.forall_mem_cons, List.forall_mem_append, List.forall_mem_cons] at hend ⊢
    exact ⟨Canonical.staysInHead_angle _ (Or.inl rfl), ihinner (by decide) hend.2.1,
      Canonical.staysInHead_angle _ (Or.inr rfl), ih hplace hend.2.2.2⟩

end TreeRow

/-! ## Trees in front of others -/

namespace Tree

/-- The trees in front, with more of them in front if they are in front of all groups. -/
def beforeUnder (extra : List Tree) (frames : List Frame) (before : List Tree) : List Tree :=
  match frames with
  | [] => before ++ extra
  | _ :: _ => before

/-- The open groups with more trees in front of all of them. -/
def framesUnder (extra : List Tree) : List Frame → List Frame
  | [] => []
  | frame :: frames =>
    ⟨frame.opening, beforeUnder extra frames frame.before⟩ :: framesUnder extra frames

theorem beforeUnder_cons (extra : List Tree) (frames : List Frame) (tree : Tree)
    (before : List Tree) :
    beforeUnder extra frames (tree :: before) = tree :: beforeUnder extra frames before := by
  cases frames <;> rfl

theorem closePair_framesUnder (extra : List Tree) (pair : Char × Char) (token : Token)
    (frames : List Frame) (inner : List Tree) :
    closePair pair token (framesUnder extra frames) (beforeUnder extra frames inner) =
      (closePair pair token frames inner).map fun (frames, before) =>
        (framesUnder extra frames, beforeUnder extra frames before) := by
  induction frames generalizing inner with
  | nil => rfl
  | cons frame frames ih =>
    have hclose : ∀ closing, (⟨frame.opening, beforeUnder extra frames frame.before⟩ :
        Frame).close inner closing = beforeUnder extra frames (frame.close inner closing) :=
      fun closing => (beforeUnder_cons extra frames _ _).symm
    rw [framesUnder, beforeUnder, closePair, closePair]
    simp only [hclose, ih]
    split
    · rfl
    · split <;> rfl

theorem closeAll_framesUnder (extra : List Tree) (frames : List Frame) (trees : List Tree) :
    closeAll (framesUnder extra frames) (beforeUnder extra frames trees) =
      extra.reverse ++ closeAll frames trees := by
  induction frames generalizing trees with
  | nil => simp [framesUnder, beforeUnder, closeAll]
  | cons frame frames ih =>
    have hclose : (⟨frame.opening, beforeUnder extra frames frame.before⟩ : Frame).close trees none =
        beforeUnder extra frames (frame.close trees none) :=
      (beforeUnder_cons extra frames _ _).symm
    rw [framesUnder, beforeUnder, closeAll, closeAll, hclose]
    exact ih _

/-- What stands in front of all groups stays in front. -/
theorem groupFrom_framesUnder (brackets : Brackets) (extra : List Tree) (frames : List Frame)
    (before trees : List Tree) :
    groupFrom brackets (framesUnder extra frames) (beforeUnder extra frames before) trees =
      extra.reverse ++ groupFrom brackets frames before trees := by
  induction trees generalizing frames before with
  | nil => exact closeAll_framesUnder extra frames before
  | cons tree rest ih =>
    cases tree with
    | group opening inner closing =>
      rw [groupFrom, groupFrom, ← beforeUnder_cons]
      exact ih _ _
    | leaf token =>
      rw [groupFrom, groupFrom]
      cases hopened : brackets.opened? token with
      | some pair => exact ih (⟨token, before⟩ :: frames) []
      | none =>
        have hleaf := ih frames (.leaf token :: before)
        rw [beforeUnder_cons] at hleaf
        cases hclosed : brackets.closed? token with
        | none => exact hleaf
        | some pair =>
          simp only [Option.bind_some, closePair_framesUnder]
          cases hpair : closePair pair token frames before with
          | none => exact hleaf
          | some closed => exact ih closed.1 closed.2

theorem Regroups.groupFrom_append {brackets : Brackets} {flat grouped : List Tree}
    (h : Regroups brackets flat grouped) (rest : List Tree) :
    groupFrom brackets [] [] (flat ++ rest) = grouped ++ groupFrom brackets [] [] rest := by
  have hrow := h [] [] rest
  have hunder := groupFrom_framesUnder brackets grouped.reverse [] [] rest
  rw [List.reverse_reverse] at hunder
  rw [hrow, List.append_nil, ← hunder]
  rfl

/-- Trees that no bracket outside pairs with are grouped for themselves. -/
theorem ofTokens_append {trees : List Tree} (h : Nests trees) (tokens : List Token) :
    ofTokens (tokensOf trees ++ tokens) = trees ++ ofTokens tokens := by
  rw [ofTokens, List.map_append]
  exact Regroups.groupFrom_append h _

end Tree

/-! ## Texts -/

namespace Tree

/-- The trees of a part of a source text. -/
def ofText (text : List Char) : List Tree := ofTokens (readAfter [] text)

end Tree

/-- What a part of a source text passes over behind its last token. -/
def gapBehind (text : List Char) : List Lexeme := (Token.gapAfter [] (lexemes text)).reverse

namespace Enclosed

variable {place : Position} {text : List Char}

theorem treeRow (h : Enclosed place text) :
    TreeRow place (Tree.ofText text) ∧ tokensOf (Tree.ofText text) = readAfter [] text := by
  obtain ⟨row, hrow, hlexemes⟩ := h.readsRow
  have hwhole : lexemes text = row := by
    have hall := hlexemes [] stops_nil
    rwa [List.append_nil, show lexemes [] = [] from rfl, List.append_nil] at hall
  obtain ⟨trees, htrees, htokens⟩ := hrow.exists_trees []
  have hread : readAfter [] text = tokensOf trees := by
    rw [readAfter, hwhole, htokens]
    rfl
  have htext : Tree.ofText text = trees := by
    rw [Tree.ofText, hread]
    exact Tree.ofTokens_of_nests htrees.nests
  rw [htext, hread]
  exact ⟨htrees, rfl⟩

theorem readAfter_append_mark (h : Enclosed place text) {c : Char} (hc : c ∈ stops)
    (rest : List Char) :
    readAfter [] (text ++ c :: rest) =
      tokensOf (Tree.ofText text) ++ Token.mark (gapBehind text) c :: readAfter [] rest := by
  obtain ⟨row, hrow, hlexemes⟩ := h.readsRow
  have hwhole : lexemes text = row := by
    have hall := hlexemes [] stops_nil
    rwa [List.append_nil, show lexemes [] = [] from rfl, List.append_nil] at hall
  have hmark : lexemes (c :: rest) = ⟨.symbol, [c]⟩ :: lexemes rest := lexemes_stop hc rest
  rw [h.treeRow.2, readAfter, readAfter, hlexemes _ (stops_cons hc rest), hmark, hwhole,
    Token.ofLexemesAfter_append, Token.ofLexemesAfter_symbol, gapBehind, hwhole]
  rfl

end Enclosed

end JavaSignatures.Source
