import JavaSignatures.Proofs.Lexing
import JavaSignatures.Source.Statement

set_option autoImplicit false

/-!
# Grouping by brackets, bracket by bracket

`Regroups` says that grouping turns one row of trees into another wherever the row stands; rows are
put together one after the other and between a pair of brackets.  What types and lists of type
variables are made of are type parts (`IsTypePart`).  In the text their angle brackets stand among
the other tokens (`Tree.loosen`), and both groupings find the groups again
(`nests_loosenAll`, `regroups_loosenAll`).
-/

namespace JavaSignatures.Source

/-! ## Tokens -/

namespace Token

theorem isSymbol_word (gap : List Lexeme) (text : List Char) (c : Char) :
    (word gap text).isSymbol c = false := rfl

theorem isSymbol_mark (gap : List Lexeme) (c d : Char) : (mark gap c).isSymbol d = (c == d) := by
  simp [isSymbol, mark]

theorem isSymbol_ellipsis (gap : List Lexeme) (c : Char) :
    (ellipsis gap).isSymbol c = false := by
  simp [isSymbol, ellipsis]

/-- A token of a type or of a list of types or type variables, brackets apart. -/
inductive IsPlain : Token → Prop
  | word (gap : List Lexeme) (text : List Char) : IsPlain (word gap text)
  | mark (gap : List Lexeme) {c : Char} (h : c = '.' ∨ c = ',' ∨ c = '&') : IsPlain (mark gap c)
  | ellipsis (gap : List Lexeme) : IsPlain (ellipsis gap)

theorem IsPlain.not_isSymbol {token : Token} (h : token.IsPlain) {c : Char}
    (hc : ¬(c = '.' ∨ c = ',' ∨ c = '&')) : token.isSymbol c = false := by
  cases h with
  | word gap text => exact isSymbol_word gap text c
  | @mark gap d hd =>
    rw [isSymbol_mark, beq_eq_false_iff_ne]
    rintro rfl
    exact hc hd
  | ellipsis gap => exact isSymbol_ellipsis gap c

theorem IsPlain.opened?_nesting {token : Token} (h : token.IsPlain) :
    Brackets.nesting.opened? token = none := by
  simp [Brackets.opened?, Brackets.nesting, h.not_isSymbol]

theorem IsPlain.closed?_nesting {token : Token} (h : token.IsPlain) :
    Brackets.nesting.closed? token = none := by
  simp [Brackets.closed?, Brackets.nesting, h.not_isSymbol]

theorem IsPlain.opened?_angles {token : Token} (h : token.IsPlain) :
    Brackets.angles.opened? token = none := by
  simp [Brackets.opened?, Brackets.angles, h.not_isSymbol]

theorem IsPlain.closed?_angles {token : Token} (h : token.IsPlain) :
    Brackets.angles.closed? token = none := by
  simp [Brackets.closed?, Brackets.angles, h.not_isSymbol]

end Token

/-! ## Rows and groups -/

namespace Tree

/-- Grouping by the brackets turns the flat row into the grouped one, whatever is open and whatever
stands in front of it and behind it. -/
def Regroups (brackets : Brackets) (flat grouped : List Tree) : Prop :=
  ∀ frames before rest, groupFrom brackets frames before (flat ++ rest) =
    groupFrom brackets frames (grouped.reverse ++ before) rest

namespace Regroups

variable {brackets : Brackets}

theorem nil (brackets : Brackets) : Regroups brackets [] [] := by
  intro frames before rest
  rfl

theorem append {first second first' second' : List Tree} (hfirst : Regroups brackets first first')
    (hsecond : Regroups brackets second second') :
    Regroups brackets (first ++ second) (first' ++ second') := by
  intro frames before rest
  rw [List.append_assoc, hfirst, hsecond, List.reverse_append, List.append_assoc]

theorem leaf {token : Token} (hopened : brackets.opened? token = none)
    (hclosed : brackets.closed? token = none) :
    Regroups brackets [.leaf token] [.leaf token] := by
  intro frames before rest
  simp [groupFrom, hopened, hclosed]

/-- A group that is there already stays. -/
theorem group (brackets : Brackets) (opening : Token) (inner : List Tree)
    (closing : Option Token) :
    Regroups brackets [.group opening inner closing] [.group opening inner closing] := by
  intro frames before rest
  simp [groupFrom]

/-- A pair of brackets becomes a group. -/
theorem enclosed (pair : Char × Char) {opening closing : Token}
    (hopened : brackets.opened? opening = some pair) (hnot : brackets.opened? closing = none)
    (hclosed : brackets.closed? closing = some pair) {inner inner' : List Tree}
    (hinner : Regroups brackets inner inner') :
    Regroups brackets (.leaf opening :: (inner ++ [.leaf closing]))
      [.group opening inner' (some closing)] := by
  have hpair : opening.isSymbol pair.1 = true := by
    unfold Brackets.opened? at hopened
    have hfound := List.find?_some hopened
    exact hfound
  intro frames before rest
  have hopens : groupFrom brackets frames before
      (.leaf opening :: (inner ++ [.leaf closing]) ++ rest) =
      groupFrom brackets (⟨opening, before⟩ :: frames) [] (inner ++ .leaf closing :: rest) := by
    simp [groupFrom, hopened]
  have hcloses : closePair pair closing (⟨opening, before⟩ :: frames) inner'.reverse =
      some (frames, .group opening inner' (some closing) :: before) := by
    simp [closePair, hpair, Frame.close]
  rw [hopens, hinner, List.append_nil, groupFrom, hnot, hclosed, Option.bind_some, hcloses]
  rfl

/-- A whole row is grouped on its own. -/
theorem groupFrom_eq {flat grouped : List Tree} (h : Regroups brackets flat grouped) :
    groupFrom brackets [] [] flat = grouped := by
  have hrow := h [] [] []
  rw [List.append_nil, List.append_nil] at hrow
  rw [hrow, groupFrom, closeAll, List.reverse_reverse]

end Regroups

/-! ## Nests of groups -/

/-- The tokens of the trees are grouped into the trees again. -/
def Nests (trees : List Tree) : Prop :=
  Regroups Brackets.nesting ((tokensOf trees).map Tree.leaf) trees

theorem ofTokens_of_nests {trees : List Tree} (h : Nests trees) :
    ofTokens (tokensOf trees) = trees :=
  h.groupFrom_eq

namespace Nests

theorem nil : Nests [] := Regroups.nil _

theorem append {first second : List Tree} (hfirst : Nests first) (hsecond : Nests second) :
    Nests (first ++ second) := by
  unfold Nests
  rw [tokensOf_append, List.map_append]
  exact Regroups.append hfirst hsecond

theorem cons {tree : Tree} {rest : List Tree} (htree : Nests [tree]) (hrest : Nests rest) :
    Nests (tree :: rest) :=
  append htree hrest

theorem flatMap {α : Type} {items : List α} {trees : α → List Tree}
    (h : ∀ item ∈ items, Nests (trees item)) : Nests (items.flatMap trees) := by
  induction items with
  | nil => exact nil
  | cons item rest ih =>
    rw [List.flatMap_cons]
    exact append (h item (by simp)) (ih fun other hother => h other (List.mem_cons_of_mem _ hother))

theorem leaf {token : Token} (hopened : Brackets.nesting.opened? token = none)
    (hclosed : Brackets.nesting.closed? token = none) : Nests [.leaf token] := by
  unfold Nests
  exact Regroups.leaf hopened hclosed

theorem plain {token : Token} (h : token.IsPlain) : Nests [.leaf token] :=
  leaf h.opened?_nesting h.closed?_nesting

theorem angle (gap : List Lexeme) {c : Char} (hc : c = '<' ∨ c = '>' ∨ c = ';') :
    Nests [.leaf (Token.mark gap c)] := by
  rcases hc with rfl | rfl | rfl <;> exact leaf rfl rfl

theorem enclosed (gap behind : List Lexeme) (pair : Char × Char) (hpair : pair ∈ Brackets.nesting)
    {inner : List Tree} (hinner : Nests inner) :
    Nests [.group (Token.mark gap pair.1) inner (some (Token.mark behind pair.2))] := by
  have hflat : (tokensOf [.group (Token.mark gap pair.1) inner
      (some (Token.mark behind pair.2))]).map Tree.leaf =
      .leaf (Token.mark gap pair.1) ::
        ((tokensOf inner).map Tree.leaf ++ [.leaf (Token.mark behind pair.2)]) := by
    simp [tokensOf, Tree.tokens]
  unfold Nests
  rw [hflat]
  simp only [Brackets.nesting, List.mem_cons, List.not_mem_nil, or_false] at hpair
  rcases hpair with rfl | rfl | rfl
  · exact Regroups.enclosed ('(', ')') rfl rfl rfl hinner
  · exact Regroups.enclosed ('[', ']') rfl rfl rfl hinner
  · exact Regroups.enclosed ('{', '}') rfl rfl rfl hinner

end Nests

/-! ## Type parts -/

mutual

/-- The tree with the pairs of angle brackets taken apart. -/
def loosen (tree : Tree) : List Tree :=
  match tree with
  | .leaf token => [.leaf token]
  | .group opening inner closing =>
    if opening.isSymbol '<' then .leaf opening :: loosenAll inner ++ closing.toList.map .leaf
    else [.group opening inner closing]
termination_by structural tree

/-- The trees with the pairs of angle brackets taken apart. -/
def loosenAll (trees : List Tree) : List Tree :=
  match trees with
  | [] => []
  | tree :: rest => loosen tree ++ loosenAll rest
termination_by structural trees

end

/-- A tree of a type or of a list of types or type variables. -/
inductive IsTypePart : Tree → Prop
  | plain {token : Token} (h : token.IsPlain) : IsTypePart (.leaf token)
  | brackets (gap behind : List Lexeme) :
    IsTypePart (.group (Token.mark gap '[') [] (some (Token.mark behind ']')))
  | angles (gap behind : List Lexeme) {inner : List Tree} (h : ∀ tree ∈ inner, IsTypePart tree) :
    IsTypePart (.group (Token.mark gap '<') inner (some (Token.mark behind '>')))

theorem loosenAll_eq_flatMap (trees : List Tree) : loosenAll trees = trees.flatMap loosen := by
  induction trees with
  | nil => rfl
  | cons tree rest ih => simp [loosenAll, ih]

theorem loosen_angles (gap behind : List Lexeme) (inner : List Tree) :
    loosen (.group (Token.mark gap '<') inner (some (Token.mark behind '>'))) =
      .leaf (Token.mark gap '<') :: (loosenAll inner ++ [.leaf (Token.mark behind '>')]) := by
  simp [loosen, Token.isSymbol_mark]

theorem loosen_group {gap : List Lexeme} {c : Char} (hc : c ≠ '<') (inner : List Tree)
    (closing : Option Token) :
    loosen (.group (Token.mark gap c) inner closing) =
      [.group (Token.mark gap c) inner closing] := by
  simp [loosen, Token.isSymbol_mark, hc]

mutual

/-- Taking brackets apart does not change the tokens. -/
theorem tokensOf_loosen (tree : Tree) : tokensOf (loosen tree) = tokens tree := by
  cases tree with
  | leaf token => rfl
  | group opening inner closing =>
    have hinner := tokensOf_loosenAll inner
    by_cases hopening : opening.isSymbol '<' = true
    · cases closing with
      | none => simp [loosen, hopening, tokensOf, tokens, hinner]
      | some closing => simp [loosen, hopening, tokensOf, tokens, tokensOf_append, hinner]
    · simp [loosen, hopening, tokensOf]
termination_by structural tree

theorem tokensOf_loosenAll (trees : List Tree) : tokensOf (loosenAll trees) = tokensOf trees := by
  cases trees with
  | nil => rfl
  | cons tree rest =>
    have htree := tokensOf_loosen tree
    have hrest := tokensOf_loosenAll rest
    simp [loosenAll, tokensOf_append, tokensOf, htree, hrest]
termination_by structural trees

end

theorem nests_loosenAll {trees : List Tree} (h : ∀ tree ∈ trees, Nests (loosen tree)) :
    Nests (loosenAll trees) := by
  rw [loosenAll_eq_flatMap]
  exact Nests.flatMap h

/-- Angle brackets are tokens like others when a text is grouped. -/
theorem IsTypePart.nests {tree : Tree} (h : IsTypePart tree) : Nests (loosen tree) := by
  induction h with
  | plain hplain => exact Nests.plain hplain
  | brackets gap behind =>
    rw [loosen_group (by decide)]
    exact Nests.enclosed gap behind ('[', ']') (by decide) Nests.nil
  | angles gap behind h ih =>
    rw [loosen_angles]
    refine Nests.cons (Nests.angle gap (Or.inl rfl)) (Nests.append (nests_loosenAll ih) ?_)
    exact Nests.angle behind (Or.inr (Or.inl rfl))

theorem regroups_loosenAll {trees : List Tree}
    (h : ∀ tree ∈ trees, Regroups Brackets.angles (loosen tree) [tree]) :
    Regroups Brackets.angles (loosenAll trees) trees := by
  induction trees with
  | nil => exact Regroups.nil _
  | cons tree rest ih =>
    exact Regroups.append (h tree (by simp)) (ih fun other hother => h other (by simp [hother]))

/-- In a head the angle brackets are found again. -/
theorem IsTypePart.regroups {tree : Tree} (h : IsTypePart tree) :
    Regroups Brackets.angles (loosen tree) [tree] := by
  induction h with
  | plain hplain => exact Regroups.leaf hplain.opened?_angles hplain.closed?_angles
  | brackets gap behind =>
    rw [loosen_group (by decide)]
    exact Regroups.group _ _ _ _
  | angles gap behind h ih =>
    rw [loosen_angles]
    exact Regroups.enclosed ('<', '>') rfl rfl rfl (regroups_loosenAll ih)

/-- A tree of the head of a declaration: a type part, or parentheses around type parts whose angle
brackets are taken apart. -/
inductive IsHeadPart : Tree → Prop
  | part {tree : Tree} (h : IsTypePart tree) : IsHeadPart tree
  | parens (gap behind : List Lexeme) {inner : List Tree} (h : ∀ tree ∈ inner, IsTypePart tree) :
    IsHeadPart (.group (Token.mark gap '(') (loosenAll inner) (some (Token.mark behind ')')))

theorem IsHeadPart.nests {tree : Tree} (h : IsHeadPart tree) : Nests (loosen tree) := by
  cases h with
  | part h => exact h.nests
  | parens gap behind h =>
    rw [loosen_group (by decide)]
    exact Nests.enclosed gap behind ('(', ')') (by decide)
      (nests_loosenAll fun tree htree => (h tree htree).nests)

theorem IsHeadPart.regroups {tree : Tree} (h : IsHeadPart tree) :
    Regroups Brackets.angles (loosen tree) [tree] := by
  cases h with
  | part h => exact h.regroups
  | parens gap behind h =>
    rw [loosen_group (by decide)]
    exact Regroups.group _ _ _ _

end Tree

end JavaSignatures.Source
