import JavaSignatures.Proofs.Bodies.Pieces

set_option autoImplicit false

/-!
# Initial values of fields

The initial value of a field belongs to the head of a statement, where it can hold parentheses,
braces and angle brackets of any kind.  The head is read as if it ended at the equals sign
(`Head.ofTrees_assignment`): the equals sign is part of no annotation, no modifier and no type.
-/

namespace JavaSignatures.Source

open Canonical (markPiece isSymbol_markPiece)

/-! ## The head in front of the equals sign -/

namespace TypeExpr

/-- Over an equals sign no type is read. -/
theorem ofPieces?_of_equals (gap : List Lexeme) {row : List Piece}
    (hrow : ∀ piece ∈ row, piece.isSymbol "?" = false) (rest : List Piece) :
    ofPieces? (row ++ markPiece gap '=' :: rest) = none := by
  have hnamePart : (markPiece gap '=').isNamePart = false := by
    have hperiod := isSymbol_markPiece gap '=' "."
    rw [show (String.ofList ['='] == ".") = false from by decide] at hperiod
    exact hperiod
  unfold ofPieces?
  rw [dropWhile_append_stop (show Piece.isAnnotation (markPiece gap '=') = false from rfl)]
  split
  · rfl
  · next first behind heq =>
    have hfirst : first.isSymbol "?" = false := by
      cases hfront : row.dropWhile Piece.isAnnotation with
      | nil =>
        rw [hfront] at heq
        obtain ⟨rfl, -⟩ := List.cons.inj heq
        rw [isSymbol_markPiece]
        decide
      | cons piece front =>
        rw [hfront] at heq
        obtain ⟨rfl, -⟩ := List.cons.inj heq
        exact hrow _ ((List.dropWhile_suffix _).subset (hfront ▸ List.mem_cons_self ..))
    have hequals : markPiece gap '=' ∈ first :: behind := heq ▸ by simp
    dsimp only
    rw [hfirst, if_neg Bool.false_ne_true, if_neg]
    -- the sign is no part of the name, so it is behind it
    have hlength := (List.dropWhile_suffix (l := ((first :: behind).takeWhile
      Piece.isNamePart).reverse) Piece.isAnnotation).length_le
    rw [List.length_reverse] at hlength
    have hbehind := mem_drop_of_stop hnamePart hequals hlength
    intro hall
    rw [Bool.and_eq_true, List.all_eq_true] at hall
    exact absurd (hall.2 _ hbehind) (by simp [Piece.isBrackets, Piece.isAnnotation, markPiece])

end TypeExpr

namespace Head

variable (gap : List Lexeme)

theorem leadingVariables_append {stop : Piece}
    (hstop : ∀ types introduced, stop.shape ≠ .angles types introduced) (row rest : List Piece) :
    leadingVariables (row ++ stop :: rest) =
      ((leadingVariables row).1, (leadingVariables row).2 ++ stop :: rest) := by
  cases row with
  | nil =>
    obtain ⟨tokens, shape⟩ := stop
    cases shape with
    | angles types introduced => exact absurd rfl (hstop types introduced)
    | _ => rfl
  | cons piece row =>
    obtain ⟨tokens, shape⟩ := piece
    cases shape <;> rfl

theorem leadingVariables_equals (row rest : List Piece) :
    leadingVariables (row ++ markPiece gap '=' :: rest) =
      ((leadingVariables row).1, (leadingVariables row).2 ++ markPiece gap '=' :: rest) := by
  refine leadingVariables_append (fun types introduced h => ?_) row rest
  exact absurd h (by simp [markPiece])

/-- Rows one after the other are cut in the first one, or in the second one. -/
theorem cutAtParens?_append (row more : List Piece) :
    cutAtParens? (row ++ more) =
      match cutAtParens? row with
      | some (before, inner, after) => some (before, inner, after ++ more)
      | none => (cutAtParens? more).map fun (before, inner, after) =>
        (row ++ before, inner, after) := by
  induction row with
  | nil =>
    rw [List.nil_append]
    cases cutAtParens? more <;> rfl
  | cons piece row ih =>
    obtain ⟨tokens, shape⟩ := piece
    cases shape with
    | parens inner => rfl
    | _ =>
      simp only [List.cons_append, cutAtParens?, ih]
      cases cutAtParens? row with
      | none => cases cutAtParens? more <;> rfl
      | some cut => rfl

variable {gap} in
/-- Without parentheses in front of the equals sign there is no method. -/
theorem methodHead?_of_not_parens {comment : Option String} {modifiers : Modifiers}
    {row : List Piece} (hrow : ∀ piece ∈ row, piece.isSymbol "?" = false)
    (hcut : cutAtParens? (leadingVariables row).2 = none) (rest : List Piece) :
    methodHead? false comment modifiers (row ++ markPiece gap '=' :: rest) = none := by
  have hequals : cutAtParens? (markPiece gap '=' :: rest) =
      (cutAtParens? rest).map fun (before, inner, after) =>
        (markPiece gap '=' :: before, inner, after) := rfl
  unfold methodHead?
  rw [leadingVariables_equals]
  dsimp only
  rw [cutAtParens?_append, hcut, hequals]
  cases hbehind : cutAtParens? rest with
  | none =>
    dsimp only [Option.map_none]
    split <;> rfl
  | some cut =>
    obtain ⟨before, inner, after⟩ := cut
    dsimp only [Option.map_some]
    have hfront : ∀ piece ∈ (leadingVariables row).2, piece.isSymbol "?" = false :=
      fun piece hpiece => hrow piece (mem_of_leadingVariables hpiece)
    obtain rfl | ⟨between, name, rfl⟩ := before.eq_nil_or_concat
    · rw [List.getLast?_concat]
      rfl
    · rw [List.concat_eq_append]
      have hlast : (leadingVariables row).2 ++ markPiece gap '=' :: (between ++ [name]) =
          ((leadingVariables row).2 ++ markPiece gap '=' :: between) ++ [name] := by simp
      rw [hlast, List.getLast?_concat, List.dropLast_concat,
        TypeExpr.ofPieces?_of_equals gap hfront]
      simp

/-- A row is read as a method only up to an equals sign. -/
theorem methodHead?_append (comment : Option String) (modifiers : Modifiers) {row : List Piece}
    (hrow : ∀ piece ∈ row, piece.isSymbol "?" = false) (rest : List Piece) :
    methodHead? false comment modifiers (row ++ markPiece gap '=' :: rest) =
      methodHead? false comment modifiers (row ++ [markPiece gap '=']) := by
  cases hcut : cutAtParens? (leadingVariables row).2 with
  | none => rw [methodHead?_of_not_parens hrow hcut, methodHead?_of_not_parens hrow hcut]
  | some cut =>
    obtain ⟨before, inner, after⟩ := cut
    have hbehind : ∀ rest, (after ++ markPiece gap '=' :: rest).takeWhile
        (fun piece => piece.isBrackets || piece.isAnnotation) =
          after.takeWhile fun piece => piece.isBrackets || piece.isAnnotation :=
      takeWhile_append_stop rfl after
    unfold methodHead?
    rw [leadingVariables_equals, leadingVariables_equals]
    dsimp only
    rw [cutAtParens?_append, cutAtParens?_append, hcut]
    dsimp only
    rw [hbehind, hbehind]

/-- The head of a field declares the same whatever its initial value is. -/
theorem ofTrees_assignment {head : List Tree} (h : TreeRow .fieldHead head)
    (value : List Tree) :
    ofTrees false (head ++ .leaf (Token.mark gap '=') :: value) =
      ofTrees false (head ++ [.leaf (Token.mark gap '=')]) := by
  have hpieces : ∀ value, Piece.ofTrees (head ++ .leaf (Token.mark gap '=') :: value) =
      Piece.ofTrees head ++ markPiece gap '=' :: Piece.ofTrees value :=
    Piece.ofTrees_append_mark h gap (by decide)
  have hquestion := Piece.not_isSymbol_question h
  generalize Piece.ofTrees head = row at *
  have hmodifier : Modifiers.isModifier (markPiece gap '=') = false := rfl
  have hrest : ∀ piece ∈ row.dropWhile Modifiers.isModifier, piece.isSymbol "?" = false :=
    fun piece hpiece => hquestion piece ((List.dropWhile_suffix _).subset hpiece)
  have hfirst : ∀ rest, ((row ++ markPiece gap '=' :: rest).head?.map Piece.comments) =
      ((row ++ [markPiece gap '=']).head?.map Piece.comments) := by
    intro rest
    cases row <;> rfl
  simp only [ofTrees, hpieces, Modifiers.split, takeWhile_append_stop hmodifier,
    dropWhile_append_stop hmodifier, hfirst, methodHead?_append gap _ _ hrest, Bool.false_eq_true,
    if_false]

end Head

end JavaSignatures.Source
