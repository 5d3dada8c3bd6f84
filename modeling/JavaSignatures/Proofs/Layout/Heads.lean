import JavaSignatures.Proofs.Layout.Types
import JavaSignatures.Source.Head

set_option autoImplicit false

/-!
# Heads under another layout

From the rows of pieces that two heads with the same tokens and comments have, the same modifiers,
names, documentation, type variables and parameters are read, with types that differ in nothing but
the white space of wildcards (`Head.dense_ofTrees`).
-/

namespace JavaSignatures.Source

open Piece (Resembles RowResembles)

/-! ## Modifiers -/

namespace Modifiers

theorem isModifier_eq {first second : Piece} (h : first.Resembles second) :
    isModifier first = isModifier second := by
  unfold isModifier
  rw [h.isAnnotation_eq, ← h.isWord_eq]
  cases hword : first.isWord with
  | true => rw [h.text_eq hword]
  | false => rfl

variable {first second : List Piece} (h : RowResembles first second)

include h

theorem ofPieces_eq : ofPieces first = ofPieces second := by
  have hwords : (first.filter Piece.isWord).map Piece.text =
      (second.filter Piece.isWord).map Piece.text := by
    induction h with
    | nil => rfl
    | @cons piece other rest rest' hpiece h ih =>
      rw [List.filter_cons, List.filter_cons, ← hpiece.isWord_eq]
      split
      · next hword => rw [List.map_cons, List.map_cons, hpiece.text_eq hword, ih]
      · exact ih
  have hcomments : first.tail.map Piece.comments = second.tail.map Piece.comments := by
    cases h with
    | nil => rfl
    | cons hpiece h => exact map_eq_of_forall₂ h fun _ _ hpiece => hpiece.comments_eq
  rw [ofPieces, ofPieces, hwords, List.flatMap_def, List.flatMap_def, hcomments]

theorem split_resembles : (split first).1 = (split second).1 ∧
    RowResembles (split first).2 (split second).2 :=
  ⟨ofPieces_eq (forall₂_takeWhile h fun _ _ => isModifier_eq),
    forall₂_dropWhile h fun _ _ => isModifier_eq⟩

end Modifiers

/-! ## Parameters -/

namespace ParameterExpr

/-- The parameter with no white space in the texts that its type keeps. -/
def dense (parameter : ParameterExpr) : ParameterExpr :=
  { parameter with type := parameter.type.dense }

theorem ofSpread?_eq (hasModifiers : Bool) (type declarator : List Piece) :
    ofSpread? hasModifiers type declarator =
      match declarator.dropWhile Piece.isAnnotation with
      | [] => none
      | name :: _ =>
        if name.isWord then
          ((((if hasModifiers then (type.head?.map Piece.comments).bind List.head? else none).map
            TypeExpr.verbatim).or (TypeExpr.ofPieces? type)).map fun type =>
              { name := name.text, type := type, varargs := true })
        else none := by
  unfold ofSpread?
  cases declarator.dropWhile Piece.isAnnotation with
  | nil => rfl
  | cons name rest =>
    cases hword : name.isWord with
    | true =>
      simp only [List.head?_cons, Option.bind_eq_bind, Option.bind_some, hword, if_true]
      exact Option.map_eq_bind.symm
    | false => simp [hword]

variable {first second : List Piece} (h : RowResembles first second)

include h

theorem map_dense_ofSpread? (hasModifiers : Bool) {declarator other : List Piece}
    (hdeclarator : RowResembles declarator other) :
    (ofSpread? hasModifiers first declarator).map dense =
      (ofSpread? hasModifiers second other).map dense := by
  have hrest := forall₂_dropWhile hdeclarator fun _ _ hpiece => hpiece.isAnnotation_eq
  have htype := TypeExpr.map_dense_ofPieces? h
  rw [ofSpread?_eq, ofSpread?_eq, h.head?_comments]
  generalize declarator.dropWhile Piece.isAnnotation = row at hrest ⊢
  generalize other.dropWhile Piece.isAnnotation = row' at hrest ⊢
  generalize (if hasModifiers = true then (second.head?.map Piece.comments).bind List.head?
    else none) = comment?
  cases hrest with
  | nil => rfl
  | cons hname _ =>
    dsimp only
    rw [← hname.isWord_eq]
    split
    · next hword =>
      have hread : ((comment?.map TypeExpr.verbatim).or
            (TypeExpr.ofPieces? first)).map TypeExpr.dense =
          ((comment?.map TypeExpr.verbatim).or
            (TypeExpr.ofPieces? second)).map TypeExpr.dense := by
        cases comment? with
        | none => exact htype
        | some comment => rfl
      rw [hname.text_eq hword]
      exact map_map_eq_of_map_eq hread
        (fun type => { name := _, type := type, varargs := true }) (fun _ => rfl) fun _ => rfl
    · rfl

theorem map_dense_ofSingle? : (ofSingle? first).map dense = (ofSingle? second).map dense := by
  have hreverse := List.rel_reverse h
  have hbehind := forall₂_takeWhile hreverse fun _ _ hpiece => hpiece.isBehind_eq
  have hrest := forall₂_dropWhile hreverse fun _ _ hpiece => hpiece.isBehind_eq
  have hcount := countP_eq_of_forall₂ hbehind fun _ _ hpiece => hpiece.isBrackets_eq
  unfold ofSingle?
  dsimp only
  rw [hcount]
  generalize first.reverse.dropWhile _ = row at hrest ⊢
  generalize second.reverse.dropWhile _ = row' at hrest ⊢
  generalize List.countP _ _ = dimensions
  cases hrest with
  | nil => rfl
  | @cons name name' _ _ hname htype =>
    dsimp only
    rw [← hname.isWord_eq, ← hname.isKeyword_eq]
    split
    · next hword =>
      have hread := TypeExpr.map_dense_ofPieces? (List.rel_reverse htype)
      have hdense : ∀ type : TypeExpr,
          dense { name := name'.text, type := type.withDimensions dimensions } =
            { name := name'.text, type := type.dense.withDimensions dimensions } := by
        intro type
        rw [dense, TypeExpr.dense_withDimensions]
      rw [hname.text_eq (Bool.and_eq_true_iff.mp hword).1]
      exact map_map_eq_of_map_eq hread
        (fun type => { name := name'.text, type := type.withDimensions dimensions }) hdense hdense
    · rfl

theorem map_dense_ofPieces? : (ofPieces? first).map dense = (ofPieces? second).map dense := by
  have hrest := forall₂_dropWhile h fun _ _ => Modifiers.isModifier_eq
  have hdots : ∀ piece other : Piece, piece.Resembles other →
      (!piece.isSymbol "...") = !other.isSymbol "..." :=
    fun _ _ hpiece => by rw [hpiece.isSymbol_eq]
  have htype := forall₂_takeWhile hrest hdots
  have hdeclarator := forall₂_dropWhile hrest hdots
  unfold ofPieces?
  dsimp only
  rw [h.length_eq, hrest.length_eq]
  generalize (first.dropWhile Modifiers.isModifier).dropWhile _ = row at hdeclarator ⊢
  generalize (second.dropWhile Modifiers.isModifier).dropWhile _ = row' at hdeclarator ⊢
  cases hdeclarator with
  | nil => exact map_dense_ofSingle? hrest
  | cons hmark hdeclarator => exact map_dense_ofSpread? htype _ hdeclarator

omit h

theorem map_dense_listOfTrees {trees other : List Tree}
    (h : trees.map Tree.dense = other.map Tree.dense) :
    (listOfTrees trees).map dense = (listOfTrees other).map dense := by
  have hdense : ∀ trees : List Tree, (listOfTrees (trees.map Tree.dense)).map dense =
      (listOfTrees trees).map dense := by
    intro trees
    rw [listOfTrees, listOfTrees, List.map_filterMap, List.map_filterMap]
    exact filterMap_eq_of_forall₂
      ((Piece.rowResembles_ofTrees trees).parts fun _ _ hpiece => hpiece.isSymbol_eq ",")
      fun _ _ => map_dense_ofPieces?
  rw [← hdense, h, hdense]

end ParameterExpr

/-! ## Heads -/

/-- The head with no white space in the texts that its types keep. -/
def MethodHead.dense (head : MethodHead) : MethodHead :=
  { head with
    result := head.result.dense
    typeVariables := head.typeVariables.map VariableExpr.dense
    parameters := head.parameters.map ParameterExpr.dense }

/-- The head with no white space in the texts that its types keep. -/
def TypeHead.dense (head : TypeHead) : TypeHead :=
  { head with typeVariables := head.typeVariables.map VariableExpr.dense }

namespace Head

/-- The head with no white space in the texts that its types keep. -/
def dense : Head → Head
  | .method head => .method head.dense
  | .type head => .type head.dense
  | .other => .other

variable {first second : List Piece} (h : RowResembles first second)

include h

theorem leadingVariables_resembles :
    (leadingVariables first).1.map VariableExpr.dense =
        (leadingVariables second).1.map VariableExpr.dense ∧
      RowResembles (leadingVariables first).2 (leadingVariables second).2 := by
  cases h with
  | nil => exact ⟨rfl, .nil⟩
  | @cons piece other rest rest' hpiece h =>
    obtain ⟨tokens, shape⟩ := piece
    obtain ⟨tokens', shape'⟩ := other
    have hshape : shape.dense = shape'.dense := hpiece.shape
    cases shape with
    | angles types introduced =>
      cases shape' with
      | angles types' introduced' => exact ⟨(Shape.angles.inj hshape).2, h⟩
      | _ => simp [Shape.dense] at hshape
    | _ =>
      cases shape' with
      | angles types' introduced' => simp [Shape.dense] at hshape
      | _ => exact ⟨rfl, .cons hpiece h⟩

omit h in
theorem kind?_eq {piece other : Piece} (h : piece.Resembles other) : kind? piece = kind? other := by
  unfold kind?
  rw [← h.isWord_eq]
  cases hword : piece.isWord with
  | true => rw [h.text_eq hword]
  | false => rfl

theorem map_dense_typeHead? (comment : Option String) (modifiers : Modifiers) :
    (typeHead? comment modifiers first).map TypeHead.dense =
      (typeHead? comment modifiers second).map TypeHead.dense := by
  match h with
  | .nil => rfl
  | .cons hkeyword .nil => rfl
  | .cons hkeyword (.cons hname hrest) =>
    have hvariables := (leadingVariables_resembles hrest).1
    unfold typeHead?
    dsimp only
    rw [kind?_eq hkeyword, ← hname.isWord_eq]
    split
    · split
      · next hword =>
        simp only [Option.map_some, TypeHead.dense, hname.text_eq hword, hvariables]
      · rfl
    · rfl

omit h in
/-- What stands in front of parentheses, in them and behind them is the same but for white space. -/
def CutResembles (cut other : List Piece × List Tree × List Piece) : Prop :=
  RowResembles cut.1 other.1 ∧ cut.2.1.map Tree.dense = other.2.1.map Tree.dense ∧
    RowResembles cut.2.2 other.2.2

theorem cutAtParens?_resembles :
    Option.Rel CutResembles (cutAtParens? first) (cutAtParens? second) := by
  induction h with
  | nil => exact .none
  | @cons piece other rest rest' hpiece h ih =>
    obtain ⟨tokens, shape⟩ := piece
    obtain ⟨tokens', shape'⟩ := other
    have hshape : shape.dense = shape'.dense := hpiece.shape
    have hbehind : Option.Rel CutResembles
        ((cutAtParens? rest).map fun cut => (⟨tokens, shape⟩ :: cut.1, cut.2.1, cut.2.2))
        ((cutAtParens? rest').map fun cut => (⟨tokens', shape'⟩ :: cut.1, cut.2.1, cut.2.2)) := by
      generalize cutAtParens? rest = cut at ih ⊢
      generalize cutAtParens? rest' = cut' at ih ⊢
      cases ih with
      | none => exact .none
      | some hcut => exact .some ⟨.cons hpiece hcut.1, hcut.2⟩
    cases shape with
    | parens inner =>
      cases shape' with
      | parens inner' => exact .some ⟨.nil, Shape.parens.inj hshape, h⟩
      | _ => simp [Shape.dense] at hshape
    | _ =>
      cases shape' with
      | parens inner' => simp [Shape.dense] at hshape
      | _ => exact hbehind

theorem map_dense_methodHead? (hasBlock : Bool) (comment : Option String) (modifiers : Modifiers) :
    (methodHead? hasBlock comment modifiers first).map MethodHead.dense =
      (methodHead? hasBlock comment modifiers second).map MethodHead.dense := by
  obtain ⟨hvariables, hrest⟩ := leadingVariables_resembles h
  have hcut := cutAtParens?_resembles hrest
  unfold methodHead?
  dsimp only
  generalize (leadingVariables first).1 = introduced at hvariables ⊢
  generalize (leadingVariables second).1 = introduced' at hvariables ⊢
  generalize (leadingVariables first).2 = row at hrest hcut ⊢
  generalize (leadingVariables second).2 = row' at hrest hcut ⊢
  generalize cutAtParens? row = cut at hcut ⊢
  generalize cutAtParens? row' = cut' at hcut ⊢
  cases hcut with
  | none =>
    match hrest with
    | .nil => rfl
    | .cons hname .nil =>
      have hempty : introduced.isEmpty = introduced'.isEmpty := by
        rw [← List.isEmpty_map, hvariables, List.isEmpty_map]
      dsimp only
      rw [hempty, hname.isWord_eq]
      split
      · simp only [Option.map_some, MethodHead.dense, hvariables]
      · rfl
    | .cons hname (.cons hnext hmore) => rfl
  | @some cut cut' hparts =>
    obtain ⟨before, inner, after⟩ := cut
    obtain ⟨before', inner', after'⟩ := cut'
    obtain ⟨hbefore, hinner, hafter⟩ := hparts
    have hparameters := ParameterExpr.map_dense_listOfTrees hinner
    dsimp only at hbefore hafter ⊢
    rcases List.eq_nil_or_concat' before with rfl | ⟨type, name, rfl⟩
    · rw [List.forall₂_nil_left_iff.mp hbefore]
      rfl
    · obtain ⟨type', name', rfl, htype, hname⟩ := exists_concat_of_forall₂ hbefore
      have hempty : type.isEmpty = type'.isEmpty := by cases htype <;> rfl
      have hcount : (after.takeWhile fun piece => piece.isBrackets || piece.isAnnotation).countP
            Piece.isBrackets =
          (after'.takeWhile fun piece => piece.isBrackets || piece.isAnnotation).countP
            Piece.isBrackets := by
        have hbehind := forall₂_takeWhile hafter fun _ _ hpiece => hpiece.isBehind_eq
        exact countP_eq_of_forall₂ hbehind fun _ _ hpiece => hpiece.isBrackets_eq
      rw [List.getLast?_concat, List.getLast?_concat, List.dropLast_concat, List.dropLast_concat]
      dsimp only
      rw [← hname.isWord_eq, hempty]
      split
      · rfl
      · next hword =>
        split
        · split
          · simp only [Option.map_some, MethodHead.dense, hvariables, hparameters]
          · rfl
        · rw [hname.text_eq (by simpa using hword), hcount]
          generalize List.countP _ _ = dimensions
          refine map_map_eq_of_map_eq (TypeExpr.map_dense_ofPieces? htype)
            (fun type =>
              { name := some name'.text
                result := type.withDimensions dimensions
                typeVariables := introduced'.map VariableExpr.dense
                parameters := (ParameterExpr.listOfTrees inner').map ParameterExpr.dense
                visibility := modifiers.visibility
                comment := comment }) (fun type => ?_) fun type => ?_
          · simp only [MethodHead.dense, TypeExpr.dense_withDimensions, hvariables, hparameters]
          · simp only [MethodHead.dense, TypeExpr.dense_withDimensions]

omit h

/-- What a head declares does not depend on its layout. -/
theorem dense_ofTrees (hasBlock : Bool) (trees : List Tree) :
    (ofTrees hasBlock (trees.map Tree.dense)).dense = (ofTrees hasBlock trees).dense := by
  have hpieces := Piece.rowResembles_ofTrees trees
  obtain ⟨hmodifiers, hrest⟩ := Modifiers.split_resembles hpieces
  have hbefore := hpieces.head?_comments
  unfold ofTrees
  dsimp only
  rw [hbefore, hmodifiers]
  generalize docComment _ _ = comment
  generalize (Modifiers.split (Piece.ofTrees trees)).1 = modifiers
  have hmethod := map_dense_methodHead? hrest hasBlock comment modifiers
  have htype : (if hasBlock then typeHead? comment modifiers
        (Modifiers.split (Piece.ofTrees (trees.map Tree.dense))).2 else none).map TypeHead.dense =
      (if hasBlock then typeHead? comment modifiers
        (Modifiers.split (Piece.ofTrees trees)).2 else none).map TypeHead.dense := by
    split
    · exact map_dense_typeHead? hrest comment modifiers
    · rfl
  generalize (if hasBlock then typeHead? comment modifiers
    (Modifiers.split (Piece.ofTrees (trees.map Tree.dense))).2 else none) = declared at htype ⊢
  generalize (if hasBlock then typeHead? comment modifiers
    (Modifiers.split (Piece.ofTrees trees)).2 else none) = declared' at htype ⊢
  generalize methodHead? hasBlock comment modifiers
    (Modifiers.split (Piece.ofTrees (trees.map Tree.dense))).2 = method at hmethod ⊢
  generalize methodHead? hasBlock comment modifiers
    (Modifiers.split (Piece.ofTrees trees)).2 = method' at hmethod ⊢
  cases declared with
  | some head =>
    obtain ⟨head', rfl, hheads⟩ := Option.map_eq_some_iff.mp htype.symm
    exact congrArg Head.type hheads.symm
  | none =>
    obtain rfl : declared' = none := by simpa using htype.symm
    cases method with
    | some head =>
      obtain ⟨head', rfl, hheads⟩ := Option.map_eq_some_iff.mp hmethod.symm
      exact congrArg Head.method hheads.symm
    | none =>
      obtain rfl : method' = none := by simpa using hmethod.symm
      rfl

end Head

end JavaSignatures.Source
