import JavaSignatures.Proofs.ImportLookup
import JavaSignatures.Proofs.NameAgreement
import JavaSignatures.Proofs.VariableScoping

set_option autoImplicit false

/-!
# Type variables in bounds

The bounds of a list of type variables are looked up outside of the list.  So a reference in a bound
keeps its name if the variable is in view from outside, and a reference to a variable of the list
itself is taken for the name of a type: the imports of the file decide what becomes of it
(`Source.qualifiedName_in_bounds`).  Where the file has a package this is mostly the name of a type
in it (`Source.exists_variable_qualified`).
-/

namespace JavaSignatures

open TypeVariable (IsAmong isAmong_iff)

/-! ## Lists of type variables -/

/-- A list of type variables and the variables that are in view where it stands. -/
structure VariableList where
  outside : List TypeVariable
  own : List TypeVariable

namespace VariableList

/-- The references to types in the bounds of the list, at any depth. -/
def references (list : VariableList) : List TypeRef :=
  list.own.flatMap fun introduced => TypeRef.referencesOf introduced.bounds

end VariableList

/-- The lists of type variables of the declaration: its own and those of its methods. -/
def Declaration.variableLists (declaration : Declaration) : List VariableList :=
  ⟨declaration.enclosingTypeVariables, declaration.typeVariables⟩ ::
    declaration.methods.map fun method => ⟨declaration.visibleVariables, method.typeVariables⟩

namespace Source

open Lexeme (isWordPart)

/-! ## Type variables as they are written -/

namespace VariableExpr

/-- The variable is named by a word, and the texts in its bounds that are no names look like none. -/
structure IsProper (introduced : VariableExpr) : Prop where
  name : ∀ c ∈ introduced.name.toList, isWordPart c = true
  bounds : TypeExpr.AreProper introduced.bounds

variable {pieces : List Piece} (h : ∀ piece ∈ pieces, piece.IsProper)
  (hwords : ∀ piece ∈ pieces, piece.isWord = true → ∀ c ∈ piece.text.toList, isWordPart c = true)
  {introduced : VariableExpr}

include h hwords

theorem isProper_of_ofPieces? (hread : ofPieces? pieces = some introduced) :
    introduced.IsProper := by
  unfold ofPieces? at hread
  split at hread
  · next name rest hdrop =>
    have hsubset : name :: rest ⊆ pieces :=
      hdrop ▸ (List.dropWhile_suffix Piece.isAnnotation).subset
    obtain ⟨hname, hrest⟩ := List.cons_subset.mp hsubset
    split at hread
    · next hword =>
      obtain rfl := Option.some.inj hread
      refine ⟨hwords name hname hword, ?_⟩
      dsimp only
      split
      · next keyword bounds =>
        split
        · exact TypeExpr.areProper_boundsOfPieces fun piece hpiece =>
            h piece (hrest (List.mem_cons_of_mem _ hpiece))
        · trivial
      · trivial
    · exact absurd hread (by simp)
  · exact absurd hread (by simp)

theorem isProper_of_mem_listOfPieces (hmem : introduced ∈ listOfPieces pieces) :
    introduced.IsProper := by
  obtain ⟨part, hpart, hread⟩ := List.mem_filterMap.mp hmem
  apply isProper_of_ofPieces? _ _ hread
  · intro piece hpiece
    exact h piece (Piece.mem_of_mem_parts hpart hpiece)
  · intro piece hpiece
    exact hwords piece (Piece.mem_of_mem_parts hpart hpiece)

end VariableExpr

namespace Piece

/-- A list in angle brackets is read from the trees between them. -/
theorem exists_trees_of_angles {piece : Piece} {trees : List Tree} (h : piece ∈ ofTrees trees)
    {types : List TypeExpr} {introduced : List VariableExpr}
    (hshape : piece.shape = .angles types introduced) :
    ∃ inner, Tree.tokensOf inner ⊆ Tree.tokensOf trees ∧
      introduced = VariableExpr.listOfPieces (joinAnnotations (ofTreesApart inner)) := by
  have hplain : piece ∈ ofTreesApart (Tree.groupAngles trees) := by
    apply (mem_joinAnnotations h).resolve_left
    unfold isAnnotation
    rw [hshape]
    simp
  rw [ofTreesApart_eq_map] at hplain
  obtain ⟨tree, htree, rfl⟩ := List.mem_map.mp hplain
  cases tree with
  | leaf token =>
    rw [ofTree] at hshape
    cases hkind : token.lexeme.kind <;> simp [hkind] at hshape
  | group opening inner closing =>
    refine ⟨inner, fun token htoken => ?_, ?_⟩
    · rw [← Tree.tokensOf_groupAngles]
      exact Tree.mem_tokensOf_of_mem htree (by simp [Tree.tokens, htoken])
    · rw [ofTree] at hshape
      dsimp only at hshape
      split at hshape
      · exact (Shape.angles.inj hshape).2.symm
      · split at hshape
        · exact absurd hshape (by simp)
        · split at hshape <;> exact absurd hshape (by simp)

end Piece

namespace Head

/-- The type variables that a head introduces. -/
def typeVariables : Head → List VariableExpr
  | .method head => head.typeVariables
  | .type head => head.typeVariables
  | .other => []

/-- Type variables stand in front of a row of pieces of the head. -/
theorem exists_row_of_ofTrees (hasBlock : Bool) (trees : List Tree) :
    ∃ row, row ⊆ Piece.ofTrees trees ∧
      (ofTrees hasBlock trees).typeVariables = (leadingVariables row).1 := by
  cases hhead : ofTrees hasBlock trees with
  | method head =>
    obtain ⟨comment, modifiers, row, hrow, hread⟩ := exists_methodHead?_of_ofTrees hhead
    exact ⟨row, hrow, (cases_of_methodHead? hread).1⟩
  | type head =>
    obtain ⟨comment, modifiers, row, hrow, hread⟩ := exists_typeHead?_of_ofTrees hhead
    obtain ⟨keyword, name, rest, rfl, -, -, hvariables⟩ := cases_of_typeHead? hread
    obtain ⟨-, hrest⟩ := List.cons_subset.mp (List.cons_subset.mp hrow).2
    exact ⟨rest, hrest, hvariables⟩
  | other => exact ⟨[], List.nil_subset _, rfl⟩

theorem exists_piece_of_leadingVariables {row : List Piece} {introduced : VariableExpr}
    (h : introduced ∈ (leadingVariables row).1) :
    ∃ piece ∈ row, ∃ types list, piece.shape = .angles types list ∧ introduced ∈ list := by
  unfold leadingVariables at h
  split at h
  · exact ⟨_, List.mem_cons_self .., _, _, rfl, h⟩
  · exact absurd h (List.not_mem_nil)

/-- The type variables of a head in a source text are proper. -/
theorem isProper_of_mem_typeVariables {source : List Char} {trees : List Tree}
    (htokens : Tree.tokensOf trees ⊆ Token.ofSource source) {hasBlock : Bool}
    {introduced : VariableExpr} (h : introduced ∈ (ofTrees hasBlock trees).typeVariables) :
    introduced.IsProper := by
  obtain ⟨row, hrow, hvariables⟩ := exists_row_of_ofTrees hasBlock trees
  rw [hvariables] at h
  obtain ⟨piece, hpiece, types, list, hshape, hmem⟩ := exists_piece_of_leadingVariables h
  obtain ⟨inner, hinner, rfl⟩ := Piece.exists_trees_of_angles (hrow hpiece) hshape
  apply VariableExpr.isProper_of_mem_listOfPieces _ _ hmem
  · apply Piece.isProper_joinAnnotations
    apply Piece.isProper_ofTreesApart
    intro token htoken
    exact Token.isProper_of_mem_ofSource (htokens (hinner htoken))
  · intro word hword hisWord
    obtain ⟨token, htoken, htext, heq⟩ := Piece.exists_token_of_mem_joinAnnotations hword hisWord
    rw [heq]
    exact Token.isWordPart_of_mem_ofSource (htokens (hinner htoken)) htext

end Head

/-! ## What bounds are qualified to -/

section Bounds

variable {context : Context} {type : TypeRef}

/-- The references in the bounds of a list are qualified outside of it. -/
theorem isQualified_references {written : List VariableExpr}
    (hproper : ∀ introduced ∈ written, introduced.IsProper) :
    ∀ type ∈ VariableList.references ⟨context.visible, context.typeVariables written⟩,
      IsQualified context type := by
  intro type htype
  obtain ⟨introduced, hintroduced, htype⟩ := List.mem_flatMap.mp htype
  obtain ⟨expr, hexpr, rfl⟩ := List.mem_map.mp hintroduced
  exact Context.isQualified_typeRefs expr.bounds (hproper expr hexpr).bounds type htype

theorem any_visible_iff {name : String} :
    (context.visible.any fun candidate => candidate.name == name) = true ↔
      IsAmong context.visible name := by
  simp [IsAmong]

theorem IsQualified.eq_name (h : IsQualified context type)
    (hvisible : IsAmong context.visible type.name) : type.qualifiedName = type.name := by
  rcases h with hname | ⟨hname, -⟩
  · rw [hname, Context.qualify, if_pos (any_visible_iff.mpr hvisible)]
  · exact hname

theorem IsQualified.eq_resolve (h : IsQualified context type)
    (hvisible : ¬IsAmong context.visible type.name) (hperiod : '.' ∉ type.name.toList) :
    type.qualifiedName = context.imports.resolve type.name := by
  rcases h with hname | ⟨hname, hforeign⟩
  · have hany := Bool.eq_false_iff.mpr (mt any_visible_iff.mp hvisible)
    rw [hname, qualify_of_not_visible hany]
    cases hsplit : Name.splitFirst? type.name with
    | none => rfl
    | some parts => exact absurd (by simp [Name.toList_of_splitFirst? hsplit]) hperiod
  · rw [hname, ImportScope.resolve_of_not_isSimple _ hforeign.not_name.1]

end Bounds

/-! ## Source texts -/

theorem IsMadeOf.typeVariables {outline : Outline} {declaration : Declaration}
    (h : IsMadeOf outline declaration) :
    declaration.typeVariables = Context.typeVariables
      ⟨declaration.imports, declaration.enclosingTypeVariables⟩ outline.head.typeVariables := by
  obtain ⟨context, owner, rfl⟩ := h
  cases outline
  rfl

/-- Each list of type variables in a declaration is written with proper variables and qualified
outside of itself. -/
theorem exists_written_of_variableLists {source : List Char} {outline : Outline}
    {declaration : Declaration} (hmade : IsMadeOf outline declaration)
    (hread : outline.IsReadFrom (Statement.headsOf (Statement.ofSource source)))
    {list : VariableList} (hlist : list ∈ declaration.variableLists) :
    ∃ written : List VariableExpr, (∀ introduced ∈ written, introduced.IsProper) ∧
      list.own = Context.typeVariables ⟨declaration.imports, list.outside⟩ written := by
  have hproper : ∀ trees ∈ Statement.headsOf (Statement.ofSource source), ∀ hasBlock,
      ∀ introduced ∈ (Head.ofTrees hasBlock trees).typeVariables, introduced.IsProper := by
    intro trees htrees hasBlock introduced
    apply Head.isProper_of_mem_typeVariables
    intro token htoken
    exact Statement.mem_ofSource_of_mem_heads htrees htoken
  rcases List.mem_cons.mp hlist with rfl | hlist
  · obtain ⟨trees, htrees, hhead⟩ := hread.head
    have hhere := hproper trees htrees true
    rw [hhead] at hhere
    exact ⟨outline.head.typeVariables, hhere, hmade.typeVariables⟩
  · obtain ⟨method, hmethod, rfl⟩ := List.mem_map.mp hlist
    rw [hmade.methods] at hmethod
    obtain ⟨head, hhead, rfl⟩ := List.mem_map.mp hmethod
    obtain ⟨trees, htrees, hasBlock, hmethod⟩ := hread.methods head hhead
    have hhere := hproper trees htrees hasBlock
    rw [hmethod] at hhere
    exact ⟨head.typeVariables, hhere, rfl⟩

/-- Where a bound refers to a type variable, the reference keeps its name if the variable is in view
outside of the list with the bound.  Otherwise the imports take the name for the name of a type, and
it stays only if they leave it alone. -/
theorem qualifiedName_in_bounds {source : String} {root : Declaration}
    (hroot : parse source = .ok root) {declaration : Declaration}
    (hdeclaration :
      Relation.ReflTransGen (fun outer inner => inner ∈ outer.nested) root declaration)
    {list : VariableList} (hlist : list ∈ declaration.variableLists) {type : TypeRef}
    (htype : type ∈ list.references) (hvariable : IsAmong (list.outside ++ list.own) type.name) :
    (IsAmong list.outside type.name → type.qualifiedName = type.name) ∧
      (¬IsAmong list.outside type.name →
        type.qualifiedName = declaration.imports.resolve type.name) ∧
      (type.qualifiedName = type.name ↔
        IsAmong list.outside type.name ∨ declaration.imports.leavesAlone type.name = true) := by
  obtain ⟨outline, hmade, -, hread, -⟩ := exists_outline_of_parse hroot hdeclaration
  obtain ⟨written, hproper, hown⟩ := exists_written_of_variableLists hmade hread hlist
  obtain ⟨outside, own⟩ := list
  dsimp only at hown hvariable ⊢
  subst hown
  have hqualified : IsQualified ⟨declaration.imports, outside⟩ type :=
    isQualified_references hproper type htype
  have hinside : IsAmong outside type.name → type.qualifiedName = type.name := hqualified.eq_name
  have hresolved : ¬IsAmong outside type.name →
      type.qualifiedName = declaration.imports.resolve type.name := by
    intro houtside
    apply hqualified.eq_resolve houtside
    -- the name is the one of a variable of the list, so it is a word
    obtain ⟨candidate, hcandidate, hname⟩ := hvariable
    have hlisted := (List.mem_append.mp hcandidate).resolve_left fun hmem =>
      houtside ⟨candidate, hmem, hname⟩
    obtain ⟨expr, hexpr, rfl⟩ := List.mem_map.mp hlisted
    rw [← hname]
    intro hperiod
    exact absurd ((hproper expr hexpr).name '.' hperiod) (by decide +kernel)
  refine ⟨hinside, hresolved, ?_⟩
  by_cases houtside : IsAmong outside type.name
  · simp [hinside houtside, houtside]
  · rw [hresolved houtside, ImportScope.resolve_eq_self_iff, or_iff_right houtside]

/-- Bounds that refer to variables of the declarations around and to variables of their own list. -/
def boundsSource : String :=
  "package p; class A<T> { class B<U> { <K extends V, V extends Map<T, U[]>> void m(K k); } }"

/-- In the bounds of the method the variables of the classes keep their names, and the variable of
the same list is taken for a type of the package. -/
theorem qualifiedName_in_bounds_boundsSource :
    ∃ root inner list, parse boundsSource = .ok root ∧ inner ∈ root.nested ∧
      list ∈ inner.variableLists ∧
      list.references.map TypeRef.name = ["V", "Map", "T", "U"] ∧
      ∀ type ∈ list.references, (type.name ∈ ["T", "U"] → type.qualifiedName = type.name) ∧
        (type.name = "V" → type.qualifiedName = "p.V") := by
  have hshape : (parse boundsSource).map (fun root => root.nested.map fun inner =>
      (inner.imports.resolve "V", inner.variableLists.map fun list =>
        [list.outside.map TypeVariable.name, list.own.map TypeVariable.name,
          list.references.map TypeRef.name])) =
      .ok [("p.V", [[["T"], ["U"], []], [["T", "U"], ["K", "V"], ["V", "Map", "T", "U"]]])] := by
    decide +kernel
  obtain ⟨root, hparse, hvalue⟩ := exists_parse_eq_of_map hshape
  obtain ⟨inner, hinner, hlists⟩ := List.map_eq_singleton_iff.mp hvalue
  obtain ⟨hresolve, hlists⟩ := Prod.mk.inj hlists
  have hnested : inner ∈ root.nested := by rw [hinner]; exact List.mem_singleton_self _
  obtain ⟨first, more, hvariables, -, hmore⟩ := List.map_eq_cons_iff.mp hlists
  obtain ⟨list, hlist, hnames⟩ := List.map_eq_singleton_iff.mp hmore
  obtain ⟨houtside, hown, hreferences⟩ := by simpa only [List.cons.injEq, and_true] using hnames
  have hmem : list ∈ inner.variableLists := by
    rw [hvariables, hlist]
    exact List.mem_cons_of_mem _ (List.mem_singleton_self _)
  refine ⟨root, inner, list, hparse, hnested, hmem, hreferences, fun type htype => ⟨?_, ?_⟩⟩
  · intro hname
    have hvisible : IsAmong list.outside type.name := by
      rw [isAmong_iff, houtside]
      exact hname
    have hvariable : IsAmong (list.outside ++ list.own) type.name := by
      rw [isAmong_iff, List.map_append, houtside]
      exact List.mem_append_left _ hname
    exact (qualifiedName_in_bounds hparse (.single hnested) hmem htype hvariable).1 hvisible
  · intro hname
    have hhidden : ¬IsAmong list.outside type.name := by
      rw [isAmong_iff, houtside, hname]
      decide
    have hvariable : IsAmong (list.outside ++ list.own) type.name := by
      rw [isAmong_iff, List.map_append, houtside, hown, hname]
      decide
    have hresolved :=
      (qualifiedName_in_bounds hparse (.single hnested) hmem htype hvariable).2.1 hhidden
    rw [hresolved, hname, hresolve]

/-- A bound that refers to its own variable, in a file with a package. -/
def selfBoundSource : String := "package p; class A<T extends Comparable<T>> { }"

/-- A type variable can be qualified in a bound, so that it is no type variable any more. -/
theorem exists_variable_qualified :
    ¬∀ (source : String) (root declaration : Declaration), parse source = .ok root →
      Relation.ReflTransGen (fun outer inner => inner ∈ outer.nested) root declaration →
      ∀ list ∈ declaration.variableLists, ∀ type ∈ list.references,
        IsAmong (list.outside ++ list.own) type.name → type.qualifiedName = type.name := by
  intro h
  have hshape : (parse selfBoundSource).map (fun root =>
      (root.typeVariables.map TypeVariable.name,
        (VariableList.references ⟨[], root.typeVariables⟩).map fun type =>
          (type.name, type.qualifiedName))) =
      .ok (["T"], [("Comparable", "java.lang.Comparable"), ("T", "p.T")]) := by
    decide +kernel
  obtain ⟨root, hparse, hvalue⟩ := exists_parse_eq_of_map hshape
  obtain ⟨hnames, hreferences⟩ := Prod.mk.inj hvalue
  -- the second reference, `T` inside of the bound of `T`
  obtain ⟨first, more, hlist, -, hmore⟩ := List.map_eq_cons_iff.mp hreferences
  obtain ⟨type, rfl, hpair⟩ := List.map_eq_singleton_iff.mp hmore
  obtain ⟨hname, hqualified⟩ := Prod.mk.inj hpair
  have hmem : type ∈ VariableList.references ⟨root.enclosingTypeVariables, root.typeVariables⟩ := by
    have hlast : type ∈ [first, type] := List.mem_cons_of_mem _ (List.mem_singleton_self _)
    exact hlist ▸ hlast
  have hvariable : IsAmong (root.enclosingTypeVariables ++ root.typeVariables) type.name := by
    rw [isAmong_iff, List.map_append, hnames, hname]
    exact List.mem_append_right _ (List.mem_singleton_self _)
  have hkept :=
    h selfBoundSource root root hparse .refl _ (List.mem_cons_self ..) type hmem hvariable
  rw [hqualified, hname] at hkept
  exact absurd hkept (by decide)

end Source

end JavaSignatures
