import JavaSignatures.Proofs.SourceWords
import Mathlib.Logic.Relation

set_option autoImplicit false

/-!
# Declarations and the outlines they are made of

A declaration is made of an outline in the context that the declaration around it has inside.  That
context can be read off the declaration itself (`Context.inside`), so what the walk through a file
leaves behind is described here without the contexts of the walk: the methods of a declaration and
the declarations nested in it by `IsMadeOf`.  An outline at any depth is read from heads of
statements of the file (`Outline.isReadFrom_of_nested`).
-/

namespace JavaSignatures

/-- The type variables in view inside of a declaration, innermost last. -/
def Declaration.visibleVariables (declaration : Declaration) : List TypeVariable :=
  declaration.enclosingTypeVariables ++ declaration.typeVariables

namespace Source

/-- The context inside of a declaration. -/
def Context.inside (declaration : Declaration) : Context :=
  ⟨declaration.imports, declaration.visibleVariables⟩

/-- The declaration is made of the outline. -/
def IsMadeOf (outline : Outline) (declaration : Declaration) : Prop :=
  ∃ context owner, declaration = outline.declare context owner

namespace IsMadeOf

variable {outline : Outline} {declaration : Declaration}

theorem name (h : IsMadeOf outline declaration) : declaration.name = outline.head.name := by
  obtain ⟨context, owner, rfl⟩ := h
  cases outline
  rfl

theorem methods (h : IsMadeOf outline declaration) :
    declaration.methods = outline.methods.map fun head =>
      head.method (.inside declaration) declaration.name := by
  obtain ⟨context, owner, rfl⟩ := h
  cases outline
  rfl

theorem nested (h : IsMadeOf outline declaration) :
    declaration.nested =
      outline.nested.map (Outline.declare (.inside declaration) declaration.qualifiedName) := by
  obtain ⟨context, owner, rfl⟩ := h
  rw [← Outline.declareAll_eq_map]
  cases outline
  rfl

/-- Every nested declaration is made of a nested outline. -/
theorem exists_outline_of_mem (h : IsMadeOf outline declaration) {inner : Declaration}
    (hinner : inner ∈ declaration.nested) :
    ∃ written ∈ outline.nested, IsMadeOf written inner ∧ inner.imports = declaration.imports := by
  rw [h.nested, List.mem_map] at hinner
  obtain ⟨written, hwritten, rfl⟩ := hinner
  refine ⟨written, hwritten, ⟨_, _, rfl⟩, ?_⟩
  cases written
  rfl

/-- So is every declaration at any depth, of an outline at that depth. -/
theorem exists_outline_of_nested (h : IsMadeOf outline declaration) {inner : Declaration}
    (hnested : Relation.ReflTransGen (fun outer inner => inner ∈ outer.nested) declaration inner) :
    ∃ written, Relation.ReflTransGen (fun outer inner => inner ∈ outer.nested) outline written ∧
      IsMadeOf written inner ∧ inner.imports = declaration.imports := by
  induction hnested with
  | refl => exact ⟨outline, .refl, h, rfl⟩
  | tail _ hstep ih =>
    obtain ⟨between, hbetween, hmade, himports⟩ := ih
    obtain ⟨written, hwritten, hinner, hsame⟩ := hmade.exists_outline_of_mem hstep
    exact ⟨written, hbetween.tail hwritten, hinner, hsame.trans himports⟩

end IsMadeOf

/-! ## Outlines and the statements that they are read from -/

namespace Outline

/-- The head of the outline and those of its methods are read from heads of statements. -/
structure IsReadFrom (heads : List (List Tree)) (outline : Outline) : Prop where
  head : ∃ trees ∈ heads, Head.ofTrees true trees = .type outline.head
  methods : ∀ method ∈ outline.methods,
    ∃ trees ∈ heads, ∃ hasBlock, Head.ofTrees hasBlock trees = .method method

theorem IsReadFrom.mono {heads more : List (List Tree)} {outline : Outline}
    (h : IsReadFrom heads outline) (hsubset : heads ⊆ more) : IsReadFrom more outline := by
  obtain ⟨⟨trees, htrees, hhead⟩, hmethods⟩ := h
  refine ⟨⟨trees, hsubset htrees, hhead⟩, fun method hmethod => ?_⟩
  obtain ⟨found, hfound, hread⟩ := hmethods method hmethod
  exact ⟨found, hsubset hfound, hread⟩

theorem exists_statement_of_mem {constants : Bool} {statements : List Statement} {outline : Outline}
    (h : outline ∈ ofStatements constants statements) :
    ∃ statement ∈ statements, ofStatement? statement = some outline := by
  cases constants with
  | false =>
    rw [ofStatements_false] at h
    exact List.mem_filterMap.mp h
  | true =>
    rw [ofStatements_true, ofStatements_false] at h
    obtain ⟨statement, hstatement, hread⟩ := List.mem_filterMap.mp h
    exact ⟨statement, (List.dropWhile_suffix _).subset (List.mem_of_mem_tail hstatement), hread⟩

/-- One step inwards: an outline is read from a statement, and what is nested in it from the
statements of the block. -/
theorem exists_body_of_mem {constants : Bool} {statements : List Statement} {outline : Outline}
    (h : outline ∈ ofStatements constants statements) :
    IsReadFrom (Statement.headsOf statements) outline ∧
      ∃ body, Statement.headsOf body ⊆ Statement.headsOf statements ∧
        ∃ constants, outline.nested = ofStatements constants body := by
  obtain ⟨statement, hstatement, hread⟩ := exists_statement_of_mem h
  cases statement with
  | plain trees => exact absurd hread (by simp [ofStatement?])
  | block trees body =>
    have hsubset : trees :: Statement.headsOf body ⊆ Statement.headsOf statements :=
      fun head hhead => Statement.mem_headsOf hstatement (by rwa [Statement.heads])
    obtain ⟨htrees, hbody⟩ := List.cons_subset.mp hsubset
    rw [ofStatement?] at hread
    split at hread
    · next head hhead =>
      obtain rfl := Option.some.inj hread
      refine ⟨⟨⟨trees, htrees, hhead⟩, fun method hmethod => ?_⟩, body, hbody, _, rfl⟩
      obtain ⟨found, hfound, hmethod⟩ := exists_head_of_mem_members hmethod
      exact ⟨found, hbody hfound, hmethod⟩
    · exact absurd hread (by simp)

/-- An outline at any depth is read from heads of the statements. -/
theorem isReadFrom_of_nested {outline inner : Outline}
    (h : Relation.ReflTransGen (fun outer inner => inner ∈ outer.nested) outline inner)
    {constants : Bool} {statements : List Statement}
    (houtline : outline ∈ ofStatements constants statements) :
    IsReadFrom (Statement.headsOf statements) inner := by
  induction h using Relation.ReflTransGen.head_induction_on generalizing constants statements with
  | refl => exact (exists_body_of_mem houtline).1
  | head hstep _ ih =>
    obtain ⟨-, body, hsubset, constants', hnested⟩ := exists_body_of_mem houtline
    exact (ih (hnested ▸ hstep)).mono hsubset

end Outline

/-- Every declaration at any depth in the one that a source text is about is made of an outline that
is read from the text, and so are the outlines nested directly in this one. -/
theorem exists_outline_of_parse {source : String} {root : Declaration}
    (hroot : parse source = .ok root) {declaration : Declaration}
    (hdeclaration :
      Relation.ReflTransGen (fun outer inner => inner ∈ outer.nested) root declaration) :
    ∃ outline, IsMadeOf outline declaration ∧ declaration.imports = root.imports ∧
      outline.IsReadFrom (Statement.headsOf (Statement.ofSource source.toList)) ∧
      ∀ inner ∈ outline.nested,
        inner.IsReadFrom (Statement.headsOf (Statement.ofSource source.toList)) := by
  obtain ⟨outline, houtline, hmade⟩ := root_eq_ok_iff.mp hroot
  have hmain := SourceFile.mem_declarations_of_main? houtline
  obtain ⟨written, hnested, hwritten, himports⟩ :=
    IsMadeOf.exists_outline_of_nested ⟨_, _, hmade⟩ hdeclaration
  refine ⟨written, hwritten, himports, Outline.isReadFrom_of_nested hnested hmain, ?_⟩
  intro inner hinner
  exact Outline.isReadFrom_of_nested (hnested.tail hinner) hmain

end Source

end JavaSignatures
