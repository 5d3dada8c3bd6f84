import JavaSignatures.Proofs.BalancedTypes
import JavaSignatures.Proofs.Substitution

set_option autoImplicit false

/-!
# Two forms of a type with arguments

A parameterized array is written with the qualified names that its reference carries, any other
parameterized type by qualifying its names once more.  Where the names that a reference carries are
those that the scope gives them (`Scope.IsCoherent`), both forms are the same
(`Scope.qualify_eq_genericName`).  So brackets change nothing but the end of a rendered type
(`Rendering.render_of_isCoherent`).
-/

namespace JavaSignatures

/-- Brackets have nothing to do with the implicit package. -/
theorem Name.dropImplicitPackage_brackets (text : String) (dimensions : Nat) :
    dropImplicitPackage (text ++ TypeRef.brackets dimensions) =
      dropImplicitPackage text ++ TypeRef.brackets dimensions := by
  induction dimensions generalizing text with
  | zero => simp [TypeRef.brackets]
  | succ dimensions ih =>
    have hpair : dropImplicitPackage (text ++ "[]" ++ "") =
        dropImplicitPackage text ++ "[]" ++ "" :=
      dropImplicitPackage_append_mark (by decide) (by decide) text ""
    rw [String.append_empty, String.append_empty] at hpair
    rw [TypeRef.brackets, ← String.append_assoc, ih, hpair, String.append_assoc]

theorem TypeRef.brackets_add (first second : Nat) :
    brackets (first + second) = brackets first ++ brackets second := by
  induction first with
  | zero => simp [brackets]
  | succ first ih => rw [Nat.succ_add, brackets, brackets, ih, String.append_assoc]

namespace Scope

variable {scope : Scope}

/-- The qualified name that the reference carries is the one that the scope gives to its name: a
type variable, which has no arguments, is its own qualified name, and the qualified name of any other
type is looked up in the scope. -/
def NamesCoherently (scope : Scope) (type : TypeRef) : Prop :=
  (scope.isVariable type.name = true ∧ type.isParameterized = false ∧
      type.qualifiedName = type.name) ∨
    (scope.isVariable type.name = false ∧ type.qualifiedName = scope.qualifyName type.name)

/-- The reference and those in its arguments carry the qualified names that the scope gives. -/
def IsCoherent (scope : Scope) (type : TypeRef) : Prop :=
  ∀ inner ∈ type.references, scope.NamesCoherently inner

instance (scope : Scope) (type : TypeRef) : Decidable (scope.NamesCoherently type) :=
  inferInstanceAs (Decidable (_ ∨ _))

instance (scope : Scope) (type : TypeRef) : Decidable (scope.IsCoherent type) :=
  List.decidableBAll _ type.references

theorem isCoherent_iff {type : TypeRef} :
    scope.IsCoherent type ↔ scope.NamesCoherently type ∧
      ∀ inner ∈ TypeRef.referencesOf type.arguments, scope.NamesCoherently inner := by
  rw [IsCoherent, TypeRef.references_eq_cons]
  exact List.forall_mem_cons

/-- Brackets and variable arity of the reference itself do not matter. -/
theorem IsCoherent.withDimensions {type : TypeRef} (h : scope.IsCoherent type) (dimensions : Nat)
    (varargs : Bool) :
    scope.IsCoherent { type with dimensions := dimensions, varargs := varargs } := by
  rw [isCoherent_iff] at h ⊢
  exact h

/-- A reference without arguments is written with the name that it carries. -/
theorem NamesCoherently.qualify_of_bare {type : TypeRef} (h : scope.NamesCoherently type)
    (hbare : type.arguments = []) : scope.qualify type = type.qualifiedName := by
  obtain ⟨name, qualifiedName, arguments, dimensions, varargs⟩ := type
  obtain rfl : arguments = [] := hbare
  rcases h with ⟨hvariable, -, hname⟩ | ⟨hvariable, hname⟩
  · have hvariable' : scope.isVariable name = true := hvariable
    have hname' : qualifiedName = name := hname
    simp [qualify, hvariable', hname']
  · have hvariable' : scope.isVariable name = false := hvariable
    have hname' : qualifiedName = scope.qualifyName name := hname
    simp [qualify, hvariable', hname']

mutual

theorem qualify_eq_genericName (type : TypeRef) (h : scope.IsCoherent type) :
    scope.qualify type = type.genericName := by
  obtain ⟨name, qualifiedName, arguments, dimensions, varargs⟩ := type
  obtain ⟨hself, harguments⟩ := isCoherent_iff.mp h
  cases arguments with
  | nil => exact hself.qualify_of_bare rfl
  | cons argument rest =>
    have hall := qualifyAll_eq_genericNames (argument :: rest) harguments
    -- a type with arguments is no type variable
    obtain ⟨hvariable, hname⟩ : scope.isVariable name = false ∧
        qualifiedName = scope.qualifyName name := by
      rcases hself with ⟨-, hbare, -⟩ | hself
      · simp [TypeRef.isParameterized] at hbare
      · exact hself
    by_cases hdimensions : dimensions = 0
    · simp only [qualify, hvariable, List.isEmpty_cons, hdimensions, Bool.false_eq_true, if_false,
        beq_self_eq_true, if_true]
      rw [hall, ← hname]
      rfl
    · simp only [qualify, hvariable, List.isEmpty_cons, hdimensions, Bool.false_eq_true, if_false,
        beq_iff_eq]
termination_by structural type

theorem qualifyAll_eq_genericNames (types : List TypeRef)
    (h : ∀ inner ∈ TypeRef.referencesOf types, scope.NamesCoherently inner) :
    scope.qualifyAll types = TypeRef.genericNames types := by
  cases types with
  | nil => rfl
  | cons type rest =>
    rw [TypeRef.referencesOf, List.forall_mem_append] at h
    rw [qualifyAll, TypeRef.genericNames, qualify_eq_genericName type h.1,
      qualifyAll_eq_genericNames rest h.2]
termination_by structural types

end

end Scope

namespace Rendering

variable {scope : Scope} {type : TypeRef}

/-- A rendered reference ends with its own brackets. -/
theorem render_eq_append_brackets (rendering : Rendering) (scope : Scope) (type : TypeRef)
    (varargs : Bool) :
    rendering.render scope type varargs =
      Name.dropImplicitPackage (if type.isParameterized then renderApplied scope type
        else rendering.renderBare scope type) ++
          TypeRef.brackets (type.dimensions + if varargs || type.varargs then 1 else 0) := by
  rw [render, renderFull, TypeRef.ite_eq_brackets, String.append_assoc, ← TypeRef.brackets_add,
    Name.dropImplicitPackage_brackets]

/-- A reference in a signature without its own brackets. -/
theorem renderFull_of_isCoherent (h : scope.IsCoherent type) (rendering : Rendering)
    (dimensions : Nat) (spread varargs : Bool) :
    rendering.renderFull scope { type with dimensions := dimensions, varargs := spread } varargs =
      rendering.renderFull scope { type with dimensions := 0, varargs := false } false ++
        TypeRef.brackets (dimensions + if varargs || spread then 1 else 0) := by
  have hqualify : ∀ dimensions varargs,
      scope.qualify { type with dimensions := dimensions, varargs := varargs } =
        type.genericName := by
    intro dimensions varargs
    rw [Scope.qualify_eq_genericName _ (h.withDimensions dimensions varargs)]
    cases type
    rfl
  rw [TypeRef.brackets_add, ← TypeRef.ite_eq_brackets]
  simp only [renderFull, renderApplied, renderBare, TypeRef.isParameterized, hqualify,
    TypeRef.brackets, Bool.or_self, Bool.false_eq_true, if_false, String.append_empty,
    String.append_assoc]

/-- Where a reference carries the names that the scope gives, the form with these names is the
qualified form, for arrays and all others.  So whatever the rendering, brackets and variable arity
add their pairs of brackets at the end and change nothing else. -/
theorem render_of_isCoherent (h : scope.IsCoherent type) :
    (∀ dimensions, scope.qualify { type with dimensions := dimensions } =
        TypeRef.genericName { type with dimensions := dimensions }) ∧
      ∀ (rendering : Rendering) (dimensions : Nat) (spread varargs : Bool),
        rendering.render scope { type with dimensions := dimensions, varargs := spread } varargs =
          rendering.render scope { type with dimensions := 0, varargs := false } false ++
            TypeRef.brackets (dimensions + if varargs || spread then 1 else 0) := by
  constructor
  · intro dimensions
    exact Scope.qualify_eq_genericName _ (h.withDimensions dimensions type.varargs)
  · intro rendering dimensions spread varargs
    rw [render, renderFull_of_isCoherent h, Name.dropImplicitPackage_brackets, render]

/-- `Map<T, List<Foo[]>[]>`. -/
def mapOfArrays : TypeRef :=
  { name := "Map"
    qualifiedName := "java.util.Map"
    arguments := [.simple "T" "T",
      { name := "List"
        qualifiedName := "java.util.List"
        arguments := [{ name := "Foo", qualifiedName := "com.acme.Foo", dimensions := 1 }]
        dimensions := 1 }] }

/-- Two pairs of brackets behind a type with arrays in its arguments, one for variable arity. -/
theorem render_mapOfArrays :
    twoVariables.IsCoherent mapOfArrays ∧
      render {} twoVariables { mapOfArrays with dimensions := 1, varargs := false } true =
        "java.util.Map<com.acme.Foo, java.util.List<com.acme.Foo[]>[]>[][]" := by
  have hcoherent : twoVariables.IsCoherent mapOfArrays := by decide +kernel
  have hplain : render {} twoVariables { mapOfArrays with dimensions := 0, varargs := false } false =
      "java.util.Map<com.acme.Foo, java.util.List<com.acme.Foo[]>[]>" := by
    decide +kernel
  refine ⟨hcoherent, ?_⟩
  rw [(render_of_isCoherent hcoherent).2, hplain]
  decide

end Rendering

end JavaSignatures
