import JavaSignatures.Proofs.BaseNames
import JavaSignatures.Proofs.VariableScoping

set_option autoImplicit false

/-!
# Where mode and placeholder matter

Whether a reference is erased is decided by its qualified form, and not by the name it is written
with.  No name becomes a type variable by being qualified: what is put in front of it ends with a
period or with `$` (`Scope.qualifyName_eq_or`), and the names of type variables hold neither.  So
mode and placeholder change bare type variables and nothing else (`Rendering.render_modes`).
-/

namespace JavaSignatures

namespace Scope

variable {scope : Scope}

/-- No type variable of the scope has a name with a period or a `$` in it. -/
def NamesVariablesPlainly (scope : Scope) : Prop :=
  ∀ found ∈ scope.typeVariables, '.' ∉ found.name.toList ∧ '$' ∉ found.name.toList

instance (scope : Scope) : Decidable scope.NamesVariablesPlainly :=
  List.decidableBAll _ scope.typeVariables

/-- A name means the first type variable of the name, from the inside outwards. -/
theorem typeVariable?_eq_find? (name : String) :
    scope.typeVariable? name = TypeVariable.find? scope.typeVariables name := by
  rw [typeVariable?, typeVariables, TypeVariable.find?_append]
  rfl

/-- What the imports do to a name. -/
theorem qualifySimple_eq_or (name : String) :
    scope.qualifySimple name = name ∨ '.' ∈ (scope.qualifySimple name).toList := by
  have hresolve : ∀ imports : ImportScope,
      imports.resolve name = name ∨ '.' ∈ (imports.resolve name).toList := by
    intro imports
    rcases imports.resolve_eq_or name with hname | ⟨before, hname⟩
    · exact Or.inl hname
    · exact Or.inr (by simp [hname])
  unfold qualifySimple
  dsimp only
  split
  · exact hresolve scope.root.imports
  · exact hresolve scope.lexical.imports

/-- A name that is no type variable stays as it is, or gets a period or `$` in front of it. -/
theorem qualifyName_eq_or (name : String) :
    scope.qualifyName name = name ∨ '.' ∈ (scope.qualifyName name).toList ∨
      '$' ∈ (scope.qualifyName name).toList := by
  unfold qualifyName
  split
  · exact Or.inl rfl
  · split
    · exact Or.inr (Or.inr (by simp [Declaration.member]))
    · split
      · next first rest _ =>
        obtain ⟨before, last, hpath, -⟩ := scope.exists_qualifyPath_eq first rest
        exact Or.inr (Or.inr (by simp [hpath]))
      · exact (qualifySimple_eq_or name).imp id Or.inl

/-- Being qualified makes no name a type variable. -/
theorem isVariable_qualifyName_eq_false (hplain : scope.NamesVariablesPlainly) {name : String}
    (hname : scope.isVariable name = false) : scope.isVariable (scope.qualifyName name) = false := by
  rw [Bool.eq_false_iff]
  intro hvariable
  obtain ⟨found, hfound⟩ := Option.isSome_iff_exists.mp hvariable
  obtain ⟨hmem, hsame⟩ := mem_typeVariables hfound
  obtain ⟨hperiod, hdollar⟩ := hplain found hmem
  rw [hsame] at hperiod hdollar
  rcases qualifyName_eq_or name with hstays | hin | hin
  · rw [hstays, hname] at hvariable
    exact absurd hvariable (by simp)
  · exact hperiod hin
  · exact hdollar hin

end Scope

namespace Rendering

variable {scope : Scope} {type : TypeRef}

theorem renderBare_of_not_isVariable (hplain : scope.NamesVariablesPlainly)
    (hbare : type.isParameterized = false) (hname : scope.isVariable type.name = false)
    (rendering : Rendering) : rendering.renderBare scope type = scope.qualifyName type.name := by
  have harguments : type.arguments = [] := by simpa [TypeRef.isParameterized] using hbare
  have hqualify : scope.qualify type = scope.qualifyName type.name := by
    obtain ⟨name, qualifiedName, arguments, dimensions, varargs⟩ := type
    obtain rfl : arguments = [] := harguments
    have hname' : scope.isVariable name = false := hname
    simp [Scope.qualify, hname']
  rw [renderBare, hqualify, Scope.isVariable_qualifyName_eq_false hplain hname]
  cases rendering.mode <;> rfl

/-- What stands for a type variable when type variables are erased. -/
def erased (placeholder : String) (found : TypeVariable) : String :=
  ((found.bounds.find? fun bound => bound.qualifiedName != found.name).map
    TypeRef.qualifiedName).getD placeholder

theorem getD_bound? {found : TypeVariable} (h : scope.typeVariable? type.name = some found)
    (placeholder : String) :
    (scope.bound? type.name).getD placeholder = erased placeholder found := by
  rw [Scope.bound?, h, Option.bind_some, TypeVariable.usableBound?, List.find?_map]
  rfl

theorem renderBare_of_isVariable {found : TypeVariable}
    (h : scope.typeVariable? type.name = some found) (rendering : Rendering) :
    rendering.renderBare scope type =
      match rendering.mode with
      | .keep => type.name
      | .erase => erased rendering.placeholder found := by
  have hvariable : scope.isVariable type.name = true := by simp [Scope.isVariable, h]
  rw [renderBare, Scope.qualify_of_isVariable hvariable]
  cases rendering.mode with
  | keep => rfl
  | erase => simp only [hvariable, if_true, getD_bound? h]

/-- Mode and placeholder change bare type variables and nothing else.  A bare type variable is the
first one of its name from the inside outwards; it is written by its name where type variables are
kept, and where they are erased by its first bound that does not have its name, or else by the
placeholder. -/
theorem render_modes (hplain : scope.NamesVariablesPlainly) (type : TypeRef) (varargs : Bool) :
    let pairs := TypeRef.brackets (type.dimensions + if varargs || type.varargs then 1 else 0)
    (type.isParameterized = true ∨ scope.isVariable type.name = false →
        ∀ rendering other : Rendering,
          rendering.render scope type varargs = other.render scope type varargs) ∧
      (type.isParameterized = false →
        ∀ nearer found further, scope.typeVariables = nearer ++ found :: further →
          (∀ other ∈ nearer, other.name ≠ type.name) → found.name = type.name →
            ∀ placeholder,
              render ⟨.keep, placeholder⟩ scope type varargs =
                  Name.dropImplicitPackage type.name ++ pairs ∧
                render ⟨.erase, placeholder⟩ scope type varargs =
                  Name.dropImplicitPackage (erased placeholder found) ++ pairs) := by
  intro pairs
  constructor
  · intro hother rendering other
    rw [render_eq_append_brackets, render_eq_append_brackets]
    by_cases hparameterized : type.isParameterized = true
    · rw [if_pos hparameterized, if_pos hparameterized]
    · have hbare : type.isParameterized = false := by simpa using hparameterized
      have hname : scope.isVariable type.name = false := hother.resolve_left hparameterized
      rw [if_neg hparameterized, if_neg hparameterized,
        renderBare_of_not_isVariable hplain hbare hname,
        renderBare_of_not_isVariable hplain hbare hname]
  · intro hbare nearer found further hsplit hnearer hname placeholder
    have hfound : scope.typeVariable? type.name = some found := by
      rw [Scope.typeVariable?_eq_find?, TypeVariable.find?, List.find?_eq_some_iff_append]
      refine ⟨by simpa using hname, nearer, further, hsplit, ?_⟩
      intro other hmem
      simpa using hnearer other hmem
    have hparameterized : ¬type.isParameterized = true := by simp [hbare]
    constructor
    · rw [render_eq_append_brackets, if_neg hparameterized, renderBare_of_isVariable hfound]
    · rw [render_eq_append_brackets, if_neg hparameterized, renderBare_of_isVariable hfound]

/-- A method whose type variable `T` hides the one of the class around it, inside a class with a
type variable that is its own first bound. -/
def hiddenVariable : Scope :=
  { twoVariables with
    lexical :=
      { twoVariables.lexical with
        typeVariables := [⟨"T", [.simple "Number" "java.lang.Number"]⟩]
        enclosingTypeVariables :=
          [⟨"U", [.simple "U" "U", .simple "Comparable" "java.lang.Comparable"]⟩] } }

/-- The variable of the method counts, a variable that is its own bound has the next one, and what
is no bare variable is written alike by all. -/
theorem render_modes_hiddenVariable :
    (render ⟨.keep, "X"⟩ hiddenVariable { TypeRef.simple "T" "T" with dimensions := 1 } true =
        "T[][]" ∧
      render ⟨.erase, "X"⟩ hiddenVariable { TypeRef.simple "T" "T" with dimensions := 1 } true =
        "com.acme.Foo[][]") ∧
      render ⟨.erase, "X"⟩ hiddenVariable (.simple "U" "U") false = "Comparable" ∧
      render ⟨.erase, "X"⟩ hiddenVariable (.simple "E" "E") false = "X" ∧
      ∀ rendering other : Rendering,
        rendering.render hiddenVariable (.simple "Map.T" "java.util.Map.T") false =
          other.render hiddenVariable (.simple "Map.T" "java.util.Map.T") false := by
  have hplain : hiddenVariable.NamesVariablesPlainly := by decide +kernel
  let method : List TypeVariable := hiddenVariable.method.typeVariables
  let own : List TypeVariable := hiddenVariable.lexical.typeVariables
  have hT := (render_modes hplain { TypeRef.simple "T" "T" with dimensions := 1 } true).2 rfl
    [] _ _ rfl (by simp) rfl "X"
  have hU := (render_modes hplain (.simple "U" "U") false).2 rfl (method ++ own) _ _ rfl
    (by decide) rfl "X"
  have hE := (render_modes hplain (.simple "E" "E") false).2 rfl [⟨"T", _⟩] _ _ rfl
    (by decide) rfl "X"
  have hother := (render_modes hplain (.simple "Map.T" "java.util.Map.T") false).1
    (Or.inr (by decide))
  exact ⟨⟨hT.1.trans (by decide +kernel), hT.2.trans (by decide +kernel)⟩,
    hU.2.trans (by decide +kernel), hE.2.trans (by decide +kernel), hother⟩

end Rendering

end JavaSignatures
