import JavaSignatures.Proofs.AngleBrackets
import JavaSignatures.Proofs.ErasedVariables

set_option autoImplicit false

/-!
# Rendered types keep their brackets closed

Whatever way a type takes through the rendering, its text is made of names of the reference, of
declarations, packages and imports, of bounds and of the placeholder.  If the brackets of all of
these close, so do those of the rendered type, and if nothing divides the names outside of the
arguments, nothing divides the rendered type (`undivided_render`).
-/

namespace JavaSignatures

open Angles (Closes Unmarked)

/-! ## Texts and their brackets -/

/-- The angle brackets of the text close. -/
def Balanced (text : String) : Prop := Closes false text.toList

/-- The angle brackets of the text close, and commas and blanks stand only inside of them. -/
def Undivided (text : String) : Prop := Closes true text.toList

/-- The text has no angle bracket, comma or blank, and no opening parenthesis, as is true of
identifiers and of dotted identifiers. -/
def IsPlain (text : String) : Prop := Unmarked text.toList ∧ '(' ∉ text.toList

instance (text : String) : Decidable (Balanced text) := inferInstanceAs (Decidable (Closes _ _))

instance (text : String) : Decidable (Undivided text) := inferInstanceAs (Decidable (Closes _ _))

instance (text : String) : Decidable (IsPlain text) := inferInstanceAs (Decidable (_ ∧ _))

theorem IsPlain.closes {text : String} (h : IsPlain text) (strict : Bool) :
    Closes strict text.toList :=
  .of_unmarked strict h.1

namespace Angles

/-- A character that is no mark can stand in the place of another one. -/
theorem Closes.swap {strict : Bool} {first second : List Char} {c d : Char}
    (hc : isMark c = false) (hd : isMark d = false) (h : Closes strict (first ++ c :: second)) :
    Closes strict (first ++ d :: second) := by
  unfold Closes at *
  simpa only [depthBehind_append, depthBehind, step_of_unmarked strict _ hc,
    step_of_unmarked strict _ hd] using h

/-- An unmarked text can be left out in front, together with one more character. -/
theorem Closes.of_append_cons {strict : Bool} {first second : List Char} {c : Char}
    (hfirst : Unmarked first) (hc : isMark c = false) (h : Closes strict (first ++ c :: second)) :
    Closes strict second := by
  have hdepth : depthBehind strict 0 first = some 0 := Closes.of_unmarked strict hfirst
  unfold Closes at *
  rwa [depthBehind_append, hdepth, Option.bind_some, depthBehind, step_of_unmarked strict 0 hc,
    Option.bind_some] at h

end Angles

/-! ## Names -/

namespace Text

theorem eq_of_cut? {separator : Char} {text first rest : List Char}
    (h : cut? (· == separator) text = some (first, rest)) : text = first ++ separator :: rest := by
  unfold cut? at h
  split at h
  · exact absurd h (by simp)
  · next c tail hdrop =>
    obtain ⟨rfl, rfl⟩ := Prod.mk.inj (Option.some.inj h)
    have hhead := List.head?_dropWhile_not (fun c => !(c == separator)) text
    rw [hdrop] at hhead
    have hc : c = separator := by simpa using hhead
    calc text
        = text.takeWhile (fun c => !(c == separator)) ++
            text.dropWhile (fun c => !(c == separator)) := List.takeWhile_append_dropWhile.symm
      _ = text.takeWhile (fun c => !(c == separator)) ++ separator :: tail := by rw [hdrop, hc]

end Text

namespace Name

theorem not_isMark_of_isNamePart {c : Char} (h : Character.isNamePart c = true) :
    Angles.isMark c = false := by
  rw [Bool.eq_false_iff]
  intro hmark
  simp only [Angles.isMark, Bool.or_eq_true, beq_iff_eq] at hmark
  have hpart : Character.isNamePart c = false := by
    rcases hmark with ((rfl | rfl) | rfl) | rfl <;> decide
  rw [h] at hpart
  exact absurd hpart (by simp)

theorem unmarked_of_isSimple {name : String} (h : isSimple name = true) : Unmarked name.toList := by
  intro c hc
  exact not_isMark_of_isNamePart ((isNamePart_of_isSimple h).2 c hc)

theorem toList_of_splitFirst? {name first rest : String} (h : splitFirst? name = some (first, rest)) :
    name.toList = first.toList ++ '.' :: rest.toList := by
  obtain ⟨⟨before, after⟩, hcut, hparts⟩ := Option.map_eq_some_iff.mp h
  obtain ⟨rfl, rfl⟩ := Prod.mk.inj hparts
  rw [String.toList_ofList, String.toList_ofList]
  exact Text.eq_of_cut? hcut

theorem closes_nestedForm {strict : Bool} {name : String} (h : Closes strict name.toList) :
    Closes strict (nestedForm name).toList := by
  rw [nestedForm, Text.toList_onString]
  have hnew : Closes strict ['$'] := .of_unmarked strict (by decide)
  exact (Angles.edited_replaceChar strict (by decide) hnew _).closes h

theorem closes_substitute {strict : Bool} {identifier replacement text : String}
    (hidentifier : Unmarked identifier.toList) (hreplacement : Closes strict replacement.toList)
    (h : Closes strict text.toList) :
    Closes strict (substitute identifier replacement text).toList := by
  rw [substitute, Text.toList_onString]
  exact (Angles.edited_substituteFrom hidentifier hreplacement none true 0 _
    (by simp [Unmarked])).closes h

theorem closes_dropImplicitPackage {strict : Bool} {text : String} (h : Closes strict text.toList) :
    Closes strict (dropImplicitPackage text).toList := by
  rw [dropImplicitPackage, Text.toList_onString]
  exact (Angles.edited_replaceFrom strict (by decide) (by decide) 0 _ (by simp [Unmarked])).closes h

end Name

/-! ## Qualified names -/

namespace ImportScope

/-- The package and the imports are dotted identifiers. -/
def IsPlain (scope : ImportScope) : Prop :=
  (∀ package ∈ scope.package, JavaSignatures.IsPlain package) ∧
    ∀ path ∈ scope.imports, JavaSignatures.IsPlain path

instance (scope : ImportScope) : Decidable scope.IsPlain := inferInstanceAs (Decidable (_ ∧ _))

theorem IsPlain.closes_inPackage {scope : ImportScope} (h : scope.IsPlain) {strict : Bool}
    {name : String} (hname : Closes strict name.toList) :
    Closes strict (scope.inPackage name).toList := by
  unfold inPackage
  split
  · exact hname
  · next package hpackage =>
    split
    · exact hname
    · have hplain : JavaSignatures.IsPlain package := h.1 package hpackage
      have hdot : Closes strict ".".toList := .of_unmarked strict (by decide)
      rw [String.toList_append, String.toList_append]
      exact ((hplain.closes strict).append hdot).append hname

theorem IsPlain.closes_resolve {scope : ImportScope} (h : scope.IsPlain) {strict : Bool}
    {name : String} (hname : Closes strict name.toList) :
    Closes strict (scope.resolve name).toList := by
  unfold resolve
  split
  · exact hname
  · split
    · next path hpath => exact (h.2 path (List.mem_of_find?_eq_some hpath)).closes strict
    · split
      · have himplicit : Closes strict Name.implicitPackage.toList := .of_unmarked strict (by decide)
        rw [String.toList_append]
        exact himplicit.append hname
      · exact h.closes_inPackage hname

end ImportScope

namespace Scope

/-- The names that a type of the scope can be made of are dotted identifiers, and the bounds of its
type variables are divided by nothing. -/
structure IsPlain (scope : Scope) : Prop where
  rootImports : scope.root.imports.IsPlain
  lexicalImports : scope.lexical.imports.IsPlain
  rootName : JavaSignatures.IsPlain scope.root.name
  rootQualifiedName : JavaSignatures.IsPlain scope.root.qualifiedName
  lexicalQualifiedName : JavaSignatures.IsPlain scope.lexical.qualifiedName
  variableName : ∀ found ∈ scope.typeVariables, JavaSignatures.IsPlain found.name
  bound : ∀ found ∈ scope.typeVariables, ∀ bound ∈ found.bounds, Undivided bound.qualifiedName

theorem isPlain_iff (scope : Scope) :
    scope.IsPlain ↔
      (scope.root.imports.IsPlain ∧ scope.lexical.imports.IsPlain) ∧
        (JavaSignatures.IsPlain scope.root.name ∧
          JavaSignatures.IsPlain scope.root.qualifiedName ∧
          JavaSignatures.IsPlain scope.lexical.qualifiedName) ∧
        ∀ found ∈ scope.typeVariables, JavaSignatures.IsPlain found.name ∧
          ∀ bound ∈ found.bounds, Undivided bound.qualifiedName := by
  constructor
  · rintro ⟨rootImports, lexicalImports, rootName, rootQualified, lexicalQualified, name, bound⟩
    exact ⟨⟨rootImports, lexicalImports⟩, ⟨rootName, rootQualified, lexicalQualified⟩,
      fun found hfound => ⟨name found hfound, bound found hfound⟩⟩
  · rintro ⟨⟨rootImports, lexicalImports⟩, ⟨rootName, rootQualified, lexicalQualified⟩, hvariables⟩
    exact ⟨rootImports, lexicalImports, rootName, rootQualified, lexicalQualified,
      fun found hfound => (hvariables found hfound).1,
      fun found hfound => (hvariables found hfound).2⟩

instance (scope : Scope) : Decidable scope.IsPlain :=
  decidable_of_iff' _ (isPlain_iff scope)

namespace IsPlain

variable {scope : Scope} (hscope : scope.IsPlain) {strict : Bool}

include hscope

theorem qualifiedName_of_ownerOf? {name : String} {owner : Declaration}
    (h : scope.ownerOf? name = some owner) : JavaSignatures.IsPlain owner.qualifiedName := by
  unfold ownerOf? at h
  split at h
  · obtain rfl := Option.some.inj h
    exact hscope.rootQualifiedName
  · split at h
    · obtain rfl := Option.some.inj h
      exact hscope.lexicalQualifiedName
    · exact absurd h (by simp)

theorem closes_member {name : String} {owner : Declaration} (h : scope.ownerOf? name = some owner)
    {inner : String} (hinner : Closes strict inner.toList) :
    Closes strict (owner.member inner).toList := by
  have howner := (hscope.qualifiedName_of_ownerOf? h).closes strict
  have hdollar : Closes strict "$".toList := .of_unmarked strict (by decide)
  rw [Declaration.member, String.toList_append, String.toList_append]
  exact (howner.append hdollar).append hinner

theorem closes_qualifyPath {first rest : String}
    (h : Closes strict (first.toList ++ '.' :: rest.toList)) :
    Closes strict (scope.qualifyPath first rest).toList := by
  unfold qualifyPath
  split
  · next owner howner =>
    have hpath : Closes strict (first ++ "." ++ rest).toList := by simpa using h
    exact hscope.closes_member howner (Name.closes_nestedForm hpath)
  · split
    · next owner howner =>
      split at howner
      · next hroot =>
        have hfirst : Unmarked first.toList := eq_of_beq hroot ▸ hscope.rootName.1
        have hrest : Closes strict rest.toList := h.of_append_cons hfirst (by decide)
        exact hscope.closes_member howner (Name.closes_nestedForm hrest)
      · exact absurd howner (by simp)
    · rw [String.toList_append, String.toList_append, List.append_assoc]
      by_cases hsimple : Name.isSimple first = true
      · have hfirst := Name.unmarked_of_isSimple hsimple
        have hresolved := hscope.rootImports.closes_resolve (Closes.of_unmarked strict hfirst)
        have hdollar : Closes strict "$".toList := .of_unmarked strict (by decide)
        have hrest : Closes strict rest.toList := h.of_append_cons hfirst (by decide)
        exact hresolved.append (hdollar.append hrest)
      · rw [ImportScope.resolve_of_not_isSimple _ (Bool.eq_false_iff.mpr hsimple)]
        exact h.swap (by decide) (by decide)

theorem closes_qualifySimple {name : String} (h : Closes strict name.toList) :
    Closes strict (scope.qualifySimple name).toList := by
  unfold qualifySimple
  dsimp only
  split
  · exact hscope.rootImports.closes_resolve h
  · exact hscope.lexicalImports.closes_resolve h

theorem closes_qualifyName {name : String} (h : Closes strict name.toList) :
    Closes strict (scope.qualifyName name).toList := by
  unfold qualifyName
  split
  · exact h
  · split
    · next owner howner => exact hscope.closes_member howner h
    · split
      · next first rest hsplit =>
        split at hsplit
        · rw [Name.toList_of_splitFirst? hsplit] at h
          exact hscope.closes_qualifyPath h
        · exact absurd hsplit (by simp)
      · exact hscope.closes_qualifySimple h

theorem of_bound? {name bound : String} (h : scope.bound? name = some bound) :
    JavaSignatures.IsPlain name ∧ Undivided bound := by
  obtain ⟨found, hfound, husable⟩ := Option.bind_eq_some_iff.mp h
  obtain ⟨hmem, rfl⟩ := mem_typeVariables hfound
  obtain ⟨type, htype, rfl⟩ := List.mem_map.mp (List.mem_of_find?_eq_some husable)
  exact ⟨hscope.variableName found hmem, hscope.bound found hmem type htype⟩

end IsPlain

end Scope

/-! ## References -/

namespace TypeRef

mutual

/-- The reference and those in its arguments. -/
def references (type : TypeRef) : List TypeRef :=
  match type with
  | ⟨name, qualifiedName, arguments, dimensions, varargs⟩ =>
    ⟨name, qualifiedName, arguments, dimensions, varargs⟩ :: referencesOf arguments
termination_by structural type

/-- The references and those in their arguments. -/
def referencesOf (types : List TypeRef) : List TypeRef :=
  match types with
  | [] => []
  | type :: rest => references type ++ referencesOf rest
termination_by structural types

end

theorem references_eq_cons (type : TypeRef) :
    type.references = type :: referencesOf type.arguments := by
  cases type
  rfl

/-- The brackets of all names in the references close. -/
def AreBalanced (types : List TypeRef) : Prop :=
  ∀ inner ∈ referencesOf types, Balanced inner.name ∧ Balanced inner.qualifiedName

/-- The brackets of all names in the reference close. -/
def IsBalanced (type : TypeRef) : Prop :=
  ∀ inner ∈ type.references, Balanced inner.name ∧ Balanced inner.qualifiedName

theorem IsBalanced.arguments {type : TypeRef} (h : type.IsBalanced) :
    AreBalanced type.arguments := by
  intro inner hinner
  refine h inner ?_
  rw [references_eq_cons]
  exact List.mem_cons_of_mem _ hinner

theorem IsBalanced.self {type : TypeRef} (h : type.IsBalanced) :
    Balanced type.name ∧ Balanced type.qualifiedName := by
  refine h type ?_
  rw [references_eq_cons]
  exact List.mem_cons_self ..

theorem AreBalanced.of_cons {type : TypeRef} {rest : List TypeRef}
    (h : AreBalanced (type :: rest)) : type.IsBalanced ∧ AreBalanced rest :=
  ⟨fun inner hinner => h inner (List.mem_append_left _ hinner),
    fun inner hinner => h inner (List.mem_append_right _ hinner)⟩

/-- Besides, nothing divides the names of the reference itself. -/
def IsUndivided (type : TypeRef) : Prop :=
  type.IsBalanced ∧ Undivided type.name ∧ Undivided type.qualifiedName

instance (type : TypeRef) : Decidable type.IsBalanced := inferInstanceAs (Decidable (∀ _ ∈ _, _))

instance (type : TypeRef) : Decidable type.IsUndivided := inferInstanceAs (Decidable (_ ∧ _))

theorem closes_brackets (strict : Bool) (dimensions : Nat) :
    Closes strict (brackets dimensions).toList := by
  induction dimensions with
  | zero => rfl
  | succ dimensions ih =>
    have hpair : Closes strict "[]".toList := .of_unmarked strict (by decide)
    rw [brackets, String.toList_append]
    exact hpair.append ih

theorem balanced_intercalate {parts : List String} (h : ∀ part ∈ parts, Balanced part) :
    Balanced (", ".intercalate parts) := by
  induction parts with
  | nil => rfl
  | cons part rest ih =>
    have hpart : Balanced part := h part (List.mem_cons_self ..)
    have hrest : Balanced (", ".intercalate rest) :=
      ih fun other hother => h other (List.mem_cons_of_mem _ hother)
    cases rest with
    | nil => exact hpart
    | cons next rest =>
      have hseparator : Balanced ", " := by decide
      unfold Balanced at *
      rw [String.intercalate_cons_cons, String.toList_append, String.toList_append]
      exact (hpart.append hseparator).append hrest

theorem closes_applied {strict : Bool} {name : String} {arguments : List String}
    (hname : Closes strict name.toList) (harguments : ∀ argument ∈ arguments, Balanced argument) :
    Closes strict (applied name arguments).toList := by
  have hlist : (applied name arguments).toList =
      name.toList ++ '<' :: ((", ".intercalate arguments).toList ++ ['>']) := by
    simp [applied, List.append_assoc]
  rw [hlist]
  exact hname.append (.enclosed strict (balanced_intercalate harguments))

theorem balanced_append_brackets {text : String} (h : Balanced text) (dimensions : Nat) :
    Balanced (text ++ brackets dimensions) := by
  unfold Balanced at *
  rw [String.toList_append]
  exact h.append (closes_brackets false dimensions)

mutual

theorem closes_genericName (strict : Bool) (type : TypeRef)
    (hname : Closes strict type.qualifiedName.toList) (harguments : AreBalanced type.arguments) :
    Closes strict type.genericName.toList := by
  cases type with
  | mk name qualifiedName arguments dimensions varargs =>
    have hall := balanced_genericNames arguments harguments
    rw [genericName]
    split
    · exact hname
    · exact closes_applied hname hall
termination_by structural type

theorem balanced_genericNames (types : List TypeRef) (h : AreBalanced types) :
    ∀ part ∈ genericNames types, Balanced part := by
  cases types with
  | nil => simp [genericNames]
  | cons type rest =>
    obtain ⟨htype, hrest⟩ := h.of_cons
    have hfirst := closes_genericName false type htype.self.2 htype.arguments
    have hmore := balanced_genericNames rest hrest
    rw [genericNames]
    exact List.forall_mem_cons.mpr ⟨balanced_append_brackets hfirst _, hmore⟩
termination_by structural types

end

end TypeRef

namespace Scope

variable {scope : Scope}

mutual

theorem IsPlain.closes_qualify (hscope : scope.IsPlain) (strict : Bool) (type : TypeRef)
    (hname : Closes strict type.name.toList) (hqualified : Closes strict type.qualifiedName.toList)
    (harguments : TypeRef.AreBalanced type.arguments) :
    Closes strict (scope.qualify type).toList := by
  cases type with
  | mk name qualifiedName arguments dimensions varargs =>
    have hall := hscope.balanced_qualifyAll arguments harguments
    rw [qualify]
    split
    · exact hname
    · split
      · exact hscope.closes_qualifyName hname
      · split
        · exact TypeRef.closes_applied (hscope.closes_qualifyName hname) hall
        · exact TypeRef.closes_genericName strict _ hqualified harguments
termination_by structural type

theorem IsPlain.balanced_qualifyAll (hscope : scope.IsPlain) (types : List TypeRef)
    (h : TypeRef.AreBalanced types) : ∀ part ∈ scope.qualifyAll types, Balanced part := by
  cases types with
  | nil => simp [qualifyAll]
  | cons type rest =>
    obtain ⟨htype, hrest⟩ := h.of_cons
    have hfirst := hscope.closes_qualify false type htype.self.1 htype.self.2 htype.arguments
    have hmore := hscope.balanced_qualifyAll rest hrest
    rw [qualifyAll]
    exact List.forall_mem_cons.mpr ⟨TypeRef.balanced_append_brackets hfirst _, hmore⟩
termination_by structural types

end

end Scope

/-! ## Rendering -/

namespace Rendering

variable {scope : Scope}

theorem undivided_boundArguments (hscope : scope.IsPlain) (arguments : List TypeRef) {text : String}
    (h : Undivided text) : Undivided (boundArguments scope arguments text) := by
  induction arguments generalizing text with
  | nil => exact h
  | cons argument rest ih =>
    unfold boundArguments
    rw [List.foldl_cons]
    refine ih ?_
    split
    · next bound hbound =>
      obtain ⟨hidentifier, hreplacement⟩ := hscope.of_bound? hbound
      unfold Undivided at *
      exact Name.closes_substitute hidentifier.1 hreplacement h
    · exact h

theorem undivided_renderBare (rendering : Rendering) (hscope : scope.IsPlain)
    (hplaceholder : Undivided rendering.placeholder) {type : TypeRef}
    (hqualify : Undivided (scope.qualify type)) : Undivided (rendering.renderBare scope type) := by
  unfold renderBare
  dsimp only
  split
  · exact hqualify
  · split
    · cases hbound : scope.bound? (scope.qualify type) with
      | none => exact hplaceholder
      | some bound => exact (hscope.of_bound? hbound).2
    · exact hqualify

/-- Nothing divides a rendered type outside of its arguments. -/
theorem undivided_render (rendering : Rendering) (hscope : scope.IsPlain)
    (hplaceholder : Undivided rendering.placeholder) {type : TypeRef} (htype : type.IsUndivided)
    (varargs : Bool) : Undivided (rendering.render scope type varargs) := by
  obtain ⟨hbalanced, hname, hqualifiedName⟩ := htype
  have hqualify : Undivided (scope.qualify type) :=
    hscope.closes_qualify true type hname hqualifiedName hbalanced.arguments
  have hwritten : Undivided (if type.isParameterized then renderApplied scope type
      else rendering.renderBare scope type) := by
    split
    · unfold renderApplied
      dsimp only
      split
      · exact undivided_boundArguments hscope type.arguments hqualify
      · exact hqualifiedName
    · exact undivided_renderBare rendering hscope hplaceholder hqualify
  have hspread : Closes true (if varargs || type.varargs then "[]" else "").toList := by
    split <;> decide
  refine Name.closes_dropImplicitPackage ?_
  rw [renderFull, String.toList_append, String.toList_append]
  exact (hwritten.append (TypeRef.closes_brackets true _)).append hspread

end Rendering

end JavaSignatures
