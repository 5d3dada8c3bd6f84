import JavaSignatures.Proofs.Mention
import JavaSignatures.Rendering

set_option autoImplicit false

/-!
# Type variables in rendered types

Which type variables of the scope a type still mentions when type variables are erased.  What the
qualified form of a type mentions is read off its tree (`mentions_qualify_iff`); the bounds then
take away the direct arguments that have one (`mentions_boundArguments_iff`).  The exact answer is
`mentions_render_iff`: a variable survives inside an argument, as an argument next to a bounded one,
and where a longer name loses the implicit package, and nowhere else.
-/

namespace JavaSignatures

open Name (Mentions MentionsInFront IsOpaque Uncovers)

/-! ## Qualified forms -/

namespace TypeRef

/-- The brackets of variable arity. -/
theorem ite_eq_brackets (more : Bool) :
    (if more then "[]" else "") = brackets (if more then 1 else 0) := by
  cases more <;> rfl

mutual

/-- The qualified name with all arguments mentions the name. -/
def mentionsLiterally (name : String) (type : TypeRef) : Bool :=
  match type with
  | ⟨_, qualifiedName, arguments, _, _⟩ =>
    if arguments.isEmpty then decide (Mentions qualifiedName name)
    else decide (MentionsInFront qualifiedName name) || anyMentionsLiterally name arguments
termination_by structural type

/-- The qualified name of some argument mentions the name. -/
def anyMentionsLiterally (name : String) (types : List TypeRef) : Bool :=
  match types with
  | [] => false
  | type :: rest => mentionsLiterally name type || anyMentionsLiterally name rest
termination_by structural types

end

mutual

theorem mentions_genericName_iff {name : String} (hname : name ≠ "") (type : TypeRef) :
    Mentions type.genericName name ↔ type.mentionsLiterally name = true := by
  obtain ⟨simpleName, qualifiedName, arguments, dimensions, varargs⟩ := type
  have harguments := exists_mentions_genericNames_iff hname arguments
  cases arguments with
  | nil => simp [genericName, mentionsLiterally]
  | cons argument rest =>
    have hne : genericNames (argument :: rest) ≠ [] := by simp [genericNames]
    simp only [genericName, mentionsLiterally, List.isEmpty_cons, Bool.false_eq_true, if_false,
      Bool.or_eq_true, decide_eq_true_eq]
    rw [Name.mentions_applied_iff _ hne hname, harguments]
termination_by structural type

theorem exists_mentions_genericNames_iff {name : String} (hname : name ≠ "")
    (types : List TypeRef) :
    (∃ text ∈ genericNames types, Mentions text name) ↔
      anyMentionsLiterally name types = true := by
  cases types with
  | nil => simp [genericNames, anyMentionsLiterally]
  | cons type rest =>
    have hfirst := mentions_genericName_iff hname type
    have hrest := exists_mentions_genericNames_iff hname rest
    simp only [genericNames, anyMentionsLiterally, List.mem_cons, exists_eq_or_imp,
      Bool.or_eq_true]
    rw [Name.mentions_append_brackets, hfirst, hrest]
termination_by structural types

end

end TypeRef

namespace Scope

mutual

/-- The qualified form of the reference mentions the name.  A type variable is mentioned by its own
name; below an array the names are taken as the imports qualify them. -/
def mentionsQualified (scope : Scope) (name : String) (type : TypeRef) : Bool :=
  match type with
  | ⟨simpleName, qualifiedName, arguments, dimensions, varargs⟩ =>
    if scope.isVariable simpleName then simpleName == name
    else if arguments.isEmpty then decide (Mentions (scope.qualifyName simpleName) name)
    else if dimensions == 0 then
      decide (MentionsInFront (scope.qualifyName simpleName) name) ||
        scope.anyMentionsQualified name arguments
    else TypeRef.mentionsLiterally name ⟨simpleName, qualifiedName, arguments, dimensions, varargs⟩
termination_by structural type

/-- The qualified form of some argument mentions the name. -/
def anyMentionsQualified (scope : Scope) (name : String) (types : List TypeRef) : Bool :=
  match types with
  | [] => false
  | type :: rest => scope.mentionsQualified name type || scope.anyMentionsQualified name rest
termination_by structural types

end

/-- The type variables have names that are identifiers, and what stands for a bounded one is a name
that is no type variable. -/
structure Erasable (scope : Scope) : Prop where
  isSimple : ∀ name, scope.isVariable name = true → Name.isSimple name = true
  isOpaque : ∀ name bound, scope.bound? name = some bound → IsOpaque bound.toList
  isVariable : ∀ name bound, scope.bound? name = some bound → scope.isVariable bound = false

mutual

theorem mentions_qualify_iff {scope : Scope} (herasable : scope.Erasable) {name : String}
    (hname : name ≠ "") (type : TypeRef) :
    Mentions (scope.qualify type) name ↔ scope.mentionsQualified name type = true := by
  obtain ⟨simpleName, qualifiedName, arguments, dimensions, varargs⟩ := type
  have harguments := exists_mentions_qualifyAll_iff herasable hname arguments
  by_cases hvariable : scope.isVariable simpleName = true
  · have hsolid := Name.isOpaque_of_isSimple (herasable.isSimple simpleName hvariable)
    simp only [qualify, mentionsQualified, hvariable, if_true, beq_iff_eq]
    exact Name.mentions_iff_of_isOpaque hsolid
  · cases arguments with
    | nil => simp [qualify, mentionsQualified, hvariable]
    | cons argument rest =>
      have hne : scope.qualifyAll (argument :: rest) ≠ [] := by simp [qualifyAll]
      by_cases hdimensions : dimensions = 0
      · simp only [qualify, mentionsQualified, hvariable, List.isEmpty_cons, hdimensions,
          Bool.false_eq_true, if_false, beq_self_eq_true, if_true, Bool.or_eq_true,
          decide_eq_true_eq]
        rw [Name.mentions_applied_iff _ hne hname, harguments]
      · simp only [qualify, mentionsQualified, hvariable, List.isEmpty_cons, hdimensions,
          Bool.false_eq_true, if_false, beq_iff_eq]
        exact TypeRef.mentions_genericName_iff hname _
termination_by structural type

theorem exists_mentions_qualifyAll_iff {scope : Scope} (herasable : scope.Erasable)
    {name : String} (hname : name ≠ "") (types : List TypeRef) :
    (∃ text ∈ scope.qualifyAll types, Mentions text name) ↔
      scope.anyMentionsQualified name types = true := by
  cases types with
  | nil => simp [qualifyAll, anyMentionsQualified]
  | cons type rest =>
    have hfirst := mentions_qualify_iff herasable hname type
    have hrest := exists_mentions_qualifyAll_iff herasable hname rest
    simp only [qualifyAll, anyMentionsQualified, List.mem_cons, exists_eq_or_imp,
      Bool.or_eq_true]
    rw [Name.mentions_append_brackets, hfirst, hrest]
termination_by structural types

end

/-- The type variables that a name can mean in the scope. -/
def typeVariables (scope : Scope) : List TypeVariable :=
  scope.method.typeVariables ++
    (scope.lexical.typeVariables ++ scope.lexical.enclosingTypeVariables.reverse)

theorem mem_typeVariables {scope : Scope} {name : String} {found : TypeVariable}
    (h : scope.typeVariable? name = some found) :
    found ∈ scope.typeVariables ∧ found.name = name := by
  rcases Option.or_eq_some_iff.mp h with hmethod | ⟨-, hlexical⟩
  · exact ⟨List.mem_append_left _ (List.mem_of_find?_eq_some hmethod),
      TypeVariable.name_of_find? hmethod⟩
  · exact ⟨List.mem_append_right _ (List.mem_of_find?_eq_some hlexical),
      TypeVariable.name_of_find? hlexical⟩

/-- It is enough to look at the type variables and their bounds one by one. -/
theorem erasable_of_forall {scope : Scope}
    (hnames : ∀ found ∈ scope.typeVariables, Name.isSimple found.name = true)
    (hbounds : ∀ found ∈ scope.typeVariables, ∀ bound ∈ found.bounds,
      IsOpaque bound.qualifiedName.toList ∧ scope.isVariable bound.qualifiedName = false) :
    scope.Erasable := by
  have hbound : ∀ name bound, scope.bound? name = some bound →
      IsOpaque bound.toList ∧ scope.isVariable bound = false := by
    intro name bound h
    obtain ⟨found, hfound, husable⟩ := Option.bind_eq_some_iff.mp h
    obtain ⟨type, htype, rfl⟩ := List.mem_map.mp (List.mem_of_find?_eq_some husable)
    exact hbounds found (mem_typeVariables hfound).1 type htype
  refine ⟨fun name h => ?_, fun name bound h => (hbound name bound h).1,
    fun name bound h => (hbound name bound h).2⟩
  obtain ⟨found, hfound⟩ := Option.isSome_iff_exists.mp h
  obtain ⟨hmem, rfl⟩ := mem_typeVariables hfound
  exact hnames found hmem

/-- A bound that stands for a type variable mentions no type variable. -/
theorem Erasable.not_mentions_bound {scope : Scope} (herasable : scope.Erasable)
    {name bound v : String} (hbound : scope.bound? name = some bound)
    (hv : scope.isVariable v = true) : ¬Mentions bound v := by
  intro hmentions
  have hsame := (Name.mentions_iff_of_isOpaque (herasable.isOpaque name bound hbound)).mp hmentions
  have hother := herasable.isVariable name bound hbound
  rw [hsame, hv] at hother
  exact absurd hother (by simp)

end Scope

/-! ## Arguments -/

namespace Rendering

/-- Putting in the bounds takes away the type variables that are arguments themselves and have one,
and no other. -/
theorem mentions_boundArguments_iff {scope : Scope} (herasable : scope.Erasable) {v : String}
    (hv : scope.isVariable v = true) (arguments : List TypeRef) (text : String) :
    Mentions (boundArguments scope arguments text) v ↔ Mentions text v ∧
      (arguments.any fun argument => argument.name == v && (scope.bound? v).isSome) = false := by
  induction arguments generalizing text with
  | nil => simp [boundArguments]
  | cons argument rest ih =>
    cases hbound : scope.bound? argument.name with
    | none =>
      have hsame : boundArguments scope (argument :: rest) text = boundArguments scope rest text := by
        simp [boundArguments, hbound]
      have hkept : (argument.name == v && (scope.bound? v).isSome) = false := by
        rw [Bool.and_eq_false_iff]
        by_cases hname : argument.name = v
        · exact Or.inr (by rw [← hname, hbound]; rfl)
        · exact Or.inl (by simpa using hname)
      rw [hsame, ih, List.any_cons, hkept, Bool.false_or]
    | some bound =>
      have hput : boundArguments scope (argument :: rest) text =
          boundArguments scope rest (Name.substitute argument.name bound text) := by
        simp [boundArguments, hbound]
      have hvariable := Scope.isVariable_of_bound? hbound
      have hother : bound ≠ v := by
        rintro rfl
        rw [herasable.isVariable _ _ hbound] at hv
        exact absurd hv (by simp)
      have hkept : (argument.name == v && (scope.bound? v).isSome) = false ↔
          v ≠ argument.name := by
        constructor
        · rintro hfalse rfl
          simp [hbound] at hfalse
        · intro hne
          simp [hne.symm]
      rw [hput, ih, Name.mentions_substitute_iff (herasable.isSimple _ hvariable)
        (herasable.isOpaque _ _ hbound) (herasable.isSimple _ hv) hother, List.any_cons,
        Bool.or_eq_false_iff, hkept, and_assoc]

/-- A parameterized reference is written with its arguments. -/
def keepsArguments (scope : Scope) (type : TypeRef) : Bool :=
  (type.arguments.any fun argument => (scope.bound? argument.name).isSome) ||
    !(type.arguments.any fun argument => scope.isBounded argument.name) &&
      type.arguments.all isUsableArgument

theorem renderApplied_eq (scope : Scope) (type : TypeRef) :
    renderApplied scope type =
      if keepsArguments scope type then
        boundArguments scope type.arguments (scope.qualify type)
      else type.qualifiedName := rfl

/-! ## Erased type variables -/

/-- The type variable is left in the rendered reference before the implicit package is left out.
With arguments: it is mentioned by the qualified form and is no argument that has a bound; or the
arguments are not written and the reference has its name.  Without arguments: only by way of the
placeholder, or of a name that says more than one thing. -/
def leaves (placeholder : String) (scope : Scope) (type : TypeRef) (v : String) : Bool :=
  if type.isParameterized then
    if keepsArguments scope type then
      scope.mentionsQualified v type &&
        !(type.arguments.any fun argument => argument.name == v && (scope.bound? v).isSome)
    else decide (Mentions type.qualifiedName v)
  else if scope.isVariable (scope.qualify type) then
    (scope.bound? (scope.qualify type)).isNone && decide (Mentions placeholder v)
  else decide (Mentions (scope.qualify type) v)

section Erase

variable {scope : Scope} (herasable : scope.Erasable) {v : String}
variable (hv : scope.isVariable v = true)

include herasable hv in
theorem mentions_renderApplied_iff (type : TypeRef) :
    Mentions (renderApplied scope type) v ↔
      (if keepsArguments scope type then
        scope.mentionsQualified v type &&
          !(type.arguments.any fun argument => argument.name == v && (scope.bound? v).isSome)
      else decide (Mentions type.qualifiedName v)) = true := by
  have hne : v ≠ "" := by
    rintro rfl
    exact absurd (herasable.isSimple "" hv) (by decide)
  rw [renderApplied_eq]
  by_cases hkeeps : keepsArguments scope type = true
  · rw [if_pos hkeeps, if_pos hkeeps, mentions_boundArguments_iff herasable hv,
      Scope.mentions_qualify_iff herasable hne, Bool.and_eq_true, Bool.not_eq_true']
  · rw [if_neg hkeeps, if_neg hkeeps, decide_eq_true_iff]

include herasable hv in
theorem mentions_renderBare_iff (placeholder : String) (type : TypeRef) :
    Mentions (renderBare ⟨.erase, placeholder⟩ scope type) v ↔
      (if scope.isVariable (scope.qualify type) then
        (scope.bound? (scope.qualify type)).isNone && decide (Mentions placeholder v)
      else decide (Mentions (scope.qualify type) v)) = true := by
  simp only [renderBare]
  by_cases hvariable : scope.isVariable (scope.qualify type) = true
  · rw [if_pos hvariable, if_pos hvariable]
    cases hbound : scope.bound? (scope.qualify type) with
    | none => simp
    | some bound => simpa using herasable.not_mentions_bound hbound hv
  · rw [if_neg hvariable, if_neg hvariable, decide_eq_true_iff]

include herasable hv in
theorem mentions_renderFull_iff (placeholder : String) (type : TypeRef) (varargs : Bool) :
    Mentions (renderFull ⟨.erase, placeholder⟩ scope type varargs) v ↔
      leaves placeholder scope type v = true := by
  have hbrackets : Mentions (renderFull ⟨.erase, placeholder⟩ scope type varargs) v ↔
      Mentions (if type.isParameterized then renderApplied scope type
        else renderBare ⟨.erase, placeholder⟩ scope type) v := by
    rw [renderFull, TypeRef.ite_eq_brackets, Name.mentions_append_brackets,
      Name.mentions_append_brackets]
  rw [hbrackets, leaves]
  by_cases hparameterized : type.isParameterized = true
  · rw [if_pos hparameterized, if_pos hparameterized]
    exact mentions_renderApplied_iff herasable hv type
  · rw [if_neg hparameterized, if_neg hparameterized]
    exact mentions_renderBare_iff herasable hv placeholder type

end Erase

/-- A type variable is mentioned by an erased type just if it is left in it, or if a longer name
becomes its name when the implicit package is left out. -/
theorem mentions_render_iff {scope : Scope} (herasable : scope.Erasable) {v : String}
    (hv : scope.isVariable v = true) (placeholder : String) (type : TypeRef) (varargs : Bool) :
    Mentions (render ⟨.erase, placeholder⟩ scope type varargs) v ↔
      leaves placeholder scope type v = true ∨
        Uncovers (renderFull ⟨.erase, placeholder⟩ scope type varargs) v := by
  rw [render, Name.mentions_dropImplicitPackage_iff (herasable.isSimple v hv),
    mentions_renderFull_iff herasable hv]

/-- A method with a bounded type variable and one without bounds, in a declaration without any. -/
def twoVariables : Scope :=
  let box : Declaration :=
    { name := "Box"
      qualifiedName := "com.acme.Box"
      imports := { package := some "com.acme", imports := ["java.util.List", "java.util.Map"] } }
  { root := box
    lexical := box
    method :=
      { name := "put"
        typeVariables := [⟨"T", [.simple "Foo" "com.acme.Foo"]⟩, ⟨"E", []⟩] } }

/-- `Map<T, E>`. -/
def mapOfVariables : TypeRef :=
  { name := "Map"
    qualifiedName := "java.util.Map"
    arguments := [.simple "T" "T", .simple "E" "E"] }

/-- A bounded argument keeps the arguments, so the one without bounds stays. -/
theorem mentions_render_mapOfVariables :
    twoVariables.Erasable ∧ twoVariables.isVariable "E" = true ∧
      Mentions (render ⟨.erase, defaultPlaceholder⟩ twoVariables mapOfVariables false) "E" := by
  have herasable : twoVariables.Erasable :=
    Scope.erasable_of_forall (by decide +kernel) (by decide +kernel)
  have hv : twoVariables.isVariable "E" = true := by decide +kernel
  exact ⟨herasable, hv, (mentions_render_iff herasable hv _ _ _).mpr (Or.inl (by decide +kernel))⟩

/-- `Map<String, List<T>>`. -/
def mapOfLists : TypeRef :=
  { name := "Map"
    qualifiedName := "java.util.Map"
    arguments := [.simple "String" "java.lang.String",
      { name := "List", qualifiedName := "java.util.List", arguments := [.simple "T" "T"] }] }

/-- An erased type can mention a type variable of the scope, though neither a bound nor the
placeholder is one. -/
theorem exists_variable_mentioned_by_erased_type :
    ¬∀ (scope : Scope) (placeholder : String) (type : TypeRef) (varargs : Bool),
      (∀ found ∈ scope.typeVariables, ∀ bound ∈ found.bounds,
        scope.isVariable bound.qualifiedName = false) →
      scope.isVariable placeholder = false →
      ∀ v, scope.isVariable v = true →
        ¬Mentions (render ⟨.erase, placeholder⟩ scope type varargs) v := by
  intro h
  exact h twoVariables defaultPlaceholder mapOfLists false (by decide +kernel) (by decide +kernel)
    "T" (by decide +kernel) (by decide +kernel)

end Rendering

end JavaSignatures
