import JavaSignatures.Proofs.SessionRun
import JavaSignatures.Proofs.WrittenNames

set_option autoImplicit false

/-!
# Imports that agree where they are asked

The imports of a file are asked for the first parts of the names in its types and for nothing else,
by the walk through the file and again when signatures are written.  Two files that declare the same
in the same package are read into declarations that differ in their imports alone
(`Outline.declare_withImports`), and if the imports agree on these first parts, every session makes
the same of both (`Session.parse_eq_of_agreesOn`).
-/

namespace JavaSignatures

/-! ## Names -/

namespace Name

theorem firstPart_of_splitFirst? {name first rest : String}
    (h : splitFirst? name = some (first, rest)) : firstPart name = first := by
  rw [splitFirst?, Text.cut?] at h
  split at h
  · exact absurd h (by simp)
  · simp only [Option.map_some, Option.some.injEq, Prod.mk.injEq] at h
    exact h.1

theorem firstPart_of_splitFirst?_eq_none {name : String} (h : splitFirst? name = none) :
    firstPart name = name := by
  rw [splitFirst?, Text.cut?] at h
  split at h
  · next hnone =>
    have htake := List.takeWhile_append_dropWhile (p := fun c => !(c == '.')) (l := name.toList)
    rw [hnone, List.append_nil] at htake
    rw [← String.toList_inj, firstPart, String.toList_ofList]
    exact htake
  · exact absurd h (by simp)

end Name

/-! ## Imports -/

namespace ImportScope

/-- The imports make the same of the first part of the text. -/
def AgreesOn (first second : ImportScope) (text : String) : Prop :=
  first.resolve (Name.firstPart text) = second.resolve (Name.firstPart text)

variable {first second : ImportScope} {text : String}

/-- No imports are asked for the name of no type. -/
theorem agreesOn_empty (first second : ImportScope) : first.AgreesOn second "" := rfl

theorem AgreesOn.resolve_eq (h : first.AgreesOn second text) :
    first.resolve text = second.resolve text := by
  cases hsplit : Name.splitFirst? text with
  | none => rwa [AgreesOn, Name.firstPart_of_splitFirst?_eq_none hsplit] at h
  | some parts =>
    have hsimple := Name.not_isSimple_of_splitFirst? hsplit
    rw [resolve_of_not_isSimple _ hsimple, resolve_of_not_isSimple _ hsimple]

theorem AgreesOn.resolve_first_eq (h : first.AgreesOn second text) {head rest : String}
    (hsplit : Name.splitFirst? text = some (head, rest)) :
    first.resolve head = second.resolve head := by
  rwa [AgreesOn, Name.firstPart_of_splitFirst? hsplit] at h

end ImportScope

/-! ## Declarations with other imports -/

namespace Declaration

mutual

/-- The declaration with everything in it in a file with these imports. -/
def withImports (imports : ImportScope) (declaration : Declaration) : Declaration :=
  match declaration with
  | ⟨name, qualifiedName, kind, nested, typeVariables, enclosing, methods, comment, _⟩ =>
    ⟨name, qualifiedName, kind, withImportsAll imports nested, typeVariables, enclosing, methods,
      comment, imports⟩
termination_by structural declaration

/-- The declarations in a file with these imports. -/
def withImportsAll (imports : ImportScope) (declarations : List Declaration) : List Declaration :=
  match declarations with
  | [] => []
  | declaration :: rest => withImports imports declaration :: withImportsAll imports rest
termination_by structural declarations

end

theorem withImportsAll_eq_map (imports : ImportScope) (declarations : List Declaration) :
    withImportsAll imports declarations = declarations.map (withImports imports) := by
  induction declarations with
  | nil => rfl
  | cons declaration rest ih => rw [withImportsAll, ih, List.map_cons]

mutual

/-- Only the last imports count. -/
theorem withImports_withImports (first second : ImportScope) (declaration : Declaration) :
    (declaration.withImports first).withImports second = declaration.withImports second := by
  cases declaration with
  | mk name qualifiedName kind nested typeVariables enclosing methods comment imports =>
    rw [withImports, withImports, withImports, withImportsAll_withImportsAll first second nested]
termination_by structural declaration

theorem withImportsAll_withImportsAll (first second : ImportScope)
    (declarations : List Declaration) :
    withImportsAll second (withImportsAll first declarations) =
      withImportsAll second declarations := by
  cases declarations with
  | nil => rfl
  | cons declaration rest =>
    rw [withImportsAll, withImportsAll, withImportsAll,
      withImports_withImports first second declaration,
      withImportsAll_withImportsAll first second rest]
termination_by structural declarations

end

variable (imports : ImportScope) (declaration : Declaration) (name : String)

@[simp]
theorem name_withImports : (declaration.withImports imports).name = declaration.name := by
  cases declaration
  rfl

@[simp]
theorem qualifiedName_withImports :
    (declaration.withImports imports).qualifiedName = declaration.qualifiedName := by
  cases declaration
  rfl

@[simp]
theorem kind_withImports : (declaration.withImports imports).kind = declaration.kind := by
  cases declaration
  rfl

@[simp]
theorem methods_withImports : (declaration.withImports imports).methods = declaration.methods := by
  cases declaration
  rfl

@[simp]
theorem comment_withImports : (declaration.withImports imports).comment = declaration.comment := by
  cases declaration
  rfl

@[simp]
theorem imports_withImports : (declaration.withImports imports).imports = imports := by
  cases declaration
  rfl

@[simp]
theorem typeVariable?_withImports :
    (declaration.withImports imports).typeVariable? name = declaration.typeVariable? name := by
  cases declaration
  rfl

@[simp]
theorem nested?_withImports :
    (declaration.withImports imports).nested? name =
      (declaration.nested? name).map (withImports imports) := by
  have hnested : (declaration.withImports imports).nested =
      declaration.nested.map (withImports imports) := by
    rw [← withImportsAll_eq_map]
    cases declaration
    rfl
  rw [nested?, nested?, hnested, List.find?_map]
  simp only [Function.comp_def, name_withImports]

@[simp]
theorem hasNested_withImports :
    (declaration.withImports imports).hasNested name = declaration.hasNested name := by
  rw [hasNested, nested?_withImports, Option.isSome_map, hasNested]

theorem descend?_withImports (names : List String) :
    (declaration.withImports imports).descend? names =
      (declaration.descend? names).map (withImports imports) := by
  induction names generalizing declaration with
  | nil => rfl
  | cons name names ih =>
    rw [descend?_cons, descend?_cons, nested?_withImports]
    cases declaration.nested? name with
    | none => rfl
    | some inner => exact ih inner

/-- A path leads to the same declaration. -/
theorem find?_withImports (path : String) :
    (declaration.withImports imports).find? path =
      (declaration.find? path).map (withImports imports) := by
  rw [find?, find?]
  split
  · rfl
  · exact nested?_withImports ..
  · simp only [name_withImports, hasNested_withImports]
    split
    · exact descend?_withImports ..
    · exact descend?_withImports ..

end Declaration

/-! ## Reading an outline -/

namespace Source

namespace Context

open TypeRef (references references_eq_cons referencesOf)

/-- Of a text on which the imports agree they make the same name. -/
theorem qualify_eq_of_agreesOn {first second : ImportScope} {visible : List TypeVariable}
    {text : String} (h : first.AgreesOn second text) :
    (⟨first, visible⟩ : Context).qualify text = (⟨second, visible⟩ : Context).qualify text := by
  rw [qualify, qualify]
  split
  · rfl
  · cases hsplit : Name.splitFirst? text with
    | none => exact h.resolve_eq
    | some parts => simp only [h.resolve_first_eq hsplit]

mutual

theorem typeRef_congr {first second : Context} (type : TypeExpr)
    (h : ∀ text ∈ type.texts, first.qualify text = second.qualify text) :
    first.typeRef type = second.typeRef type := by
  cases type with
  | name text => rw [typeRef, typeRef, h text (by simp [TypeExpr.texts])]
  | verbatim text => rw [typeRef, typeRef]
  | applied base arguments =>
    rw [TypeExpr.texts, List.forall_mem_append] at h
    rw [typeRef, typeRef, typeRef_congr base h.1, typeRefs_congr arguments h.2]
  | array element dimensions =>
    rw [TypeExpr.texts] at h
    rw [typeRef, typeRef, typeRef_congr element h]
termination_by structural type

theorem typeRefs_congr {first second : Context} (types : List TypeExpr)
    (h : ∀ text ∈ TypeExpr.textsOf types, first.qualify text = second.qualify text) :
    first.typeRefs types = second.typeRefs types := by
  cases types with
  | nil => rfl
  | cons type rest =>
    rw [TypeExpr.textsOf, List.forall_mem_append] at h
    rw [typeRefs, typeRefs, typeRef_congr type h.1, typeRefs_congr rest h.2]
termination_by structural types

end

mutual

/-- References have the texts of the type as their names. -/
theorem name_mem_texts (context : Context) (type : TypeExpr) :
    ∀ inner ∈ (context.typeRef type).references, inner.name ∈ type.texts := by
  cases type with
  | name text => simp [typeRef, references_eq_cons, TypeRef.simple, referencesOf, TypeExpr.texts]
  | verbatim text =>
    simp [typeRef, references_eq_cons, TypeRef.simple, referencesOf, TypeExpr.texts]
  | applied base arguments =>
    have hbase := name_mem_texts context base (context.typeRef base)
      (by rw [references_eq_cons]; exact List.mem_cons_self ..)
    rw [typeRef, references_eq_cons, TypeExpr.texts]
    refine List.forall_mem_cons.mpr ⟨List.mem_append_left _ hbase, fun inner hinner => ?_⟩
    exact List.mem_append_right _ (name_mem_textsOf context arguments inner hinner)
  | array element dimensions =>
    have helement := name_mem_texts context element
    rw [references_eq_cons, List.forall_mem_cons] at helement
    rw [typeRef, references_eq_cons, TypeExpr.texts]
    exact List.forall_mem_cons.mpr helement
termination_by structural type

theorem name_mem_textsOf (context : Context) (types : List TypeExpr) :
    ∀ inner ∈ referencesOf (context.typeRefs types), inner.name ∈ TypeExpr.textsOf types := by
  cases types with
  | nil => simp [typeRefs, referencesOf]
  | cons type rest =>
    rw [typeRefs, referencesOf, TypeExpr.textsOf, List.forall_mem_append]
    exact ⟨fun inner hinner => List.mem_append_left _ (name_mem_texts context type inner hinner),
      fun inner hinner => List.mem_append_right _ (name_mem_textsOf context rest inner hinner)⟩
termination_by structural types

end

theorem typeVariables_congr {first second : Context} {introduced : List VariableExpr}
    (h : ∀ text ∈ VariableExpr.textsOf introduced, first.qualify text = second.qualify text) :
    first.typeVariables introduced = second.typeVariables introduced := by
  refine List.map_congr_left fun expr hexpr => ?_
  rw [typeRefs_congr expr.bounds fun text htext =>
    h text (List.mem_flatMap.mpr ⟨expr, hexpr, htext⟩)]

end Context

/-- The references in a method have texts of its head as their names, but for a constructor, which
has none as its result. -/
theorem MethodHead.name_mem_texts (head : MethodHead) (context : Context) (owner : String) :
    ∀ type ∈ (head.method context owner).references, type.name = "" ∨ type.name ∈ head.texts := by
  intro type htype
  unfold Method.references MethodHead.method at htype
  dsimp only at htype
  rw [MethodHead.texts]
  rcases List.mem_append.mp htype with htype | htype
  · split at htype
    · have hempty : type = {} := by
        simpa [TypeRef.references_eq_cons, TypeRef.referencesOf] using htype
      exact .inl (by rw [hempty])
    · have hname := Context.name_mem_texts _ head.result type htype
      exact .inr (List.mem_append_right _ (List.mem_append_left _ hname))
  · obtain ⟨parameter, hparameter, htype⟩ := List.mem_flatMap.mp htype
    obtain ⟨written, hwritten, rfl⟩ := List.mem_map.mp hparameter
    have hname := Context.name_mem_texts _ written.type type htype
    refine .inr (List.mem_append_right _ (List.mem_append_right _ ?_))
    exact List.mem_flatMap.mpr ⟨written, hwritten, hname⟩

theorem MethodHead.method_congr {first second : ImportScope} {head : MethodHead}
    (h : ∀ text ∈ head.texts, first.AgreesOn second text) (visible : List TypeVariable)
    (owner : String) :
    head.method ⟨first, visible⟩ owner = head.method ⟨second, visible⟩ owner := by
  rw [MethodHead.texts, List.forall_mem_append, List.forall_mem_append] at h
  obtain ⟨hvariables, hresult, hparameters⟩ := h
  have hintroduced : (⟨first, visible⟩ : Context).typeVariables head.typeVariables =
      (⟨second, visible⟩ : Context).typeVariables head.typeVariables :=
    Context.typeVariables_congr fun text htext =>
      Context.qualify_eq_of_agreesOn (hvariables text htext)
  have htype : ∀ (inside : List TypeVariable) (type : TypeExpr),
      (∀ text ∈ type.texts, first.AgreesOn second text) →
      (⟨first, inside⟩ : Context).typeRef type = (⟨second, inside⟩ : Context).typeRef type :=
    fun inside type htexts => Context.typeRef_congr type fun text htext =>
      Context.qualify_eq_of_agreesOn (htexts text htext)
  unfold MethodHead.method
  dsimp only [Context.add]
  rw [hintroduced, htype _ _ hresult]
  congr 1
  refine List.map_congr_left fun parameter hparameter => ?_
  rw [htype _ parameter.type fun text htext =>
    hparameters text (List.mem_flatMap.mpr ⟨parameter, hparameter, htext⟩)]

namespace Outline

mutual

/-- The texts in the types of an outline, at any depth. -/
def texts (outline : Outline) : List String :=
  match outline with
  | ⟨head, methods, nested⟩ =>
    VariableExpr.textsOf head.typeVariables ++
      (methods.flatMap MethodHead.texts ++ textsOf nested)
termination_by structural outline

/-- The texts in the types of outlines. -/
def textsOf (outlines : List Outline) : List String :=
  match outlines with
  | [] => []
  | outline :: rest => texts outline ++ textsOf rest
termination_by structural outlines

end

mutual

/-- What an outline declares does not depend on the imports of the file but for the texts in it. -/
theorem declare_withImports {first second : ImportScope} (hpackage : first.package = second.package)
    (visible : List TypeVariable) (owner : Option String) (outline : Outline)
    (h : ∀ text ∈ outline.texts, first.AgreesOn second text) :
    outline.declare ⟨second, visible⟩ owner =
      (outline.declare ⟨first, visible⟩ owner).withImports second := by
  cases outline with
  | mk head methods nested =>
    rw [texts, List.forall_mem_append, List.forall_mem_append] at h
    obtain ⟨hvariables, hmethods, hnested⟩ := h
    have hname : second.inPackage head.name = first.inPackage head.name := by
      rw [ImportScope.inPackage, ImportScope.inPackage, hpackage]
    have hintroduced : ∀ enclosing : List TypeVariable,
        (⟨second, enclosing⟩ : Context).typeVariables head.typeVariables =
          (⟨first, enclosing⟩ : Context).typeVariables head.typeVariables := fun enclosing =>
      Context.typeVariables_congr fun text htext =>
        (Context.qualify_eq_of_agreesOn (hvariables text htext)).symm
    have hinside := fun visible owner =>
      declareAll_withImports hpackage visible owner nested hnested
    have hmethod : ∀ inside : List TypeVariable,
        methods.map (fun method => method.method ⟨second, inside⟩ head.name) =
          methods.map fun method => method.method ⟨first, inside⟩ head.name := by
      intro inside
      refine List.map_congr_left fun method hmem => ?_
      refine (MethodHead.method_congr (fun text htext => ?_) inside head.name).symm
      exact hmethods text (List.mem_flatMap.mpr ⟨method, hmem, htext⟩)
    simp only [declare, Declaration.withImports, Context.add, hname, hintroduced, hmethod, hinside]
termination_by structural outline

theorem declareAll_withImports {first second : ImportScope}
    (hpackage : first.package = second.package) (visible : List TypeVariable)
    (owner : Option String) (outlines : List Outline)
    (h : ∀ text ∈ textsOf outlines, first.AgreesOn second text) :
    declareAll ⟨second, visible⟩ owner outlines =
      Declaration.withImportsAll second (declareAll ⟨first, visible⟩ owner outlines) := by
  cases outlines with
  | nil => rfl
  | cons outline rest =>
    rw [textsOf, List.forall_mem_append] at h
    rw [declareAll, declareAll, Declaration.withImportsAll,
      declare_withImports hpackage visible owner outline h.1,
      declareAll_withImports hpackage visible owner rest h.2]
termination_by structural outlines

end

theorem textsOf_eq_flatMap (outlines : List Outline) :
    textsOf outlines = outlines.flatMap texts := by
  induction outlines with
  | nil => rfl
  | cons outline rest ih => rw [textsOf, ih, List.flatMap_cons]

mutual

theorem texts_subset_of_mem_methodHeads (outline : Outline) {head : MethodHead}
    (h : head ∈ outline.methodHeads) : head.texts ⊆ outline.texts := by
  cases outline with
  | mk typeHead methods nested =>
    have hnested := fun (h : head ∈ methodHeadsOf nested) =>
      texts_subset_of_mem_methodHeadsOf nested h
    rw [methodHeads, List.mem_append] at h
    intro text htext
    rw [texts]
    refine List.mem_append_right _ (List.mem_append.mpr (h.imp (fun hmethod => ?_) fun hmore => ?_))
    · exact List.mem_flatMap.mpr ⟨head, hmethod, htext⟩
    · exact hnested hmore htext
termination_by structural outline

theorem texts_subset_of_mem_methodHeadsOf (outlines : List Outline) {head : MethodHead}
    (h : head ∈ methodHeadsOf outlines) : head.texts ⊆ textsOf outlines := by
  cases outlines with
  | nil => exact absurd h (by simp [methodHeadsOf])
  | cons outline rest =>
    have hfirst := fun (h : head ∈ methodHeads outline) =>
      texts_subset_of_mem_methodHeads outline h
    have hrest := fun (h : head ∈ methodHeadsOf rest) =>
      texts_subset_of_mem_methodHeadsOf rest h
    rw [methodHeadsOf, List.mem_append] at h
    rw [textsOf]
    exact h.elim (fun h text htext => List.mem_append_left _ (hfirst h htext))
      fun h text htext => List.mem_append_right _ (hrest h htext)
termination_by structural outlines

end

end Outline

end Source

/-! ## Looking up names at a method -/

namespace Scope

/-- The scope in a file with these imports. -/
def withImports (imports : ImportScope) (scope : Scope) : Scope :=
  ⟨scope.root.withImports imports, scope.lexical.withImports imports, scope.method⟩

/-- The scope is one in a file with these imports. -/
structure IsIn (imports : ImportScope) (scope : Scope) : Prop where
  root : scope.root.imports = imports
  lexical : scope.lexical.imports = imports

section

variable (imports : ImportScope) (scope : Scope) (name : String)

theorem typeVariable?_withImports :
    (scope.withImports imports).typeVariable? name = scope.typeVariable? name := by
  simp only [typeVariable?, withImports, Declaration.typeVariable?_withImports]

theorem isVariable_withImports :
    (scope.withImports imports).isVariable name = scope.isVariable name := by
  rw [isVariable, typeVariable?_withImports, isVariable]

theorem isBounded_withImports :
    (scope.withImports imports).isBounded name = scope.isBounded name := by
  rw [isBounded, typeVariable?_withImports, isBounded]

theorem bound?_withImports : (scope.withImports imports).bound? name = scope.bound? name := by
  rw [bound?, typeVariable?_withImports, bound?]

theorem ownerOf?_withImports :
    (scope.withImports imports).ownerOf? name =
      (scope.ownerOf? name).map (Declaration.withImports imports) := by
  simp only [ownerOf?, withImports, Declaration.hasNested_withImports]
  split
  · rfl
  · split <;> rfl

end

variable {first second : ImportScope} {scope : Scope}

theorem qualifyPath_withImports (hscope : scope.IsIn first) {head : String}
    (h : first.resolve head = second.resolve head) (rest : String) :
    (scope.withImports second).qualifyPath head rest = scope.qualifyPath head rest := by
  have hname : (scope.withImports second).root.name = scope.root.name :=
    Declaration.name_withImports ..
  have himports : (scope.withImports second).root.imports = second :=
    Declaration.imports_withImports ..
  unfold qualifyPath
  rw [ownerOf?_withImports, ownerOf?_withImports, hname, himports, hscope.root, h]
  cases scope.ownerOf? head with
  | some owner => simp [Declaration.member]
  | none =>
    by_cases hroot : head = scope.root.name
    · cases scope.ownerOf? rest <;> simp [hroot, Declaration.member]
    · simp [hroot]

theorem qualifyName_withImports (hscope : scope.IsIn first) {name : String}
    (h : first.AgreesOn second name) :
    (scope.withImports second).qualifyName name = scope.qualifyName name := by
  have hsimple : (scope.withImports second).qualifySimple name = scope.qualifySimple name := by
    simp only [qualifySimple, withImports, Declaration.imports_withImports, hscope.root,
      hscope.lexical, h.resolve_eq]
  unfold qualifyName
  rw [ownerOf?_withImports, hsimple]
  cases scope.ownerOf? name with
  | some owner => simp [Declaration.member]
  | none =>
    cases hsplit : Name.splitFirst? name with
    | none => simp
    | some parts =>
      obtain ⟨head, rest⟩ := parts
      have hpath := qualifyPath_withImports hscope (h.resolve_first_eq hsplit) rest
      cases Name.isCapitalized name <;> simp [hpath]

open TypeRef (references references_eq_cons referencesOf)

mutual

/-- Imports that agree on the names in a reference qualify it alike. -/
theorem qualify_withImports (hscope : scope.IsIn first) (type : TypeRef)
    (h : ∀ inner ∈ type.references, first.AgreesOn second inner.name) :
    (scope.withImports second).qualify type = scope.qualify type := by
  obtain ⟨name, qualifiedName, arguments, dimensions, varargs⟩ := type
  rw [references_eq_cons, List.forall_mem_cons] at h
  have harguments := qualifyAll_withImports hscope arguments h.2
  simp only [qualify, isVariable_withImports, qualifyName_withImports hscope h.1, harguments]
termination_by structural type

theorem qualifyAll_withImports (hscope : scope.IsIn first) (types : List TypeRef)
    (h : ∀ inner ∈ referencesOf types, first.AgreesOn second inner.name) :
    (scope.withImports second).qualifyAll types = scope.qualifyAll types := by
  cases types with
  | nil => rfl
  | cons type rest =>
    rw [referencesOf, List.forall_mem_append] at h
    rw [qualifyAll, qualifyAll, qualify_withImports hscope type h.1,
      qualifyAll_withImports hscope rest h.2]
termination_by structural types

end

theorem render_withImports (hscope : scope.IsIn first) (rendering : Rendering) (type : TypeRef)
    (varargs : Bool) (h : ∀ inner ∈ type.references, first.AgreesOn second inner.name) :
    rendering.render (scope.withImports second) type varargs =
      rendering.render scope type varargs := by
  have hqualify := qualify_withImports hscope type h
  have hbounds : ∀ text, Rendering.boundArguments (scope.withImports second) type.arguments text =
      Rendering.boundArguments scope type.arguments text := by
    intro text
    simp only [Rendering.boundArguments, bound?_withImports]
  simp only [Rendering.render, Rendering.renderFull, Rendering.renderApplied, Rendering.renderBare,
    hqualify, hbounds, bound?_withImports, isBounded_withImports, isVariable_withImports]

end Scope

/-! ## Collecting signatures -/

section Collecting

variable {first second : ImportScope} {style : Style} {root target : Declaration}
  (hroot : root.imports = first) (htarget : target.imports = first)

include hroot htarget

/-- The signature of a method depends on the imports only where names in it are looked up. -/
theorem Signature.ofMethod_withImports {method : Method}
    (h : ∀ inner ∈ method.references, first.AgreesOn second inner.name) :
    ofMethod style (root.withImports second) (target.withImports second) method =
      ofMethod style root target method := by
  rw [Method.references, List.forall_mem_append] at h
  obtain ⟨hresult, hparameters⟩ := h
  have hreturn : resultType style (target.withImports second) method =
      resultType style target method := by
    have hscope : Scope.IsIn first ⟨target, target, method⟩ := ⟨htarget, htarget⟩
    unfold resultType
    rw [← Scope.render_withImports hscope style.rendering method.returnType false hresult]
    rfl
  have htypes : typedParameters style (root.withImports second) (target.withImports second) method =
      typedParameters style root target method := by
    have hscope : Scope.IsIn first ⟨root, target, method⟩ := ⟨hroot, htarget⟩
    refine List.map_congr_left fun parameter hparameter => ?_
    rw [← Scope.render_withImports hscope style.rendering parameter.type parameter.varargs
      fun inner hinner => hparameters inner (List.mem_flatMap.mpr ⟨parameter, hparameter, hinner⟩)]
    rfl
  simp only [ofMethod, hreturn, htypes]

theorem Catalogue.addTarget_withImports
    (h : ∀ method ∈ target.methods, ∀ inner ∈ method.references,
      first.AgreesOn second inner.name) (catalogue : Catalogue) :
    catalogue.addTarget style (root.withImports second) (target.withImports second) =
      catalogue.addTarget style root target := by
  have hsignatures : Signature.ofTarget style (root.withImports second)
      (target.withImports second) = Signature.ofTarget style root target := by
    simp only [Signature.ofTarget, Declaration.methods_withImports, Declaration.kind_withImports]
    refine List.map_congr_left fun method hmethod => ?_
    exact Signature.ofMethod_withImports hroot htarget (h method (List.mem_filter.mp hmethod).1)
  simp only [addTarget, describe, hsignatures, Declaration.qualifiedName_withImports,
    Declaration.comment_withImports]

end Collecting

/-- Whatever a path leads to in a file, its imports matter only where names are looked up. -/
theorem Catalogue.addUnit_withImports {first second : ImportScope} (declaration : Declaration)
    (h : ∀ method ∈ declaration.allMethods, ∀ inner ∈ method.references,
      first.AgreesOn second inner.name)
    (catalogue : Catalogue) (style : Style) (path : Option String) :
    catalogue.addUnit style (declaration.withImports second) path =
      catalogue.addUnit style (declaration.withImports first) path := by
  have hagain : ∀ inner : Declaration,
      (inner.withImports first).withImports second = inner.withImports second :=
    Declaration.withImports_withImports first second
  have htarget : ∀ target : Declaration,
      (∀ method ∈ target.methods, method ∈ declaration.allMethods) →
      catalogue.addTarget style (declaration.withImports second) (target.withImports second) =
        catalogue.addTarget style (declaration.withImports first) (target.withImports first) := by
    intro target hmethods
    rw [← hagain declaration, ← hagain target]
    refine addTarget_withImports (Declaration.imports_withImports ..)
      (Declaration.imports_withImports ..) (fun method hmethod => ?_) catalogue
    rw [Declaration.methods_withImports] at hmethod
    exact h method (hmethods method hmethod)
  cases path with
  | none =>
    refine htarget declaration fun method hmethod => ?_
    rw [Declaration.allMethods_eq]
    exact List.mem_append_left _ hmethod
  | some path =>
    rw [addUnit, addUnit, Declaration.find?_withImports, Declaration.find?_withImports]
    cases hfind : declaration.find? path with
    | none => simp [notFound]
    | some target =>
      exact htarget target fun method hmethod => Declaration.mem_allMethods_of_find? hfind hmethod

namespace Session

open Source (SourceFile Outline)

/-- Files that declare the same in the same package are the same to every session, if their imports
agree on the names in the types. -/
theorem parse_eq_of_agreesOn {first second : String}
    (hpackage : (SourceFile.ofSource first.toList).package =
      (SourceFile.ofSource second.toList).package)
    (hdeclarations : (SourceFile.ofSource first.toList).declarations =
      (SourceFile.ofSource second.toList).declarations)
    (h : ∀ text ∈ Outline.textsOf (SourceFile.ofSource first.toList).declarations,
      (SourceFile.ofSource first.toList).importScope.AgreesOn
        (SourceFile.ofSource second.toList).importScope text)
    (session : Session .java) (path : Option String) :
    session.parse first path = session.parse second path := by
  generalize hfirst : SourceFile.ofSource first.toList = file at hpackage hdeclarations h
  generalize hsecond : SourceFile.ofSource second.toList = other at hpackage hdeclarations h
  have hmain : file.main? = other.main? := by
    unfold SourceFile.main?
    rw [hdeclarations]
  rw [parse_java, parse_java]
  unfold Source.parse SourceFile.root
  rw [hfirst, hsecond, ← hmain]
  cases hfound : file.main? with
  | none => rfl
  | some outline =>
    have htexts : ∀ text ∈ outline.texts, file.importScope.AgreesOn other.importScope text := by
      intro text htext
      apply h text
      rw [Outline.textsOf_eq_flatMap]
      exact List.mem_flatMap.mpr ⟨outline, SourceFile.mem_declarations_of_main? hfound, htext⟩
    let declared : Declaration := outline.declare { imports := file.importScope } none
    have hself : declared = declared.withImports file.importScope :=
      Outline.declare_withImports rfl [] none outline fun _ _ => rfl
    have hother : outline.declare { imports := other.importScope } none =
        declared.withImports other.importScope :=
      Outline.declare_withImports hpackage [] none outline htexts
    have hnames : ∀ method ∈ declared.allMethods, ∀ inner ∈ method.references,
        file.importScope.AgreesOn other.importScope inner.name := by
      intro method hmethod inner hinner
      obtain ⟨head, hhead, context, owner, rfl⟩ :=
        Outline.exists_head_of_declare _ _ outline hmethod
      rcases head.name_mem_texts context owner inner hinner with hempty | hname
      · rw [hempty]
        exact ImportScope.agreesOn_empty ..
      · exact htexts _ (Outline.texts_subset_of_mem_methodHeads outline hhead hname)
    have hunit := Catalogue.addUnit_withImports declared hnames session.catalogue session.style path
    rw [← hself, ← hother] at hunit
    dsimp only
    rw [addUnit, addUnit, hunit]

end Session

end JavaSignatures
