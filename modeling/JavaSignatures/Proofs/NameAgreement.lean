import JavaSignatures.Proofs.BalancedTypes
import JavaSignatures.Proofs.Nesting
import JavaSignatures.Proofs.VerbatimTypes

set_option autoImplicit false

/-!
# Two ways to qualify a name

The walk through a file qualifies every type that it meets, and when signatures are written the
names are qualified once more, now knowing what is nested where.  Both agree on type variables, and
they agree on every name that leads to no nested declaration, except that the second way may write
`$` where the first one writes a period (`Source.qualifiedName_agrees`).
-/

namespace JavaSignatures

namespace Name

/-- The name with a period for each `$`. -/
def dotted (name : String) : String := Text.onString (Text.replaceChar '$' ['.']) name

theorem dotted_path (first rest : String) :
    dotted (first ++ "$" ++ rest) = dotted (first ++ "." ++ rest) := by
  simp [dotted, Text.onString, Text.replaceChar]

theorem isCapitalized_of_splitFirst? {name first rest : String}
    (h : splitFirst? name = some (first, rest)) : isCapitalized name = isCapitalized first := by
  unfold isCapitalized
  rw [toList_of_splitFirst? h]
  cases first.toList with
  | nil =>
    have hperiod : Character.isUpper '.' = false := by decide
    simp [hperiod]
  | cons c more => rfl

theorem not_isSimple_of_mem {name : String} {c : Char} (hc : c ∈ name.toList)
    (hpart : Character.isNamePart c = false) : isSimple name = false := by
  rw [Bool.eq_false_iff]
  intro hsimple
  have hname := (isNamePart_of_isSimple hsimple).2 c hc
  rw [hpart] at hname
  exact absurd hname (by simp)

theorem not_isSimple_of_splitFirst? {name first rest : String}
    (h : splitFirst? name = some (first, rest)) : isSimple name = false := by
  have hmem : '.' ∈ name.toList := by simp [toList_of_splitFirst? h]
  exact not_isSimple_of_mem hmem (by decide)

/-- A text that is no name is not simple, not capitalized and not a keyword. -/
theorem IsForeign.not_name {text : String} (h : IsForeign text) :
    isSimple text = false ∧ isCapitalized text = false ∧ text ≠ "void" := by
  unfold IsForeign at h
  unfold isSimple isCapitalized
  cases htext : text.toList with
  | nil => exact ⟨rfl, rfl, by rintro rfl; exact absurd htext (by decide)⟩
  | cons c rest =>
    rw [htext] at h
    have hc : c ∈ ['?', '@', '/'] := h c rfl
    have hstart : Character.isNameStart c = false ∧ Character.isUpper c = false ∧ c ≠ 'v' := by
      simp only [List.mem_cons, List.not_mem_nil, or_false] at hc
      rcases hc with rfl | rfl | rfl <;> decide
    refine ⟨by simp [hstart.1], by simp [hstart.2.1], ?_⟩
    rintro rfl
    exact hstart.2.2 (List.cons.inj htext).1.symm

end Name

namespace Scope

/-- The name leads to a nested declaration of the root or of the declaration around the method: a
simple name by itself; a dotted one by what stands in front of its first period, or by what follows
it if that is the name of the root. -/
def namesNested (scope : Scope) (name : String) : Bool :=
  match Name.splitFirst? name with
  | none => (scope.ownerOf? name).isSome
  | some (first, rest) =>
    (scope.ownerOf? first).isSome || first == scope.root.name && (scope.ownerOf? rest).isSome

end Scope

namespace Declaration

/-- No nested declaration has a name with a period in it. -/
def NestsSimply (declaration : Declaration) : Prop :=
  ∀ inner ∈ declaration.nested, '.' ∉ inner.name.toList

theorem NestsSimply.hasNested_eq_false {declaration : Declaration} (h : declaration.NestsSimply)
    {name : String} (hname : '.' ∈ name.toList) : declaration.hasNested name = false := by
  rw [Bool.eq_false_iff]
  intro hnested
  obtain ⟨inner, hinner⟩ := Option.isSome_iff_exists.mp hnested
  have hsame : inner.name = name := by simpa using List.find?_some hinner
  exact h inner (List.mem_of_find?_eq_some hinner) (hsame ▸ hname)

end Declaration

/-- The references to types in the signature of the method, at any depth. -/
def Method.references (method : Method) : List TypeRef :=
  method.returnType.references ++
    method.parameters.flatMap fun parameter => parameter.type.references

namespace Source

/-! ## References to types -/

/-- The reference has been qualified in the context, or it is a text that is no name. -/
def IsQualified (context : Context) (type : TypeRef) : Prop :=
  type.qualifiedName = context.qualify type.name ∨
    type.qualifiedName = type.name ∧ Name.IsForeign type.name

namespace Context

open TypeRef (references references_eq_cons referencesOf)

variable {context : Context}

theorem IsQualified.cons {base type : TypeRef} (hbase : ∀ inner ∈ base.references,
    IsQualified context inner) (hname : type.name = base.name)
    (hqualified : type.qualifiedName = base.qualifiedName)
    (harguments : ∀ inner ∈ referencesOf type.arguments, IsQualified context inner) :
    ∀ inner ∈ type.references, IsQualified context inner := by
  rw [references_eq_cons]
  refine List.forall_mem_cons.mpr ⟨?_, harguments⟩
  have hself := hbase base (by rw [references_eq_cons]; exact List.mem_cons_self ..)
  unfold IsQualified at hself ⊢
  rwa [hname, hqualified]

mutual

theorem isQualified_typeRef (type : TypeExpr) (h : type.IsProper) :
    ∀ inner ∈ (context.typeRef type).references, IsQualified context inner := by
  cases type with
  | name text =>
    rw [typeRef, references_eq_cons]
    simp [TypeRef.simple, referencesOf, IsQualified]
  | verbatim text =>
    rw [TypeExpr.IsProper] at h
    rw [typeRef, references_eq_cons]
    simp [TypeRef.simple, referencesOf, IsQualified, h]
  | applied base arguments =>
    rw [TypeExpr.IsProper] at h
    rw [typeRef]
    exact IsQualified.cons (isQualified_typeRef base h.1) rfl rfl
      (isQualified_typeRefs arguments h.2)
  | array element dimensions =>
    rw [TypeExpr.IsProper] at h
    have helement := isQualified_typeRef element h
    rw [typeRef]
    refine IsQualified.cons helement rfl rfl fun inner hinner => helement inner ?_
    rw [references_eq_cons]
    exact List.mem_cons_of_mem _ hinner
termination_by structural type

theorem isQualified_typeRefs (types : List TypeExpr) (h : TypeExpr.AreProper types) :
    ∀ inner ∈ referencesOf (context.typeRefs types), IsQualified context inner := by
  cases types with
  | nil => simp [typeRefs, referencesOf]
  | cons type rest =>
    rw [TypeExpr.AreProper] at h
    rw [typeRefs, referencesOf]
    exact List.forall_mem_append.mpr
      ⟨isQualified_typeRef type h.1, isQualified_typeRefs rest h.2⟩
termination_by structural types

end

end Context

/-- The types of a method have been qualified with its own variables in view. -/
theorem isQualified_method {head : MethodHead} (h : head.IsProper) (context : Context)
    (owner : String) :
    ∀ type ∈ (head.method context owner).references,
      IsQualified (context.add (head.method context owner).typeVariables) type := by
  have hempty : ∀ type ∈ TypeRef.references {},
      IsQualified (context.add (head.method context owner).typeVariables) type := by
    simp [TypeRef.references_eq_cons, TypeRef.referencesOf, IsQualified, Name.IsForeign]
  unfold Method.references
  rw [List.forall_mem_append]
  constructor
  · unfold MethodHead.method
    dsimp only
    split
    · exact hempty
    · exact Context.isQualified_typeRef head.result h.1
  · intro type htype
    obtain ⟨parameter, hparameter, htype⟩ := List.mem_flatMap.mp htype
    obtain ⟨written, hwritten, rfl⟩ := List.mem_map.mp hparameter
    exact Context.isQualified_typeRef written.type (h.2 written hwritten) type htype

/-! ## The two ways side by side -/

section Agreement

variable {context : Context} {scope : Scope} {name : String}

/-- A dotted name is the name of no nested declaration. -/
theorem ownerOf?_of_splitFirst? (hroot : scope.root.NestsSimply)
    (hlexical : scope.lexical.NestsSimply) {first rest : String}
    (hsplit : Name.splitFirst? name = some (first, rest)) : scope.ownerOf? name = none := by
  have hperiod : '.' ∈ name.toList := by simp [Name.toList_of_splitFirst? hsplit]
  simp [Scope.ownerOf?, hroot.hasNested_eq_false hperiod, hlexical.hasNested_eq_false hperiod]

theorem ownerOf?_of_namesNested (hroot : scope.root.NestsSimply)
    (hlexical : scope.lexical.NestsSimply) (hnested : scope.namesNested name = false) :
    scope.ownerOf? name = none := by
  cases hsplit : Name.splitFirst? name with
  | none =>
    rw [Scope.namesNested, hsplit] at hnested
    simpa using hnested
  | some parts => exact ownerOf?_of_splitFirst? hroot hlexical hsplit

/-- The types of the language itself and the names of a package. -/
theorem qualifySimple_eq (hroot : scope.root.imports = context.imports)
    (hlexical : scope.lexical.imports = context.imports) :
    scope.qualifySimple name = context.imports.resolve name := by
  unfold Scope.qualifySimple
  rw [hroot, hlexical]
  exact ite_self _

theorem qualifyPath_eq (hroot : scope.root.imports = context.imports) {first rest : String}
    (hfirst : scope.ownerOf? first = none)
    (hrest : first = scope.root.name → scope.ownerOf? rest = none) :
    scope.qualifyPath first rest = context.imports.resolve first ++ "$" ++ rest := by
  unfold Scope.qualifyPath
  have hmember : (if first == scope.root.name then scope.ownerOf? rest else none) = none := by
    split
    · next hname => exact hrest (by simpa using hname)
    · rfl
  rw [hfirst, hmember, hroot]

/-- What the walk does with a name that is no type variable. -/
theorem qualify_of_not_visible
    (h : context.visible.any (fun candidate => candidate.name == name) = false) :
    context.qualify name =
      match Name.splitFirst? name with
      | some (first, rest) =>
        if Name.isCapitalized first then context.imports.resolve first ++ "." ++ rest else name
      | none => context.imports.resolve name := by
  have hhidden : ¬context.visible.any (fun candidate => candidate.name == name) = true := by
    rw [h]
    exact Bool.false_ne_true
  exact if_neg hhidden

/-- What a scope does with a name that is the name of no nested declaration. -/
theorem qualifyName_of_ownerOf? (howner : scope.ownerOf? name = none) (hvoid : name ≠ "void") :
    scope.qualifyName name =
      match Name.splitFirst? name with
      | some (first, rest) =>
        if Name.isCapitalized first then scope.qualifyPath first rest else scope.qualifySimple name
      | none => scope.qualifySimple name := by
  unfold Scope.qualifyName
  rw [howner, if_neg (by simpa using hvoid)]
  cases hsplit : Name.splitFirst? name with
  | none => simp
  | some parts =>
    obtain ⟨first, rest⟩ := parts
    rw [Name.isCapitalized_of_splitFirst? hsplit]
    cases hcapitalized : Name.isCapitalized first <;> simp [hcapitalized]

/-- A name that is no type variable and leads to no nested declaration is written alike. -/
theorem dotted_qualifyName_eq (hroot : scope.root.imports = context.imports)
    (hlexical : scope.lexical.imports = context.imports) (howner : scope.ownerOf? name = none)
    (hnested : scope.namesNested name = false)
    (hvisible : context.visible.any (fun candidate => candidate.name == name) = false) :
    Name.dotted (scope.qualifyName name) = Name.dotted (context.qualify name) := by
  rw [qualify_of_not_visible hvisible]
  by_cases hvoid : name = "void"
  · subst hvoid
    have hprimitive : "void" ∈ ImportScope.primitives := by decide
    have hresolve := context.imports.resolve_of_primitive hprimitive
    have hsplit : Name.splitFirst? "void" = none := by decide
    simp [Scope.qualifyName, hsplit, hresolve]
  rw [qualifyName_of_ownerOf? howner hvoid]
  cases hsplit : Name.splitFirst? name with
  | none => simp only [qualifySimple_eq hroot hlexical]
  | some parts =>
    obtain ⟨first, rest⟩ := parts
    rw [Scope.namesNested, hsplit] at hnested
    obtain ⟨hfirst, hrest⟩ := Bool.or_eq_false_iff.mp hnested
    dsimp only
    split
    · rw [qualifyPath_eq hroot (by simpa using hfirst) (by simpa using hrest), Name.dotted_path]
    · rw [qualifySimple_eq hroot hlexical,
        ImportScope.resolve_of_not_isSimple _ (Name.not_isSimple_of_splitFirst? hsplit)]

/-- A text that is no name stays as it is. -/
theorem qualifyName_of_isForeign (howner : scope.ownerOf? name = none)
    (h : Name.IsForeign name) : scope.qualifyName name = name := by
  obtain ⟨hsimple, hcapitalized, hvoid⟩ := h.not_name
  unfold Scope.qualifyName
  rw [howner, if_neg (by simpa using hvoid)]
  simp [hcapitalized, Scope.qualifySimple, ImportScope.resolve_of_not_isSimple _ hsimple]

/-- Where a method stands in its own declaration, a scope and the context of the walk see the same
type variables. -/
theorem isVariable_eq (scope : Scope) (name : String) :
    scope.isVariable name =
      ((Context.inside scope.lexical).add scope.method.typeVariables).visible.any
        fun candidate => candidate.name == name := by
  rw [Bool.eq_iff_iff]
  simp only [Scope.isVariable, Scope.typeVariable?, Method.typeVariable?, Declaration.typeVariable?,
    TypeVariable.find?, Option.isSome_or, Bool.or_eq_true, List.find?_isSome, List.any_eq_true,
    Context.add, Context.inside, Declaration.visibleVariables, List.mem_append, List.mem_reverse]
  constructor
  · rintro (⟨candidate, hmem, hname⟩ | ⟨candidate, hmem, hname⟩)
    · exact ⟨candidate, Or.inr hmem, hname⟩
    · exact ⟨candidate, Or.inl hmem.symm, hname⟩
  · rintro ⟨candidate, hmem | hmem, hname⟩
    · exact Or.inr ⟨candidate, hmem.symm, hname⟩
    · exact Or.inl ⟨candidate, hmem, hname⟩

end Agreement

/-! ## Source texts -/

/-- A nested declaration has a word as its name. -/
theorem nestsSimply_of_isReadFrom {source : List Char} {outline : Outline}
    {declaration : Declaration} (hmade : IsMadeOf outline declaration)
    (hread : ∀ inner ∈ outline.nested,
      inner.IsReadFrom (Statement.headsOf (Statement.ofSource source))) :
    declaration.NestsSimply := by
  intro inner hinner hperiod
  obtain ⟨written, hwritten, hmade, -⟩ := hmade.exists_outline_of_mem hinner
  obtain ⟨trees, htrees, hhead⟩ := (hread written hwritten).head
  obtain ⟨token, htoken, hword, hname⟩ := Head.exists_token_of_type hhead
  have hsource := Statement.mem_ofSource_of_mem_heads htrees htoken
  rw [hmade.name, hname] at hperiod
  exact absurd (Token.isWordPart_of_mem_ofSource hsource hword '.' hperiod) (by decide +kernel)

/-- What the declarations of a source text are to the one that it is about. -/
theorem nestsSimply_and_isQualified_of_parse {source : String} {root : Declaration}
    (hroot : parse source = .ok root) {declaration : Declaration}
    (hdeclaration :
      Relation.ReflTransGen (fun outer inner => inner ∈ outer.nested) root declaration) :
    declaration.NestsSimply ∧ declaration.imports = root.imports ∧
      ∀ method ∈ declaration.methods, ∀ type ∈ method.references,
        IsQualified ((Context.inside declaration).add method.typeVariables) type := by
  obtain ⟨written, hwritten, himports, hread, hnested⟩ := exists_outline_of_parse hroot hdeclaration
  refine ⟨nestsSimply_of_isReadFrom hwritten hnested, himports, ?_⟩
  intro method hmethod
  rw [hwritten.methods] at hmethod
  obtain ⟨head, hhead, rfl⟩ := List.mem_map.mp hmethod
  obtain ⟨trees, htrees, hasBlock, htype⟩ := hread.methods head hhead
  refine isQualified_method (Head.isProper_of_ofTrees (fun token htoken => ?_) htype) _ _
  exact Token.isProper_of_mem_ofSource (Statement.mem_ofSource_of_mem_heads htrees htoken)

/-- The walk through a file and the scope of a method qualify alike: a type variable keeps its name,
and of any other name that leads to no nested declaration both make the same, up to `$` and
period. -/
theorem qualifiedName_agrees {source : String} {root : Declaration}
    (hroot : parse source = .ok root) {declaration : Declaration}
    (hdeclaration :
      Relation.ReflTransGen (fun outer inner => inner ∈ outer.nested) root declaration)
    {method : Method} (hmethod : method ∈ declaration.methods) {type : TypeRef}
    (htype : type ∈ method.references) :
    let scope : Scope := ⟨root, declaration, method⟩
    (scope.isVariable type.name = true → type.qualifiedName = type.name) ∧
      (scope.isVariable type.name = false → scope.namesNested type.name = false →
        Name.dotted (scope.qualifyName type.name) = Name.dotted type.qualifiedName) := by
  intro scope
  obtain ⟨hsimple, himports, hqualified⟩ := nestsSimply_and_isQualified_of_parse hroot hdeclaration
  obtain ⟨hsimpleRoot, -⟩ := nestsSimply_and_isQualified_of_parse hroot .refl
  rw [isVariable_eq]
  rcases hqualified method hmethod type htype with hname | ⟨hname, hforeign⟩
  · constructor
    · intro hvisible
      rw [hname, Context.qualify, if_pos hvisible]
    · intro hvisible hnested
      have howner := ownerOf?_of_namesNested hsimpleRoot hsimple hnested
      rw [hname]
      exact dotted_qualifyName_eq himports.symm rfl howner hnested hvisible
  · refine ⟨fun _ => hname, fun _ hnested => ?_⟩
    have howner := ownerOf?_of_namesNested hsimpleRoot hsimple hnested
    rw [hname, qualifyName_of_isForeign howner hforeign]

/-- A nested declaration with names of all kinds in a signature. -/
def qualifyingSource : String :=
  "package p; import q.Map; class A<T> { class B { Map.Entry<T, ? super q.C> m(Item item, B b); } }"

/-- Both agree on the type variable and on the names that lead to nothing nested. -/
theorem qualifiedName_agrees_qualifyingSource :
    ∃ root inner method, parse qualifyingSource = .ok root ∧ inner ∈ root.nested ∧
      method ∈ inner.methods ∧
      method.references.map TypeRef.name = ["Map.Entry", "T", "? super q.C", "Item", "B"] ∧
      ∀ type ∈ method.references,
        (type.name = "T" → type.qualifiedName = "T") ∧
        (type.name ∈ ["Map.Entry", "? super q.C", "Item"] →
          Name.dotted ((⟨root, inner, method⟩ : Scope).qualifyName type.name) =
            Name.dotted type.qualifiedName) := by
  -- which names are type variables and which ones lead to something nested
  have hshape : (parse qualifyingSource).map (fun root => root.nested.map fun inner =>
      inner.methods.map fun method => method.references.map fun type =>
        let scope : Scope := ⟨root, inner, method⟩
        (type.name, scope.isVariable type.name, scope.namesNested type.name)) =
      .ok [[[("Map.Entry", false, false), ("T", true, false), ("? super q.C", false, false),
        ("Item", false, false), ("B", false, true)]]] := by
    decide +kernel
  cases hparse : parse qualifyingSource with
  | error fault => exact absurd hshape (by simp [hparse, Except.map])
  | ok root =>
    rw [hparse] at hshape
    obtain ⟨inner, hinner, hmethods⟩ := List.map_eq_singleton_iff.mp (Except.ok.inj hshape)
    obtain ⟨method, hmethod, hreferences⟩ := List.map_eq_singleton_iff.mp hmethods
    have hnested : inner ∈ root.nested := by rw [hinner]; exact List.mem_singleton_self _
    have hmem : method ∈ inner.methods := by rw [hmethod]; exact List.mem_singleton_self _
    refine ⟨root, inner, method, rfl, hnested, hmem, ?_, fun type htype => ?_⟩
    · have hnames := congrArg (List.map Prod.fst) hreferences
      rwa [List.map_map] at hnames
    · obtain ⟨hvariable, hother⟩ := qualifiedName_agrees hparse (.single hnested) hmem htype
      have hfacts := hreferences ▸ List.mem_map_of_mem htype
      simp only [List.mem_cons, List.not_mem_nil, or_false, Prod.mk.injEq] at hfacts ⊢
      constructor
      · intro hname
        have hT : Scope.isVariable ⟨root, inner, method⟩ type.name = true := by grind
        rw [hvariable hT, hname]
      · intro hname
        have hfree : Scope.isVariable ⟨root, inner, method⟩ type.name = false ∧
            Scope.namesNested ⟨root, inner, method⟩ type.name = false := by grind
        exact hother hfree.1 hfree.2

end Source

end JavaSignatures
