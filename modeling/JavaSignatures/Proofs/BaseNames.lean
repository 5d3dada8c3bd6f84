import JavaSignatures.Proofs.BoundSubstitution
import JavaSignatures.Proofs.ImportLookup
import JavaSignatures.Proofs.LiteralArrays
import JavaSignatures.Proofs.NestedPaths
import JavaSignatures.Proofs.TextParts

set_option autoImplicit false

/-!
# The base of a type with arguments

What a rendered type is called in front of its arguments, next to what the same reference is called
without arguments and brackets.  A reference that is no array is looked up in the scope if its
arguments are written; an array, and a reference whose arguments are left out, is called by the
qualified name that the walk through the file gave it.  The two names are the same exactly for a
name that the imports alone decide (`Source.qualifiedName_eq_qualifyName_iff`), so a nested type can
get different names with and without arguments (`Rendering.exists_shownBase_ne`).
-/

namespace JavaSignatures

/-! ## Brackets at the end of a text -/

namespace TypeRef

/-- The text without the pairs of brackets that it ends with. -/
def withoutBrackets (text : String) : String := Text.onString (Text.dropEnds ['[', ']']) text

/-- What stands in front of the first opening angle bracket. -/
def beforeArguments (text : String) : String := Text.onString (List.takeWhile (· != '<')) text

theorem withoutBrackets_append {text : String} (h : ']' ∉ text.toList) (dimensions : Nat) :
    withoutBrackets (text ++ brackets dimensions) = text := by
  have hlist : Text.dropEnds ['[', ']'] (text.toList ++ (brackets dimensions).toList) =
      text.toList := by
    induction dimensions with
    | zero =>
      have hends : ¬['[', ']'] <:+ text.toList := fun hsuffix => h (hsuffix.subset (by simp))
      rw [brackets, String.toList_empty, List.append_nil, Text.dropEnds_eq_self hends]
    | succ dimensions ih =>
      have hlast : (brackets (dimensions + 1)).toList =
          (brackets dimensions).toList ++ ['[', ']'] := by
        rw [brackets_add]
        simp [brackets]
      rw [hlast, ← List.append_assoc, Text.dropEnds_append (by simp), ih]
  rw [withoutBrackets, Text.onString, String.toList_append, hlist, String.ofList_toList]

theorem beforeArguments_append {text : String} (h : '<' ∉ text.toList) (rest : String) :
    beforeArguments (text ++ "<" ++ rest) = text := by
  have hlist : (text ++ "<" ++ rest).toList = text.toList ++ '<' :: rest.toList := by simp
  rw [beforeArguments, Text.onString, hlist, Text.takeWhile_ne_append h, String.ofList_toList]

theorem applied_eq_append (name : String) (arguments : List String) :
    applied name arguments = name ++ "<" ++ (", ".intercalate arguments ++ ">") := by
  rw [applied, String.append_assoc]

/-- The reference without arguments and brackets. -/
def bare (type : TypeRef) : TypeRef :=
  { type with arguments := [], dimensions := 0, varargs := false }

end TypeRef

/-! ## Names that the imports decide -/

namespace Name

theorem length_nestedForm (name : String) :
    (nestedForm name).toList.length = name.toList.length := by
  have hone : (fun c : Char => (if c == '.' then ['$'] else [c]).length) = fun _ => 1 := by
    funext c
    split <;> rfl
  rw [nestedForm, Text.toList_onString, Text.replaceChar, List.length_flatMap, hone]
  simp

/-- A name with `$` in front of its last part is none with a period there. -/
theorem append_dollar_ne {before other last more : String}
    (h : last.toList.length = more.toList.length) :
    before ++ "$" ++ last ≠ other ++ "." ++ more := by
  intro heq
  have hlist := congrArg String.toList heq
  simp only [String.toList_append] at hlist
  have hfront := List.append_inj_left' hlist h
  exact absurd (List.append_inj_right' hfront rfl) (by decide)

end Name

theorem Declaration.ne_member (owner : Declaration) (name : String) : name ≠ owner.member name := by
  intro heq
  have hlength := congrArg (fun text => text.toList.length) heq
  simp [member] at hlength
  omega

/-- A nested declaration is never called by what the imports make of its name. -/
theorem ImportScope.resolve_ne_member (imports : ImportScope) (owner : Declaration)
    (name : String) : imports.resolve name ≠ owner.member name := by
  rcases imports.resolve_eq_or name with hname | ⟨before, hname⟩
  · rw [hname]
    exact owner.ne_member name
  · rw [hname]
    exact (Name.append_dollar_ne rfl).symm

namespace Scope

/-- The imports alone decide what the name means: it is simple and no nested declaration has it, or
it begins with a package. -/
def readsByImports (scope : Scope) (name : String) : Bool :=
  name == "void" ||
    match Name.splitFirst? name with
    | none => (scope.ownerOf? name).isNone
    | some (first, _) => !Name.isCapitalized first

theorem qualifyName_of_isOwned {scope : Scope} {name : String} {owner : Declaration}
    (howner : scope.ownerOf? name = some owner) (hvoid : name ≠ "void") :
    scope.qualifyName name = owner.member name := by
  rw [qualifyName, if_neg (by simpa using hvoid), howner]

/-- A path of declarations has `$` in front of what follows its first period. -/
theorem exists_qualifyPath_eq (scope : Scope) (first rest : String) :
    ∃ before last, scope.qualifyPath first rest = before ++ "$" ++ last ∧
      last.toList.length = rest.toList.length := by
  unfold qualifyPath
  split
  · next owner howner =>
    refine ⟨owner.qualifiedName ++ "$" ++ Name.nestedForm first, Name.nestedForm rest, ?_,
      Name.length_nestedForm rest⟩
    rw [Declaration.member, Name.nestedForm_append, Name.nestedForm_append, ← String.append_assoc,
      ← String.append_assoc]
    rfl
  · split
    · next owner howner =>
      exact ⟨owner.qualifiedName, Name.nestedForm rest, rfl, Name.length_nestedForm rest⟩
    · exact ⟨scope.root.imports.resolve first, rest, rfl, rfl⟩

end Scope

namespace Source

section

variable {context : Context} {scope : Scope} {name : String}
variable (hsimpleRoot : scope.root.NestsSimply) (hsimple : scope.lexical.NestsSimply)

include hsimpleRoot hsimple in
/-- The walk and the scope agree on the names that the imports decide and on no others. -/
theorem qualify_eq_qualifyName_iff (hroot : scope.root.imports = context.imports)
    (hlexical : scope.lexical.imports = context.imports)
    (hvisible : context.visible.any (fun candidate => candidate.name == name) = false) :
    context.qualify name = scope.qualifyName name ↔ scope.readsByImports name = true := by
  rw [qualify_of_not_visible hvisible, Scope.readsByImports]
  by_cases hvoid : name = "void"
  · subst hvoid
    have hprimitive : "void" ∈ ImportScope.primitives := by decide
    have hresolve := context.imports.resolve_of_primitive hprimitive
    have hsplit : Name.splitFirst? "void" = none := by decide
    simp [Scope.qualifyName, hsplit, hresolve]
  rw [beq_false_of_ne hvoid, Bool.false_or]
  cases hsplit : Name.splitFirst? name with
  | none =>
    cases howner : scope.ownerOf? name with
    | some owner =>
      rw [Scope.qualifyName_of_isOwned howner hvoid]
      simpa using context.imports.resolve_ne_member owner name
    | none =>
      rw [qualifyName_of_ownerOf? howner hvoid, hsplit, qualifySimple_eq hroot hlexical]
      simp
  | some parts =>
    obtain ⟨first, rest⟩ := parts
    have howner := ownerOf?_of_splitFirst? hsimpleRoot hsimple hsplit
    rw [qualifyName_of_ownerOf? howner hvoid, hsplit]
    cases hcapitalized : Name.isCapitalized first with
    | true =>
      obtain ⟨before, last, hpath, hlength⟩ := scope.exists_qualifyPath_eq first rest
      simpa [hpath, hcapitalized] using (Name.append_dollar_ne hlength).symm
    | false =>
      have hnotSimple := Name.not_isSimple_of_splitFirst? hsplit
      simp [hcapitalized, qualifySimple_eq hroot hlexical,
        ImportScope.resolve_of_not_isSimple _ hnotSimple]

include hsimpleRoot hsimple in
/-- A text that is no name is decided by the imports unless something nested has it as its name. -/
theorem eq_qualifyName_iff_of_isForeign (h : Name.IsForeign name) :
    name = scope.qualifyName name ↔ scope.readsByImports name = true := by
  obtain ⟨-, hcapitalized, hvoid⟩ := h.not_name
  rw [Scope.readsByImports, beq_false_of_ne hvoid, Bool.false_or]
  cases howner : scope.ownerOf? name with
  | none =>
    rw [qualifyName_of_isForeign howner h]
    cases hsplit : Name.splitFirst? name with
    | none => simp
    | some parts =>
      have hfirst := Name.isCapitalized_of_splitFirst? hsplit
      simp [← hfirst, hcapitalized]
  | some owner =>
    rw [Scope.qualifyName_of_isOwned howner hvoid]
    cases hsplit : Name.splitFirst? name with
    | none => simpa using owner.ne_member name
    | some parts =>
      have hnone := ownerOf?_of_splitFirst? hsimpleRoot hsimple hsplit
      exact absurd (howner.symm.trans hnone) (by simp)

end

/-- What a reference of a source text carries as its qualified name is what a scope gives its name
exactly if the imports decide it. -/
theorem qualifiedName_eq_qualifyName_iff {source : String} {root : Declaration}
    (hroot : parse source = .ok root) {outer declaration : Declaration}
    (houter : Relation.ReflTransGen (fun outer inner => inner ∈ outer.nested) root outer)
    (hdeclaration :
      Relation.ReflTransGen (fun outer inner => inner ∈ outer.nested) root declaration)
    {method : Method} (hmethod : method ∈ declaration.methods) {type : TypeRef}
    (htype : type ∈ method.references)
    (hvariable : Scope.isVariable ⟨outer, declaration, method⟩ type.name = false) :
    type.qualifiedName = Scope.qualifyName ⟨outer, declaration, method⟩ type.name ↔
      Scope.readsByImports ⟨outer, declaration, method⟩ type.name = true := by
  obtain ⟨hsimple, himports, hqualified⟩ := nestsSimply_and_isQualified_of_parse hroot hdeclaration
  obtain ⟨hsimpleOuter, himportsOuter, -⟩ := nestsSimply_and_isQualified_of_parse hroot houter
  have hvisible := (isVariable_eq ⟨outer, declaration, method⟩ type.name).symm.trans hvariable
  rcases hqualified method hmethod type htype with hname | ⟨hname, hforeign⟩
  · rw [hname]
    exact qualify_eq_qualifyName_iff hsimpleOuter hsimple (himportsOuter.trans himports.symm) rfl
      hvisible
  · rw [hname]
    exact eq_qualifyName_iff_of_isForeign hsimpleOuter hsimple hforeign

end Source

/-! ## Written names -/

namespace Rendering

variable {scope : Scope} {type : TypeRef}

/-- What a parameterized reference is called in front of its arguments, or without them if they are
left out, the implicit package still in front of it. -/
def baseName (scope : Scope) (type : TypeRef) : String :=
  if keepsArguments scope type && type.dimensions == 0 then scope.qualifyName type.name
  else type.qualifiedName

/-- A rendered reference up to its arguments, or without its brackets if its arguments are left
out. -/
def shownBase (rendering : Rendering) (scope : Scope) (type : TypeRef) (varargs : Bool) : String :=
  let text := rendering.render scope type varargs
  if keepsArguments scope type then TypeRef.beforeArguments text else TypeRef.withoutBrackets text

/-- What the reference is called can be told from what follows it, and putting in the bounds of the
arguments leaves it alone. -/
@[mk_iff]
structure HasPlainBase (scope : Scope) (type : TypeRef) : Prop where
  angle : '<' ∉ (baseName scope type).toList
  bracket : ']' ∉ (baseName scope type).toList
  areRuns : BoundNamesAreRuns scope type.arguments
  untouched : IsUntouched scope type.arguments (baseName scope type)

instance (scope : Scope) (type : TypeRef) : Decidable (HasPlainBase scope type) :=
  decidable_of_iff _ (hasPlainBase_iff scope type).symm

theorem not_mem_dropImplicitPackage {text : String} {c : Char} (h : c ∉ text.toList) :
    c ∉ (Name.dropImplicitPackage text).toList := by
  rw [Name.dropImplicitPackage, Text.toList_onString]
  exact fun hmem => h (Name.mem_of_mem_replace hmem)

/-- With its arguments the reference is its base applied to something, array or not. -/
theorem exists_qualify_eq_applied (hvariable : scope.isVariable type.name = false)
    (hparameterized : type.isParameterized = true) (hkeeps : keepsArguments scope type = true) :
    ∃ arguments, scope.qualify type = TypeRef.applied (baseName scope type) arguments := by
  by_cases hdimensions : type.dimensions = 0
  · refine ⟨type.arguments.map (shownArgument scope), ?_⟩
    rw [qualify_eq_applied hvariable hparameterized hdimensions, baseName, hkeeps, hdimensions]
    rfl
  · obtain ⟨name, qualifiedName, arguments, dimensions, varargs⟩ := type
    have hname : scope.isVariable name = false := hvariable
    have harguments : arguments.isEmpty = false := by
      simpa [TypeRef.isParameterized] using hparameterized
    have hzero : (dimensions == 0) = false := beq_false_of_ne hdimensions
    refine ⟨TypeRef.genericNames arguments, ?_⟩
    simp [Scope.qualify, TypeRef.genericName, baseName, hname, harguments, hzero]

theorem exists_render_eq_append_brackets (scope : Scope)
    (hparameterized : type.isParameterized = true) (rendering : Rendering) (varargs : Bool) :
    ∃ pairs, rendering.render scope type varargs =
      Name.dropImplicitPackage (renderApplied scope type) ++ TypeRef.brackets pairs :=
  ⟨_, by rw [render_eq_append_brackets, if_pos hparameterized]⟩

/-- The base of a rendered reference. -/
theorem shownBase_eq (hvariable : scope.isVariable type.name = false)
    (hparameterized : type.isParameterized = true) (hplain : HasPlainBase scope type)
    (rendering : Rendering) (varargs : Bool) :
    rendering.shownBase scope type varargs = Name.dropImplicitPackage (baseName scope type) := by
  obtain ⟨pairs, hrender⟩ :=
    exists_render_eq_append_brackets scope hparameterized rendering varargs
  rw [shownBase, hrender, renderApplied_eq]
  by_cases hkeeps : keepsArguments scope type = true
  · -- each name is rewritten by itself, and the base stays
    obtain ⟨arguments, hqualify⟩ := exists_qualify_eq_applied hvariable hparameterized hkeeps
    have hbase : Name.mapWhole (boundArguments scope type.arguments) (baseName scope type) =
        baseName scope type := by
      rw [← boundArguments_eq_mapWhole hplain.areRuns,
        boundArguments_eq_self hplain.areRuns hplain.untouched]
    rw [if_pos hkeeps, if_pos hkeeps, hqualify, boundArguments_eq_mapWhole hplain.areRuns,
      TypeRef.mapWhole_applied, hbase, TypeRef.applied_eq_append,
      Name.dropImplicitPackage_append_mark (by decide) (by decide), String.append_assoc,
      TypeRef.beforeArguments_append (not_mem_dropImplicitPackage hplain.angle)]
  · have hbase : baseName scope type = type.qualifiedName := by simp [baseName, hkeeps]
    rw [if_neg hkeeps, if_neg hkeeps, ← hbase,
      TypeRef.withoutBrackets_append (not_mem_dropImplicitPackage hplain.bracket)]

/-- A reference without arguments and brackets whose name is no type variable. -/
theorem render_bare (hvariable : scope.isVariable type.name = false)
    (hqualified : scope.isVariable (scope.qualifyName type.name) = false) (rendering : Rendering) :
    rendering.render scope type.bare false =
      Name.dropImplicitPackage (scope.qualifyName type.name) := by
  have hqualify : scope.qualify type.bare = scope.qualifyName type.name := by
    simp [TypeRef.bare, Scope.qualify, hvariable]
  have hname : rendering.renderBare scope type.bare = scope.qualifyName type.name := by
    rw [renderBare, hqualify, hqualified]
    cases rendering.mode <;> rfl
  have hparameterized : ¬type.bare.isParameterized = true := Bool.false_ne_true
  rw [render, renderFull, if_neg hparameterized, hname]
  simp [TypeRef.bare, TypeRef.brackets]

/-- A parameterized reference in a source text, next to the same reference without arguments and
brackets.  Both are called alike if the arguments are written and it is no array, or if the imports
decide its name.  Else it is called by the qualified name that it carries, and that is not the
qualified name that the scope gives to the bare reference. -/
theorem shownBase_of_parse {source : String} {root : Declaration}
    (hroot : Source.parse source = .ok root) {outer declaration : Declaration}
    (houter : Relation.ReflTransGen (fun outer inner => inner ∈ outer.nested) root outer)
    (hdeclaration :
      Relation.ReflTransGen (fun outer inner => inner ∈ outer.nested) root declaration)
    {method : Method} (hmethod : method ∈ declaration.methods) {type : TypeRef}
    (htype : type ∈ method.references) (hparameterized : type.isParameterized = true)
    (rendering : Rendering) (varargs : Bool) :
    let scope : Scope := ⟨outer, declaration, method⟩
    let agree := keepsArguments scope type = true ∧ type.dimensions = 0 ∨
      scope.readsByImports type.name = true
    scope.isVariable type.name = false →
      scope.isVariable (scope.qualifyName type.name) = false → HasPlainBase scope type →
        (agree →
          rendering.shownBase scope type varargs = rendering.render scope type.bare false) ∧
        (¬agree →
          rendering.shownBase scope type varargs = Name.dropImplicitPackage type.qualifiedName ∧
          rendering.render scope type.bare false =
            Name.dropImplicitPackage (scope.qualifyName type.name) ∧
          type.qualifiedName ≠ scope.qualifyName type.name) := by
  intro scope agree hvariable hqualified hplain
  have hreads : type.qualifiedName = scope.qualifyName type.name ↔
      scope.readsByImports type.name = true :=
    Source.qualifiedName_eq_qualifyName_iff hroot houter hdeclaration hmethod htype hvariable
  rw [shownBase_eq hvariable hparameterized hplain, render_bare hvariable hqualified, baseName]
  constructor
  · rintro (⟨hkeeps, hdimensions⟩ | himports)
    · rw [if_pos (by simp [hkeeps, hdimensions])]
    · rw [hreads.mpr himports, ite_self]
  · intro hdisagree
    obtain ⟨hwritten, himports⟩ := not_or.mp hdisagree
    rw [if_neg (by simpa using hwritten)]
    exact ⟨rfl, rfl, fun heq => himports (hreads.mp heq)⟩

/-- A class with types of all kinds in a signature: with and without their arguments, nested and
imported. -/
def basesSource : String :=
  "package p; import q.Map; class A \x7b class B<X> \x7b \x7d " ++
    "<T extends Item> Map.Entry<Item, T> m(B<Item>[] b, B<ID> c, Map<ID>[] d); \x7d"

/-- The imported types are called alike, the nested type is called by a name that it does not
have. -/
theorem shownBase_basesSource :
    ∃ root method, Source.parse basesSource = .ok root ∧ method ∈ root.methods ∧
      (method.references.filter TypeRef.isParameterized).map TypeRef.name =
        ["Map.Entry", "B", "B", "Map"] ∧
      ∀ type ∈ method.references, type.isParameterized = true →
        (type.name ∈ ["Map.Entry", "Map"] →
          shownBase {} ⟨root, root, method⟩ type false =
            render {} ⟨root, root, method⟩ type.bare false) ∧
        (type.name = "B" →
          type.qualifiedName ≠ Scope.qualifyName ⟨root, root, method⟩ type.name) := by
  -- what the theorem asks of the references, and which of them are called alike
  have hshape : (Source.parse basesSource).map (fun root => root.methods.map fun method =>
      (method.references.filter TypeRef.isParameterized).map fun type =>
        let scope : Scope := ⟨root, root, method⟩
        (type.name, scope.isVariable type.name || scope.isVariable (scope.qualifyName type.name),
          decide (HasPlainBase scope type),
          decide (keepsArguments scope type = true ∧ type.dimensions = 0 ∨
            scope.readsByImports type.name = true))) =
      .ok [[("Map.Entry", false, true, true), ("B", false, true, false), ("B", false, true, false),
        ("Map", false, true, true)]] := by
    decide +kernel
  cases hparse : Source.parse basesSource with
  | error fault => exact absurd hshape (by simp [hparse, Except.map])
  | ok root =>
    rw [hparse] at hshape
    obtain ⟨method, hmethod, hreferences⟩ := List.map_eq_singleton_iff.mp (Except.ok.inj hshape)
    have hmem : method ∈ root.methods := by rw [hmethod]; exact List.mem_singleton_self _
    refine ⟨root, method, rfl, hmem, ?_, fun type htype hparameterized => ?_⟩
    · have hnames := congrArg (List.map Prod.fst) hreferences
      rwa [List.map_map] at hnames
    · have hfacts := hreferences ▸
        List.mem_map_of_mem (List.mem_filter.mpr ⟨htype, hparameterized⟩)
      simp only [List.mem_cons, List.not_mem_nil, or_false, Prod.mk.injEq, Bool.or_eq_false_iff,
        decide_eq_true_eq, decide_eq_false_iff_not] at hfacts ⊢
      have hbase := shownBase_of_parse hparse .refl .refl hmem htype hparameterized {} false
      constructor
      · intro hname
        exact (hbase (by grind) (by grind) (by grind)).1 (by grind)
      · intro hname
        exact ((hbase (by grind) (by grind) (by grind)).2 (by grind)).2.2

/-- A class with a nested type in a signature. -/
def nestedBaseSource : String := "class A { class B<X> { } void m(B<C> b); }"

/-- With arguments a type can be called otherwise than without. -/
theorem exists_shownBase_ne :
    ¬∀ (source : String) (root : Declaration), Source.parse source = .ok root →
      ∀ method ∈ root.methods, ∀ type ∈ method.references, type.isParameterized = true →
        Scope.isVariable ⟨root, root, method⟩ type.name = false →
        ∀ (rendering : Rendering) (varargs : Bool),
          rendering.shownBase ⟨root, root, method⟩ type varargs =
            rendering.render ⟨root, root, method⟩ type.bare false := by
  intro h
  have hshape : (Source.parse nestedBaseSource).map (fun root => root.methods.map fun method =>
      (method.references.filter TypeRef.isParameterized).map fun type =>
        let scope : Scope := ⟨root, root, method⟩
        (scope.isVariable type.name, shownBase {} scope type false,
          render {} scope type.bare false)) = .ok [[(false, "B", "A$B")]] := by
    decide +kernel
  cases hparse : Source.parse nestedBaseSource with
  | error fault => exact absurd hshape (by simp [hparse, Except.map])
  | ok root =>
    rw [hparse] at hshape
    obtain ⟨method, hmethod, htypes⟩ := List.map_eq_singleton_iff.mp (Except.ok.inj hshape)
    obtain ⟨type, htype, hfacts⟩ := List.map_eq_singleton_iff.mp htypes
    obtain ⟨hvariable, hrendered⟩ := Prod.mk.inj hfacts
    obtain ⟨hshown, hbare⟩ := Prod.mk.inj hrendered
    have hmem : method ∈ root.methods := by rw [hmethod]; exact List.mem_singleton_self _
    have hfiltered : type ∈ method.references.filter TypeRef.isParameterized := by
      rw [htype]
      exact List.mem_singleton_self _
    obtain ⟨hreference, hparameterized⟩ := List.mem_filter.mp hfiltered
    have hsame := h nestedBaseSource root hparse method hmem type hreference hparameterized
      hvariable {} false
    rw [hshown, hbare] at hsame
    exact absurd hsame (by decide)

end Rendering

end JavaSignatures
