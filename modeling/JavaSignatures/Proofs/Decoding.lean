import JavaSignatures.Proofs.BalancedTypes
import JavaSignatures.Proofs.MethodNames

set_option autoImplicit false

/-!
# Signatures can be decoded

The text of a signature names its method and lists its parameters with their types.  Types may hold
commas and blanks, but not outside of their angle brackets, and so the text can be read in one way
only (`line_inj`).  A catalogue keeps parameter types by text, and
`Catalogue.arguments_recordAll_of_decodable` says that no signature takes the place of another one.
-/

namespace JavaSignatures

/-! ## Lists of parameters -/

theorem IsPlain.comma_not_mem {text : String} (h : IsPlain text) : ',' ∉ text.toList :=
  fun hmem => absurd (h.1 ',' hmem) (by decide)

theorem IsPlain.blank_not_mem {text : String} (h : IsPlain text) : ' ' ∉ text.toList :=
  fun hmem => absurd (h.1 ' ' hmem) (by decide)

namespace Text

/-- What stands behind the first one of several parts. -/
def behind (separator : String) : List String → List Char
  | [] => []
  | parts => separator.toList ++ (separator.intercalate parts).toList

theorem toList_intercalate_cons (separator part : String) (parts : List String) :
    (separator.intercalate (part :: parts)).toList = part.toList ++ behind separator parts := by
  cases parts with
  | nil => simp [behind]
  | cons next rest => simp [behind]

/-- Texts up to the first mark are the same if what is read is. -/
theorem eq_of_append_mark {mark : Char} {first second rest other : List Char}
    (hfirst : mark ∉ first) (hsecond : mark ∉ second)
    (h : first ++ mark :: rest = second ++ mark :: other) : first = second ∧ rest = other := by
  have hstart := congrArg (List.takeWhile (· != mark)) h
  rw [takeWhile_ne_append hfirst, takeWhile_ne_append hsecond] at hstart
  subst hstart
  exact ⟨rfl, (List.cons.inj (List.append_cancel_left h)).2⟩

/-- Texts behind the last mark are the same if what is read is. -/
theorem eq_of_append_last {mark : Char} {first second rest other : List Char}
    (hrest : mark ∉ rest) (hother : mark ∉ other)
    (h : first ++ mark :: rest = second ++ mark :: other) : first = second ∧ rest = other := by
  have hreverse := congrArg List.reverse h
  simp only [List.reverse_append, List.reverse_cons, List.append_assoc, List.singleton_append]
    at hreverse
  obtain ⟨hsame, hfront⟩ := eq_of_append_mark (by simpa using hrest) (by simpa using hother) hreverse
  exact ⟨List.reverse_inj.mp hfront, List.reverse_inj.mp hsame⟩

theorem eq_of_append_behind {first second : List Char} (hfirst : ',' ∉ first)
    (hsecond : ',' ∉ second) {parts others : List String}
    (h : first ++ behind ", " parts = second ++ behind ", " others) :
    first = second ∧ ", ".intercalate parts = ", ".intercalate others := by
  have hmark : ∀ part rest, behind ", " (part :: rest) =
      ',' :: ' ' :: (", ".intercalate (part :: rest)).toList := fun _ _ => rfl
  cases parts with
  | nil =>
    cases others with
    | nil => exact ⟨by simpa [behind] using h, rfl⟩
    | cons other others =>
      have hmem : ',' ∈ first ++ behind ", " [] := by rw [h, hmark]; simp
      exact absurd hmem (by simpa [behind] using hfirst)
  | cons part parts =>
    cases others with
    | nil =>
      have hmem : ',' ∈ second ++ behind ", " [] := by rw [← h, hmark]; simp
      exact absurd hmem (by simpa [behind] using hsecond)
    | cons other others =>
      rw [hmark, hmark] at h
      obtain ⟨hsame, hrest⟩ := eq_of_append_mark hfirst hsecond h
      exact ⟨hsame, String.toList_inj.mp (List.cons.inj hrest).2⟩

end Text

namespace Signature

/-- A parameter as it is written. -/
def written (entry : String × String) : String := entry.2 ++ " " ++ entry.1

theorem toList_written (entry : String × String) :
    (written entry).toList = entry.2.toList ++ ' ' :: entry.1.toList := by
  simp [written, List.append_assoc]

/-- Parameters can be told apart by what is written of them. -/
theorem parameters_inj {first second : List (String × String)}
    (hfirst : ∀ entry ∈ first, IsPlain entry.1 ∧ Undivided entry.2)
    (hsecond : ∀ entry ∈ second, IsPlain entry.1 ∧ Undivided entry.2)
    (h : (", ".intercalate (first.map written)).toList =
      (", ".intercalate (second.map written)).toList) : first = second := by
  have hnotNil : ∀ entry (rest : List (String × String)),
      (", ".intercalate ((entry :: rest).map written)).toList ≠ [] := by
    intro entry rest
    rw [List.map_cons, Text.toList_intercalate_cons, toList_written]
    simp
  induction first generalizing second with
  | nil =>
    cases second with
    | nil => rfl
    | cons other others => exact absurd h.symm (hnotNil other others)
  | cons entry rest ih =>
    cases second with
    | nil => exact absurd h (hnotNil entry rest)
    | cons other others =>
      obtain ⟨⟨hname, htype⟩, hrest⟩ := List.forall_mem_cons.mp hfirst
      obtain ⟨⟨hname', htype'⟩, hothers⟩ := List.forall_mem_cons.mp hsecond
      simp only [List.map_cons, Text.toList_intercalate_cons, toList_written, List.append_assoc,
        List.cons_append] at h
      obtain ⟨htypes, hmore⟩ := htype.eq_of_append_blank htype' h
      obtain ⟨hnames, hbehind⟩ :=
        Text.eq_of_append_behind hname.comma_not_mem hname'.comma_not_mem hmore
      have hentry : entry = other :=
        Prod.ext (String.toList_inj.mp hnames) (String.toList_inj.mp htypes)
      rw [hentry, ih hrest hothers (congrArg String.toList hbehind)]

/-- A signature can be read in one way only. -/
theorem line_inj {result other name name' : String} {parameters parameters' : List (String × String)}
    (hresult : '(' ∉ result.toList) (hother : '(' ∉ other.toList) (hname : IsPlain name)
    (hname' : IsPlain name') (hparameters : ∀ entry ∈ parameters, IsPlain entry.1 ∧ Undivided entry.2)
    (hparameters' : ∀ entry ∈ parameters', IsPlain entry.1 ∧ Undivided entry.2)
    (h : line result name parameters = line other name' parameters') :
    result = other ∧ name = name' ∧ parameters = parameters' := by
  have hlist := congrArg String.toList h
  rw [toList_line, toList_line] at hlist
  have hfront := paren_not_mem_front hresult hname.2
  have hfront' := paren_not_mem_front hother hname'.2
  obtain ⟨hhead, htail⟩ := Text.eq_of_append_mark hfront hfront' hlist
  have hbody : result.toList ++ ' ' :: name.toList = other.toList ++ ' ' :: name'.toList :=
    (List.cons.inj (List.append_cancel_left hhead)).2
  obtain ⟨hresults, hnames⟩ :=
    Text.eq_of_append_last hname.blank_not_mem hname'.blank_not_mem hbody
  exact ⟨String.toList_inj.mp hresults, String.toList_inj.mp hnames,
    parameters_inj hparameters hparameters' (List.append_cancel_right htail)⟩

end Signature

/-! ## Maps of distinct keys -/

namespace OrderedMap

variable {α : Type}

theorem entries_foldl_insert (map : OrderedMap α) {entries : List (String × α)}
    (h : (map.keys ++ Entries.keys entries).Nodup) :
    (entries.foldl (fun map entry => map.insert entry.1 entry.2) map).entries =
      map.entries ++ entries := by
  induction entries generalizing map with
  | nil => simp
  | cons entry rest ih =>
    have hnew : entry.1 ∉ map.keys := fun hmem =>
      (List.nodup_append.mp h).2.2 _ hmem _ (List.mem_cons_self ..) rfl
    have hinsert : (map.insert entry.1 entry.2).entries = map.entries ++ [entry] :=
      Entries.upsert_of_not_mem hnew _
    have hkeys : (map.insert entry.1 entry.2).keys = map.keys ++ [entry.1] := by
      rw [keys_insert, if_neg hnew]
    have hrest : ((map.insert entry.1 entry.2).keys ++ Entries.keys rest).Nodup := by
      rw [hkeys, List.append_assoc]
      exact h
    rw [List.foldl_cons, ih _ hrest, hinsert, List.append_assoc]
    rfl

/-- Entries with distinct keys are kept as they are. -/
theorem entries_ofList {entries : List (String × α)} (h : (Entries.keys entries).Nodup) :
    (ofList entries).entries = entries :=
  entries_foldl_insert empty h

end OrderedMap

/-! ## Methods that are built -/

/-- A method that is built as one of the target in the file of the root. -/
structure Build where
  style : Style := {}
  root : Declaration
  target : Declaration
  method : Method

namespace Build

/-- The signature that is built. -/
def signature (build : Build) : Signature :=
  Signature.ofMethod build.style build.root build.target build.method

/-- The parameters with their rendered types. -/
def typedParameters (build : Build) : List (String × String) :=
  Signature.typedParameters build.style build.root build.target build.method

/-- The places in which the names of parameter types are looked up. -/
def scope (build : Build) : Scope := ⟨build.root, build.target, build.method⟩

/-- What signatures are made of is such that they can be told apart. -/
structure IsDecodable (build : Build) : Prop where
  scope : build.scope.IsPlain
  placeholder : Undivided build.style.rendering.placeholder
  methodName : IsPlain build.method.name
  parameterName : ∀ parameter ∈ build.method.parameters, IsPlain parameter.name
  parameterNames_nodup : (build.method.parameters.map Parameter.name).Nodup
  parameterType : ∀ parameter ∈ build.method.parameters, parameter.type.IsUndivided
  resultType : '(' ∉ (Signature.resultType build.style build.target build.method).toList

theorem isDecodable_iff (build : Build) :
    build.IsDecodable ↔
      (build.scope.IsPlain ∧ Undivided build.style.rendering.placeholder) ∧
        (IsPlain build.method.name ∧
          '(' ∉ (Signature.resultType build.style build.target build.method).toList) ∧
        (build.method.parameters.map Parameter.name).Nodup ∧
        ∀ parameter ∈ build.method.parameters,
          IsPlain parameter.name ∧ parameter.type.IsUndivided := by
  constructor
  · rintro ⟨scope, placeholder, name, parameterName, nodup, parameterType, resultType⟩
    exact ⟨⟨scope, placeholder⟩, ⟨name, resultType⟩, nodup, fun parameter hparameter =>
      ⟨parameterName parameter hparameter, parameterType parameter hparameter⟩⟩
  · rintro ⟨⟨scope, placeholder⟩, ⟨name, resultType⟩, nodup, parameters⟩
    exact ⟨scope, placeholder, name, fun parameter hparameter => (parameters parameter hparameter).1,
      nodup, fun parameter hparameter => (parameters parameter hparameter).2, resultType⟩

instance (build : Build) : Decidable build.IsDecodable :=
  decidable_of_iff' _ (isDecodable_iff build)

theorem IsDecodable.typedParameter {build : Build} (h : build.IsDecodable) :
    ∀ entry ∈ build.typedParameters, IsPlain entry.1 ∧ Undivided entry.2 := by
  intro entry hentry
  obtain ⟨parameter, hparameter, rfl⟩ := List.mem_map.mp hentry
  exact ⟨h.parameterName parameter hparameter,
    Rendering.undivided_render build.style.rendering h.scope h.placeholder
      (h.parameterType parameter hparameter) parameter.varargs⟩

/-- Methods whose signatures have one text have one name and the same typed parameters. -/
theorem IsDecodable.eq_of_text {build other : Build} (hbuild : build.IsDecodable)
    (hother : other.IsDecodable) (h : build.signature.text = other.signature.text) :
    build.signature.methodName = other.signature.methodName ∧
      build.typedParameters = other.typedParameters :=
  (Signature.line_inj hbuild.resultType hother.resultType hbuild.methodName hother.methodName
    hbuild.typedParameter hother.typedParameter h).2

/-- The parameter types of a signature are the typed parameters, in order. -/
theorem IsDecodable.entries_parameterTypes {build : Build} (h : build.IsDecodable) :
    build.signature.parameterTypes.entries = build.typedParameters := by
  have hkeys : Entries.keys build.typedParameters =
      build.method.parameters.map Parameter.name := by
    simp [Entries.keys, typedParameters, Signature.typedParameters]
  exact OrderedMap.entries_ofList (hkeys ▸ h.parameterNames_nodup)

end Build

/-! ## Catalogues of decodable signatures -/

namespace Catalogue

/-- The last signature with the text decides, or what was there before. -/
theorem get?_signatureArguments_recordAll (catalogue : Catalogue) (signatures : List Signature)
    (text : String) :
    (catalogue.recordAll signatures).signatureArguments.get? text =
      ((signatures.filter fun signature => signature.text == text).getLast?.map
        Signature.parameterTypes).or (catalogue.signatureArguments.get? text) := by
  induction signatures using List.reverseRecOn with
  | nil => rfl
  | append_singleton signatures signature ih =>
    have hget : (catalogue.recordAll (signatures ++ [signature])).signatureArguments.get? text =
        if text = signature.text then some signature.parameterTypes
        else (catalogue.recordAll signatures).signatureArguments.get? text := by
      rw [recordAll_append]
      exact OrderedMap.get?_insert _ _ _ _
    rw [hget, ih]
    by_cases htext : text = signature.text
    · subst htext
      simp
    · have hne : ¬signature.text = text := fun e => htext e.symm
      simp [htext, hne]

/-- Methods that are built and recorded one after the other, of whatever declarations, can be read
back from the texts of their signatures, and each of these texts leads to the parameter types of
its own signature. -/
theorem arguments_recordAll_of_decodable (catalogue : Catalogue) (builds : List Build)
    (hbuilds : ∀ build ∈ builds, build.IsDecodable) :
    (∀ build ∈ builds, ∀ other ∈ builds, build.signature.text = other.signature.text →
      build.signature.methodName = other.signature.methodName ∧
        build.typedParameters = other.typedParameters) ∧
      ∀ build ∈ builds,
        (catalogue.recordAll (builds.map Build.signature)).signatureArguments.get?
            build.signature.text = some build.signature.parameterTypes ∧
          build.signature.parameterTypes.entries = build.typedParameters := by
  have hsame : ∀ build ∈ builds, ∀ other ∈ builds, build.signature.text = other.signature.text →
      build.signature.methodName = other.signature.methodName ∧
        build.typedParameters = other.typedParameters :=
    fun build hbuild other hother h => (hbuilds build hbuild).eq_of_text (hbuilds other hother) h
  refine ⟨hsame, ?_⟩
  intro build hbuild
  refine ⟨?_, (hbuilds build hbuild).entries_parameterTypes⟩
  have hne : (builds.map Build.signature).filter
      (fun signature => signature.text == build.signature.text) ≠ [] :=
    List.ne_nil_of_mem (List.mem_filter.mpr ⟨List.mem_map_of_mem hbuild, beq_self_eq_true _⟩)
  have hlast := List.mem_filter.mp (List.getLast_mem hne)
  obtain ⟨other, hother, hsignature⟩ := List.mem_map.mp hlast.1
  have htext : build.signature.text = other.signature.text := by
    rw [hsignature]
    exact (eq_of_beq hlast.2).symm
  have htypes : other.signature.parameterTypes = build.signature.parameterTypes :=
    congrArg OrderedMap.ofList (hsame build hbuild other hother htext).2.symm
  rw [get?_signatureArguments_recordAll, List.getLast?_eq_some_getLast hne, Option.map_some,
    Option.some_or, ← hsignature, htypes]

/-- A method with a bounded type variable and one without bounds, both in its first parameter. -/
def putMap : Method :=
  let values : TypeRef :=
    { name := "Map"
      qualifiedName := "java.util.Map"
      arguments := [.simple "T" "T", .simple "E" "E"] }
  { name := "put"
    returnType := .void
    parameters := [⟨"values", values, false⟩, ⟨"sizes", .simple "int" "int", true⟩]
    typeVariables := [⟨"T", [.simple "Foo" "com.acme.Foo"]⟩, ⟨"E", []⟩] }

/-- The method in a declaration of the name. -/
def putMapOf (style : Style) (qualifiedName : String) : Build :=
  let box : Declaration :=
    { name := "Box"
      qualifiedName := qualifiedName
      imports := { package := some "com.acme", imports := ["java.util.Map"] } }
  { style := style, root := box, target := box, method := putMap }

/-- One method that is built in two styles and of two declarations.  Both signatures have the same
text, in which a comma stands in a type. -/
theorem arguments_recordAll_putMap :
    let erased := putMapOf {} "com.acme.Box"
    let kept := putMapOf { rendering := { mode := .keep } } "org.other.Box"
    let result := empty.recordAll ([erased, kept].map Build.signature)
    (erased.IsDecodable ∧ kept.IsDecodable) ∧
      result.methods =
        ["public void put(java.util.Map<com.acme.Foo, E> values, int[] sizes)",
          "public void put(java.util.Map<com.acme.Foo, E> values, int[] sizes)"] ∧
      ∀ build ∈ [erased, kept],
        result.signatureArguments.get? build.signature.text =
          some build.signature.parameterTypes := by
  intro erased kept result
  have herased : erased.IsDecodable := by decide +kernel
  have hkept : kept.IsDecodable := by decide +kernel
  have hbuilds : ∀ build ∈ [erased, kept], build.IsDecodable := by
    simp [herased, hkept]
  have hread := (arguments_recordAll_of_decodable empty [erased, kept] hbuilds).2
  refine ⟨⟨herased, hkept⟩, ?_, fun build hbuild => (hread build hbuild).1⟩
  decide +kernel

end Catalogue

end JavaSignatures
