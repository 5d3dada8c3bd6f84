import JavaSignatures.Proofs.ApiEntries
import JavaSignatures.Proofs.SessionRun
import JavaSignatures.Proofs.SourceWords
import JavaSignatures.Proofs.TextParts

set_option autoImplicit false

/-!
# Method names read back from signatures

The API model has no method names but those that it reads from the texts of signatures.  A text
gives its method name back unless the result type in front of the name holds a parenthesis
(`methodNameOf_line`).  Methods of source texts are named by words, so this is all that can go
wrong, and `Session.run_methodNameOf_and_foldsByName` says what follows for the models of sessions.
-/

namespace JavaSignatures

/-! ## The last part of a text -/

namespace Name

theorem afterLast_of_not_mem {separator : Char} {name : String}
    (h : separator ∉ name.toList) : afterLast separator name = name := by
  rw [afterLast, List.splitOn_eq_singleton h]
  exact String.ofList_toList

/-- What stands in front of a separator does not matter. -/
theorem afterLast_append (separator : Char) (before after : List Char) :
    afterLast separator (String.ofList (before ++ separator :: after)) =
      afterLast separator (String.ofList after) := by
  have hne := List.splitOn_ne_nil separator after
  simp only [afterLast, String.toList_ofList, List.splitOn_append_cons_self,
    List.getLastD_eq_getLast?, List.getLast?_append_of_ne_nil _ hne]

end Name

/-! ## The name in a signature -/

namespace Report

/-- The name is read up to the first parenthesis. -/
theorem methodNameOf_ofList_append {before : List Char} (h : '(' ∉ before) (after : List Char) :
    methodNameOf (String.ofList (before ++ '(' :: after)) =
      Name.afterLast ' ' (String.ofList before) := by
  rw [methodNameOf, String.toList_ofList, Text.takeWhile_ne_append h]

end Report

namespace Signature

/-- The characters of a signature: up to the first parenthesis behind the name, and from there. -/
theorem toList_line (result name : String) (parameters : List (String × String)) :
    (line result name parameters).toList =
      ("public".toList ++ ' ' :: (result.toList ++ ' ' :: name.toList)) ++ '(' ::
        ((", ".intercalate (parameters.map fun (parameter, type) =>
          type ++ " " ++ parameter)).toList ++ [')']) := by
  simp [line, List.append_assoc]

theorem paren_not_mem_front {result name : List Char} (hresult : '(' ∉ result) (hname : '(' ∉ name) :
    '(' ∉ "public".toList ++ ' ' :: (result ++ ' ' :: name) := by
  have hpublic : '(' ∉ "public".toList := by decide
  have hblank : ¬ '(' = ' ' := by decide
  simp only [List.mem_append, List.mem_cons, hpublic, hblank, hresult, hname, or_self,
    not_false_iff]

end Signature

namespace Report

/-- A signature gives its method name back unless its result type holds a parenthesis; then it gives
what a signature of that type alone would give. -/
theorem methodNameOf_line (result : String) {name : String} (parameters : List (String × String))
    (hspace : ' ' ∉ name.toList) (hparen : '(' ∉ name.toList) :
    methodNameOf (Signature.line result name parameters) =
      if '(' ∈ result.toList then methodNameOf result else name := by
  have htext := congrArg String.ofList (Signature.toList_line result name parameters)
  rw [String.ofList_toList] at htext
  have hpublic : '(' ∉ "public".toList := by decide
  have hblank : ¬ '(' = ' ' := by decide
  split
  · next hresult =>
    obtain ⟨before, after, hsplit, hbefore⟩ := List.eq_append_cons_of_mem hresult
    have hfront : '(' ∉ "public".toList ++ ' ' :: before := by
      simp only [List.mem_append, List.mem_cons, hpublic, hblank, hbefore, or_self, not_false_iff]
    have hregroup : ∀ rest : List Char,
        ("public".toList ++ ' ' :: ((before ++ '(' :: after) ++ ' ' :: name.toList)) ++ rest =
          ("public".toList ++ ' ' :: before) ++ '(' :: (after ++ ' ' :: name.toList ++ rest) := by
      intro rest
      simp only [List.append_assoc, List.cons_append]
    rw [htext, hsplit, hregroup, methodNameOf_ofList_append hfront, Name.afterLast_append,
      ← methodNameOf_ofList_append hbefore after, ← hsplit, String.ofList_toList]
  · next hresult =>
    have hfront := Signature.paren_not_mem_front hresult hparen
    rw [htext, methodNameOf_ofList_append hfront, Name.afterLast_append, Name.afterLast_append,
      String.ofList_toList, Name.afterLast_of_not_mem hspace]

end Report

/-! ## Methods of source texts -/

namespace SessionCall

/-- The call collects from source texts only: a declaration that it is given has been read from
one. -/
def ReadsSource : SessionCall → Prop
  | addUnit root _ => ∃ source, Source.parse source = .ok root
  | _ => True

/-- The signatures of the targets behind the last boundary, in order. -/
def signaturesSince (style : Style) (calls : List SessionCall) : List Signature :=
  (targetsSince .java calls).flatMap fun pair => Signature.ofTarget style pair.1 pair.2

theorem ofUnit_eq_collects {declared root target : Declaration} {path : Option String}
    (h : SessionEffect.ofUnit declared path = .collects root target) :
    declared = root ∧ ∀ method ∈ target.methods, method ∈ root.allMethods := by
  unfold SessionEffect.ofUnit at h
  split at h
  · obtain ⟨rfl, rfl⟩ := SessionEffect.collects.inj h
    refine ⟨rfl, fun method hmethod => ?_⟩
    rw [Declaration.allMethods_eq]
    exact List.mem_append_left _ hmethod
  · split at h
    · next found hfound =>
      obtain ⟨rfl, rfl⟩ := SessionEffect.collects.inj h
      exact ⟨rfl, fun method hmethod => Declaration.mem_allMethods_of_find? hfound hmethod⟩
    · exact absurd h (by simp)

theorem ofSource_eq_collects {source : String} {root target : Declaration} {path : Option String}
    (h : SessionEffect.ofSource .java source path = .collects root target) :
    Source.parse source = .ok root ∧ ∀ method ∈ target.methods, method ∈ root.allMethods := by
  unfold SessionEffect.ofSource at h
  split at h
  · next declared hread =>
    obtain ⟨rfl, hmethods⟩ := ofUnit_eq_collects h
    exact ⟨SourceReader.java_eq_ok_iff.mp hread, hmethods⟩
  · exact absurd h (by simp)

/-- A call that collects, collects from a source text. -/
theorem exists_source_of_effect {call : SessionCall} (hcall : call.ReadsSource)
    {root target : Declaration} (h : call.effect .java = .collects root target) :
    (∃ source, Source.parse source = .ok root) ∧
      ∀ method ∈ target.methods, method ∈ root.allMethods := by
  cases call with
  | parse source path =>
    obtain ⟨hparse, hmethods⟩ := ofSource_eq_collects h
    exact ⟨⟨source, hparse⟩, hmethods⟩
  | parseStream stream path =>
    simp only [effect] at h
    split at h
    · next source htext =>
      obtain ⟨hparse, hmethods⟩ := ofSource_eq_collects h
      exact ⟨⟨source, hparse⟩, hmethods⟩
    · exact absurd h (by simp)
  | addUnit declared path =>
    obtain ⟨rfl, hmethods⟩ := ofUnit_eq_collects h
    exact ⟨hcall, hmethods⟩
  | reset => exact absurd h (by simp [effect])

theorem exists_call_of_mem_targetsSince {reader : SourceReader} {calls : List SessionCall}
    {root target : Declaration} (h : (root, target) ∈ targetsSince reader calls) :
    ∃ call ∈ calls, call.effect reader = .collects root target := by
  obtain ⟨effect, heffect, htarget⟩ := List.mem_filterMap.mp h
  have hmem : effect ∈ calls.map (SessionCall.effect reader) := by
    have hreverse := List.mem_reverse.mp heffect
    exact List.mem_reverse.mp ((List.takeWhile_prefix _).subset hreverse)
  obtain ⟨call, hcall, rfl⟩ := List.mem_map.mp hmem
  refine ⟨call, hcall, ?_⟩
  unfold SessionEffect.target? at htarget
  split at htarget
  · next root' target' heq =>
    obtain ⟨rfl, rfl⟩ := Prod.mk.inj (Option.some.inj htarget)
    exact heq
  · exact absurd htarget (by simp)

/-- A method that has been collected from source texts is named by a word. -/
theorem isWordPart_name_of_mem {calls : List SessionCall}
    (hcalls : ∀ call ∈ calls, call.ReadsSource) {root target : Declaration}
    (htarget : (root, target) ∈ targetsSince .java calls) {method : Method}
    (hmethod : method ∈ target.methods) (haccepts : target.kind.accepts method = true) :
    ∀ c ∈ method.name.toList, Source.Lexeme.isWordPart c = true := by
  obtain ⟨call, hcall, heffect⟩ := exists_call_of_mem_targetsSince htarget
  obtain ⟨⟨source, hparse⟩, hmethods⟩ := exists_source_of_effect (hcalls call hcall) heffect
  have hconstructor : method.isConstructor = false := by
    unfold DeclarationKind.accepts at haccepts
    rw [Bool.and_eq_true, Bool.not_eq_true'] at haccepts
    exact haccepts.1
  exact Source.isWordPart_name_of_parse hparse (hmethods method hmethod) hconstructor

end SessionCall

/-! ## Models of sessions -/

namespace Catalogue

theorem mem_overloads_described {signatures : List Signature} {name : String}
    {signature : Signature} :
    signature ∈ overloads (described signatures) name ↔
      signature ∈ overloads signatures name ∧ signature.description ≠ "" := by
  simp [overloads, described, and_assoc]

end Catalogue

namespace Report.ApiModel

/-- The entries of the model are the recorded method names, each with all its overloads and with what
is known of it. -/
structure FoldsByName (catalogue : Catalogue) (signatures : List Signature) (model : ApiModel) :
    Prop where
  /-- the recorded method names, first occurrences in order -/
  names : model.methods.map ApiMethod.name = (signatures.map Signature.methodName).eraseDups
  /-- the texts of all overloads in order -/
  overloads : ∀ entry ∈ model.methods, entry.signatures =
    (Catalogue.overloads signatures entry.name).map Signature.text
  /-- the parameter descriptions of the method name are there, be it without any -/
  parameters : ∀ entry ∈ model.methods,
    catalogue.parameters.get? entry.name = some (catalogue.docsOf entry.name)
  /-- the method name has a description just if an overload has been recorded with one -/
  described : ∀ entry ∈ model.methods, (catalogue.methodDescriptions.get? entry.name).isSome ↔
    ∃ signature ∈ Catalogue.overloads signatures entry.name, signature.description ≠ ""

/-- Signatures that give their method names back are grouped by them. -/
theorem foldsByName_of_knows {catalogue : Catalogue} {signatures : List Signature}
    (hknows : catalogue.Knows signatures)
    (hnames : ∀ signature ∈ signatures, methodNameOf signature.text = signature.methodName)
    {model : ApiModel} (hmodel : Folds catalogue model) :
    FoldsByName catalogue signatures model := by
  have hmap : catalogue.methods.map methodNameOf = signatures.map Signature.methodName := by
    rw [hknows.methods, List.map_map]
    exact List.map_congr_left hnames
  have hrecorded : ∀ entry ∈ model.methods, entry.name ∈ signatures.map Signature.methodName := by
    intro entry hentry
    have hname : entry.name ∈ model.methods.map ApiMethod.name := List.mem_map_of_mem hentry
    rwa [hmodel.names, List.mem_eraseDups, hmap] at hname
  refine ⟨by rw [hmodel.names, hmap], ?_, ?_, ?_⟩
  · intro entry hentry
    rw [hmodel.signatures entry hentry, hknows.methods, List.filter_map, Catalogue.overloads]
    refine congrArg (List.map Signature.text) (List.filter_congr fun signature hsignature => ?_)
    rw [Function.comp_apply, hnames signature hsignature]
  · intro entry hentry
    rw [Catalogue.get?_parameters_of_knows hknows, if_pos (hrecorded entry hentry)]
  · intro entry hentry
    rw [hknows.descriptions, Option.isSome_map, List.getLast?_isSome]
    constructor
    · intro hne
      obtain ⟨signature, hsignature⟩ := List.exists_mem_of_ne_nil _ hne
      exact ⟨signature, Catalogue.mem_overloads_described.mp hsignature⟩
    · rintro ⟨signature, hsignature⟩
      exact List.ne_nil_of_mem (Catalogue.mem_overloads_described.mpr hsignature)

end Report.ApiModel

namespace Session

open Report (methodNameOf)
open Report.ApiModel (FoldsByName ofCatalogue?)

/-- What sessions that read source texts record gives its method names back, except where a result
type is written with a parenthesis.  Without such a type the entries of the model are the recorded
method names with all their overloads. -/
theorem run_methodNameOf_and_foldsByName (style : Style) (calls : List SessionCall)
    (hcalls : ∀ call ∈ calls, call.ReadsSource) :
    let start : Session .java := { style := style }
    let catalogue := (start.run calls).catalogue
    let signatures := SessionCall.signaturesSince style calls
    (∀ pair ∈ SessionCall.targetsSince .java calls, ∀ method ∈ pair.2.methods,
      pair.2.kind.accepts method = true →
        let result := Signature.resultType style pair.2 method
        methodNameOf (Signature.ofMethod style pair.1 pair.2 method).text =
          if '(' ∈ result.toList then methodNameOf result else method.name) ∧
      ((∀ pair ∈ SessionCall.targetsSince .java calls, ∀ method ∈ pair.2.methods,
          pair.2.kind.accepts method = true →
            '(' ∉ (Signature.resultType style pair.2 method).toList) →
        ∀ model ∈ ofCatalogue? catalogue, FoldsByName catalogue signatures model) := by
  intro start catalogue signatures
  have hnames : ∀ pair ∈ SessionCall.targetsSince .java calls, ∀ method ∈ pair.2.methods,
      pair.2.kind.accepts method = true →
        let result := Signature.resultType style pair.2 method
        methodNameOf (Signature.ofMethod style pair.1 pair.2 method).text =
          if '(' ∈ result.toList then methodNameOf result else method.name := by
    intro pair hpair method hmethod haccepts result
    have hword := SessionCall.isWordPart_name_of_mem hcalls hpair hmethod haccepts
    have hspace : ' ' ∉ method.name.toList := fun h => absurd (hword ' ' h) (by decide +kernel)
    have hparen : '(' ∉ method.name.toList := fun h => absurd (hword '(' h) (by decide +kernel)
    exact Report.methodNameOf_line result _ hspace hparen
  refine ⟨hnames, ?_⟩
  intro hresults model hmodel
  have hknows : catalogue.Knows signatures := by
    have hrun : catalogue = Catalogue.ofTargets style (SessionCall.messageAt .java calls)
        (SessionCall.targetsSince .java calls) := catalogue_run .java style calls
    rw [hrun]
    exact Catalogue.knows_recordAll (Catalogue.knows_nil _ _ _) signatures
  obtain ⟨-, className, -, rfl⟩ := Report.ApiModel.ofCatalogue?_eq_some_iff.mp hmodel
  refine Report.ApiModel.foldsByName_of_knows hknows ?_ (Report.ApiModel.folds_entriesOf _ _ _)
  intro signature hsignature
  obtain ⟨pair, hpair, hmem⟩ := List.mem_flatMap.mp hsignature
  obtain ⟨method, hmethod, haccepts, rfl⟩ := Signature.mem_ofTarget.mp hmem
  rw [hnames pair hpair method hmethod haccepts, if_neg (hresults pair hpair method hmethod haccepts)]
  rfl

/-- Two overloads around another method. -/
def overloadsSource : String := "interface A { List<?> a(); int b(); int a(int c); }"

/-- The overloads come together under their name. -/
theorem foldsByName_overloads :
    let start : Session .java := {}
    let calls := [SessionCall.parse overloadsSource none]
    let catalogue := (start.run calls).catalogue
    (∀ call ∈ calls, call.ReadsSource) ∧
      ∃ model, model ∈ ofCatalogue? catalogue ∧
        FoldsByName catalogue (SessionCall.signaturesSince {} calls) model ∧
        model.methods.map (fun entry => (entry.name, entry.signatures.length)) =
          [("a", 2), ("b", 1)] := by
  intro start calls catalogue
  have hcalls : ∀ call ∈ calls, call.ReadsSource := by simp [calls, SessionCall.ReadsSource]
  have hresults : ∀ pair ∈ SessionCall.targetsSince .java calls, ∀ method ∈ pair.2.methods,
      pair.2.kind.accepts method = true →
        '(' ∉ (Signature.resultType {} pair.2 method).toList := by decide +kernel
  have hshape : (ofCatalogue? catalogue).map (fun model => model.methods.map
      fun entry => (entry.name, entry.signatures.length)) = some [("a", 2), ("b", 1)] := by
    decide +kernel
  obtain ⟨model, hmodel, hentries⟩ := Option.map_eq_some_iff.mp hshape
  exact ⟨hcalls, model, hmodel,
    (run_methodNameOf_and_foldsByName {} calls hcalls).2 hresults model hmodel, hentries⟩

/-- A source text whose result type is written with the arguments of an annotation. -/
def annotatedSource : String := "interface A { java.util.@N(1) List m(); }"

/-- A signature of a source text need not give its method name back. -/
theorem exists_signature_of_other_name :
    ¬∀ (source : String) (root : Declaration), Source.parse source = .ok root →
      ∀ signature ∈ Signature.ofTarget {} root root,
        methodNameOf signature.text = signature.methodName := by
  intro h
  have hnames : (Source.parse annotatedSource).map (fun root =>
      (Signature.ofTarget {} root root).map fun signature =>
        (signature.methodName, methodNameOf signature.text)) = .ok [("m", "java.util.@N")] := by
    decide +kernel
  cases hparse : Source.parse annotatedSource with
  | error fault =>
    rw [hparse] at hnames
    exact absurd hnames (by simp [Except.map])
  | ok root =>
    rw [hparse] at hnames
    have hnames := Except.ok.inj hnames
    obtain ⟨signature, hmem, hsignature⟩ := List.mem_map.mp (hnames ▸ List.mem_singleton_self _)
    obtain ⟨hname, hread⟩ := Prod.mk.inj hsignature
    have hsame := h annotatedSource root hparse signature hmem
    rw [hname, hread] at hsame
    exact absurd hsame (by decide)

end Session

end JavaSignatures
