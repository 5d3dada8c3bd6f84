import JavaSignatures.Proofs.Recording
import JavaSignatures.Proofs.TextParts
import Mathlib.Data.List.Induction
import Mathlib.Data.List.Nodup

set_option autoImplicit false

/-!
# Descriptions of parameters

The value of a tag that describes a parameter begins with the name of the parameter, up to the first
white space.  The description of a parameter is looked for by a beginning of the value, so that a
tag for `index` answers for `id` as well.  Where no name is the beginning of another one, each
parameter gets the description of its own tag, in whatever order the tags stand
(`Signature.parameterDocs_of_ownTags`).
-/

namespace JavaSignatures

open JavaSignatures.Character

namespace OrderedMap

variable {α : Type}

theorem ofList_concat (entries : List (String × α)) (entry : String × α) :
    ofList (entries ++ [entry]) = (ofList entries).insert entry.1 entry.2 := by
  rw [ofList, ofList, List.foldl_append]
  rfl

/-- The keys of a list of entries, in the order in which they come first. -/
theorem keys_ofList (entries : List (String × α)) :
    (ofList entries).keys = (entries.map Prod.fst).eraseDups := by
  induction entries using List.reverseRecOn with
  | nil => rfl
  | append_singleton entries entry ih =>
    rw [ofList_concat, List.map_append, List.map_singleton]
    exact keys_upsert_of_eraseDups ih entry.1 _

/-- Where the value depends on the key only, it is found under the key. -/
theorem get?_ofList_map {β : Type} (key : β → String) (value : String → α) {items : List β}
    {item : β} (h : item ∈ items) :
    (ofList (items.map fun item => (key item, value (key item)))).get? (key item) =
      some (value (key item)) := by
  induction items using List.reverseRecOn with
  | nil => exact absurd h List.not_mem_nil
  | append_singleton items last ih =>
    rw [List.map_append, List.map_singleton, ofList_concat, get?_insert]
    split
    · next heq => rw [heq]
    · next hne =>
      rcases List.mem_append.mp h with h | h
      · exact ih h
      · exact absurd (congrArg key (List.mem_singleton.mp h)) hne

end OrderedMap

/-! ## Tags and their parameters -/

/-- The name that the value of a tag begins with. -/
def tagName (value : String) : List Char := value.toList.takeWhile fun c => !isBlank c

/-- What the value of a tag says of the name: what follows the name and the white space behind
it. -/
def tagDescription (value : String) : String :=
  String.ofList ((value.toList.dropWhile fun c => !isBlank c).dropWhile isBlank)

/-- The description in the first tag with the name. -/
def ownDescription? (values : List String) (name : String) : Option String :=
  (values.find? fun value => tagName value == name.toList).map tagDescription

/-- No name is the beginning of another one. -/
def ArePrefixFree (names : List (List Char)) : Prop :=
  ∀ name ∈ names, ∀ other ∈ names, name <+: other → name = other

section Tags

variable {name value : String} {values : List String}

/-- White space in front of a text does not matter to its description. -/
theorem Describer.describe_dropWhile (describer : Describer) (summary : Bool) (text : List Char) :
    describer.describe summary (text.dropWhile isBlank) = describer.describe summary text := by
  have hbare : Description.bare (text.dropWhile isBlank) = Description.bare text := by
    unfold Description.bare
    congr 1
    induction text with
    | nil => rfl
    | cons c rest ih =>
      by_cases hc : isBlank c = true
      · simp [hc, ih]
      · simp [hc]
  rw [describe, hbare, describe]

/-- A name without white space can only be found at the beginning of the name in the value. -/
theorem isPrefix_tagName {rest : List Char} (hname : ∀ c ∈ name.toList, isBlank c = false)
    (h : Text.after? name.toList value.toList = some rest) : name.toList <+: tagName value := by
  rw [Text.after?_eq_some_iff] at h
  have hsolid : ∀ c ∈ name.toList, (!isBlank c) = true := fun c hc => by simp [hname c hc]
  rw [tagName, h, List.takeWhile_append_of_pos hsolid]
  exact List.prefix_append ..

/-- Behind its own name the value goes on with what it says of the name. -/
theorem after?_of_tagName (h : tagName value = name.toList) :
    Text.after? name.toList value.toList =
      some (value.toList.dropWhile fun c => !isBlank c) := by
  rw [Text.after?_eq_some_iff, ← h, tagName, List.takeWhile_append_dropWhile]

/-- Among prefix-free names the search by a beginning finds the tag of the name itself. -/
theorem parameterDoc_eq (describer : Describer) (hname : ∀ c ∈ name.toList, isBlank c = false)
    (hfree : ∀ value ∈ values, name.toList <+: tagName value → name.toList = tagName value) :
    describer.parameterDoc values name =
      describer.describe? false (ownDescription? values name) := by
  unfold Describer.parameterDoc ownDescription?
  induction values with
  | nil => rfl
  | cons value values ih =>
    obtain ⟨hvalue, hvalues⟩ := List.forall_mem_cons.mp hfree
    by_cases hown : tagName value = name.toList
    · rw [List.findSome?_cons, after?_of_tagName hown, List.find?_cons_of_pos (by simpa using hown)]
      simp [Describer.describe?, Text.onString, tagDescription, describer.describe_dropWhile]
    · have hmiss : Text.after? name.toList value.toList = none := by
        cases hafter : Text.after? name.toList value.toList with
        | none => rfl
        | some rest => exact absurd (hvalue (isPrefix_tagName hname hafter)).symm hown
      rw [List.findSome?_cons, hmiss, List.find?_cons_of_neg (by simpa using hown)]
      exact ih hvalues

/-- Among tags with different names at most one has the name. -/
theorem find?_tagName_iff (hnodup : (values.map tagName).Nodup) {text : List Char} :
    values.find? (fun value => tagName value == text) = some value ↔
      value ∈ values ∧ tagName value = text := by
  constructor
  · intro h
    exact ⟨List.mem_of_find?_eq_some h, by simpa using List.find?_some h⟩
  · rintro ⟨hmem, hname⟩
    cases hfound : values.find? fun value => tagName value == text with
    | none =>
      have hnone := List.find?_eq_none.mp hfound value hmem
      exact absurd (beq_iff_eq.mpr hname) hnone
    | some other =>
      have hother : tagName other = text := by simpa using List.find?_some hfound
      rw [List.inj_on_of_nodup_map hnodup (List.mem_of_find?_eq_some hfound) hmem
        (hother.trans hname.symm)]

/-- Among tags with different names the order does not matter. -/
theorem ownDescription?_perm {others : List String} (hperm : values.Perm others)
    (hnodup : (values.map tagName).Nodup) (name : String) :
    ownDescription? values name = ownDescription? others name := by
  have hothers : (others.map tagName).Nodup := (hperm.map tagName).nodup_iff.mp hnodup
  have hfind : values.find? (fun value => tagName value == name.toList) =
      others.find? fun value => tagName value == name.toList := by
    refine Option.ext fun value => ?_
    rw [find?_tagName_iff hnodup, find?_tagName_iff hothers, hperm.mem_iff]
  rw [ownDescription?, ownDescription?, hfind]

end Tags

/-! ## The descriptions in a signature -/

namespace Method

/-- The names of the parameters, and those in the tags that describe parameters. -/
def describedNames (method : Method) : List (List Char) :=
  (method.parameters.map fun parameter => parameter.name.toList) ++
    method.parameterTags.map tagName

theorem parameterTags_perm {method : Method} {comment other : DocComment}
    (hcomment : method.comment = some comment) (hperm : comment.tags.Perm other.tags) :
    method.parameterTags.Perm { method with comment := some other }.parameterTags := by
  unfold parameterTags
  rw [hcomment]
  exact (hperm.filter _).map _

end Method

namespace Signature

variable {style : Style} {root target : Declaration} {method : Method}

theorem keys_parameterDocs :
    (ofMethod style root target method).parameterDocs.keys =
      (ofMethod style root target method).parameterTypes.keys := by
  have hnames : (describedParameters style method).map Prod.fst =
      (typedParameters style root target method).map Prod.fst := by
    simp [describedParameters, typedParameters]
  rw [ofMethod, OrderedMap.keys_ofList, OrderedMap.keys_ofList, hnames]

/-- Every description is that of the parameter's own tag. -/
theorem describedParameters_eq
    (hnames : ∀ parameter ∈ method.parameters, ∀ c ∈ parameter.name.toList, isBlank c = false)
    (hfree : ArePrefixFree method.describedNames) :
    describedParameters style method = method.parameters.map fun parameter =>
      (parameter.name,
        style.describer.describe? false (ownDescription? method.parameterTags parameter.name)) := by
  refine List.map_congr_left fun parameter hparameter => ?_
  have hown : ∀ value ∈ method.parameterTags, parameter.name.toList <+: tagName value →
      parameter.name.toList = tagName value := fun value hvalue =>
    hfree _ (List.mem_append_left _ (List.mem_map_of_mem hparameter)) _
      (List.mem_append_right _ (List.mem_map_of_mem hvalue))
  rw [parameterDoc_eq _ (hnames parameter hparameter) hown]

/-- A method that its declaration accepts, with names of parameters without white space, and with
tags of different names, no name being the beginning of another one.  Its signature gives every
parameter the description in the tag of its name, or the empty text if there is no such tag.  Any
other order of the tags gives the same descriptions, and they have the keys of the types in the same
order. -/
theorem parameterDocs_of_ownTags (hmember : method ∈ target.methods)
    (haccepts : target.kind.accepts method = true)
    (hnames : ∀ parameter ∈ method.parameters, ∀ c ∈ parameter.name.toList, isBlank c = false)
    (hfree : ArePrefixFree method.describedNames)
    (hnodup : (method.parameterTags.map tagName).Nodup) :
    let signature := ofMethod style root target method
    signature ∈ ofTarget style root target ∧
      (∀ parameter ∈ method.parameters,
        signature.parameterDocs.get? parameter.name = some
          (style.describer.describe? false
            (ownDescription? method.parameterTags parameter.name))) ∧
      (∀ comment other, method.comment = some comment → comment.tags.Perm other.tags →
        (ofMethod style root target { method with comment := some other }).parameterDocs =
          signature.parameterDocs) ∧
      signature.parameterDocs.keys = signature.parameterTypes.keys := by
  intro signature
  refine ⟨mem_ofTarget.mpr ⟨method, hmember, haccepts, rfl⟩, ?_, ?_, keys_parameterDocs⟩
  · intro parameter hparameter
    have hdocs : signature.parameterDocs = _ :=
      congrArg OrderedMap.ofList (describedParameters_eq hnames hfree)
    rw [hdocs]
    exact OrderedMap.get?_ofList_map Parameter.name
      (fun name => style.describer.describe? false (ownDescription? method.parameterTags name))
      hparameter
  · intro comment other hcomment hperm
    have htags := Method.parameterTags_perm hcomment hperm
    have hotherFree : ArePrefixFree { method with comment := some other }.describedNames := by
      have hmem : ∀ name, name ∈ { method with comment := some other }.describedNames →
          name ∈ method.describedNames := fun name hname =>
        ((htags.map tagName).append_left _).mem_iff.mpr hname
      exact fun name hname next hnext => hfree name (hmem name hname) next (hmem next hnext)
    have hsame : describedParameters style { method with comment := some other } =
        describedParameters style method := by
      rw [describedParameters_eq hnames hfree,
        @describedParameters_eq style { method with comment := some other } hnames hotherFree]
      refine List.map_congr_left fun parameter _ => ?_
      rw [ownDescription?_perm htags hnodup]
    exact congrArg OrderedMap.ofList hsame

/-- A method whose tags are in another order than its parameters.  One parameter has no tag, and the
description of another one begins with its name. -/
def addEvidence : Method where
  name := "addEvidence"
  returnType := .void
  parameters := [⟨"id", .simple "int" "int", false⟩, ⟨"text", .simple "String" "String", false⟩,
    ⟨"kind", .simple "String" "String", true⟩]
  visibility := .publicAccess
  comment := some
    { raw := "/** @param text id and text.\n * @return nothing\n * @param id - the key */"
      tags := [⟨"@param", "text id and text."⟩, ⟨"@return", "nothing"⟩,
        ⟨"@param", "id - the key"⟩] }

theorem parameterDocs_of_ownTags_addEvidence :
    let target : Declaration :=
      { name := "Gateway", qualifiedName := "Gateway", methods := [addEvidence] }
    let swapped : DocComment :=
      ⟨"", [⟨"@param", "id - the key"⟩, ⟨"@param", "text id and text."⟩, ⟨"@return", "nothing"⟩]⟩
    let docs := (ofMethod {} target target addEvidence).parameterDocs
    docs.get? "id" = some "The key" ∧ docs.get? "text" = some "Id and text" ∧
      docs.get? "kind" = some "" ∧
      (ofMethod {} target target { addEvidence with comment := some swapped }).parameterDocs =
        docs := by
  intro target swapped docs
  have hnames : ∀ parameter ∈ addEvidence.parameters, ∀ c ∈ parameter.name.toList,
      isBlank c = false := by
    decide +kernel
  have hfree : ArePrefixFree addEvidence.describedNames := by
    unfold ArePrefixFree
    decide +kernel
  have hnodup : (addEvidence.parameterTags.map tagName).Nodup := by decide +kernel
  obtain ⟨-, hdocs, hperm, -⟩ := @parameterDocs_of_ownTags {} target target addEvidence
    List.mem_cons_self rfl hnames hfree hnodup
  have hid := hdocs ⟨"id", .simple "int" "int", false⟩ (by simp [addEvidence])
  have htext := hdocs ⟨"text", .simple "String" "String", false⟩ (by simp [addEvidence])
  have hkind := hdocs ⟨"kind", .simple "String" "String", true⟩ (by simp [addEvidence])
  refine ⟨hid.trans ?_, htext.trans ?_, hkind.trans ?_, hperm _ swapped rfl ?_⟩
  · decide +kernel
  · decide +kernel
  · decide +kernel
  · decide +kernel

end Signature

end JavaSignatures
