import JavaSignatures.Catalogue

set_option autoImplicit false

/-!
# What a catalogue knows after recording

Recording a run of signatures fills a list and four ordered maps, and the maps treat a key that
comes again in different ways: the last text and the last parameter types win, the first
description of a parameter wins, and of the descriptions of a method the last one that is not empty.
`Knows` states all of it at once in terms of the run, `knows_record` carries it over one signature,
and `knows_recordAll` over a run of any length.
-/

namespace JavaSignatures

/-! ## Keys in the order of their first occurrence -/

/-- A further name comes last among the distinct names, unless it is one of them. -/
theorem eraseDups_concat (names : List String) (name : String) :
    (names ++ [name]).eraseDups =
      if name ∈ names.eraseDups then names.eraseDups else names.eraseDups ++ [name] := by
  rw [List.eraseDups_append]
  by_cases h : name ∈ names
  · simp [List.removeAll, h]
  · simp [List.removeAll, h, List.eraseDups_cons]

namespace OrderedMap

variable {α : Type}

theorem keys_upsert_of_eraseDups {map : OrderedMap α} {names : List String}
    (h : map.keys = names.eraseDups) (name : String) (f : Option α → α) :
    (map.upsert name f).keys = (names ++ [name]).eraseDups := by
  rw [keys_upsert, h, eraseDups_concat]

theorem isEmpty_eq_keys (map : OrderedMap α) : map.isEmpty = map.keys.isEmpty := by
  obtain ⟨entries, nodup⟩ := map
  cases entries <;> rfl

theorem isSome_get?_iff (map : OrderedMap α) (key : String) :
    (map.get? key).isSome ↔ key ∈ map.keys := by
  obtain ⟨entries, nodup⟩ := map
  simp only [get?, keys]
  clear nodup
  induction entries with
  | nil => simp [Entries.get?, Entries.keys]
  | cons entry rest ih =>
    obtain ⟨k, v⟩ := entry
    by_cases h : k = key
    · subst h
      simp [Entries.get?, Entries.keys]
    · have h' : ¬key = k := fun e => h e.symm
      simp only [Entries.keys] at ih
      simp [Entries.get?, Entries.keys, h, h', ih]

end OrderedMap

/-! ## Descriptions of parameters -/

namespace Catalogue

/-- Adding entries one after the other keeps what each key has, and gives a new key its first
value. -/
theorem foldl_insertIfNew (entries : List (String × String)) (docs : OrderedMap String)
    {names : List String} (h : docs.keys = names.eraseDups) :
    let after := entries.foldl (fun docs entry => docs.insertIfNew entry.1 entry.2) docs
    after.keys = (names ++ Entries.keys entries).eraseDups ∧
      ∀ key, after.get? key = (docs.get? key).or (Entries.get? key entries) := by
  induction entries generalizing docs names with
  | nil => exact ⟨by simpa [Entries.keys] using h, fun key => by simp [Entries.get?]⟩
  | cons entry rest ih =>
    obtain ⟨name, doc⟩ := entry
    have hkeys : (docs.insertIfNew name doc).keys = (names ++ [name]).eraseDups :=
      OrderedMap.keys_upsert_of_eraseDups h name _
    obtain ⟨hnames, hdocs⟩ := ih _ hkeys
    refine ⟨?_, ?_⟩
    · simpa [Entries.keys] using hnames
    · intro key
      rw [List.foldl_cons, hdocs key, OrderedMap.get?_insertIfNew]
      by_cases hk : key = name
      · subst hk
        cases hd : docs.get? key <;> simp [Entries.get?]
      · have hk' : ¬name = key := fun e => hk e.symm
        simp [Entries.get?, hk, hk']

theorem keys_addDocs {docs new : OrderedMap String} {names : List String}
    (h : docs.keys = names.eraseDups) :
    (addDocs docs new).keys = (names ++ new.keys).eraseDups :=
  (foldl_insertIfNew new.entries docs h).1

theorem get?_addDocs {docs : OrderedMap String} {names : List String}
    (h : docs.keys = names.eraseDups) (new : OrderedMap String) (key : String) :
    (addDocs docs new).get? key = (docs.get? key).or (new.get? key) :=
  (foldl_insertIfNew new.entries docs h).2 key

/-! ## What is known of a run of signatures -/

/-- The signatures of one method name. -/
def overloads (signatures : List Signature) (name : String) : List Signature :=
  signatures.filter fun signature => signature.methodName == name

/-- The signatures that come with a description of their method. -/
def described (signatures : List Signature) : List Signature :=
  signatures.filter fun signature => !signature.description.isEmpty

/-- The parameter descriptions of a method name, none if it has never been recorded. -/
def docsOf (catalogue : Catalogue) (name : String) : OrderedMap String :=
  (catalogue.parameters.get? name).getD .empty

/-- The catalogue knows what the signatures say, and no more. -/
structure Knows (catalogue : Catalogue) (signatures : List Signature) : Prop where
  /-- the texts in order, repeated ones included -/
  methods : catalogue.methods = signatures.map Signature.text
  /-- the distinct texts, first occurrences in order -/
  argumentKeys : catalogue.signatureArguments.keys = (signatures.map Signature.text).eraseDups
  /-- the parameter types of the last signature with the text -/
  arguments : ∀ text, catalogue.signatureArguments.get? text =
    (signatures.filter fun signature => signature.text == text).getLast?.map
      Signature.parameterTypes
  /-- the distinct method names, first occurrences in order -/
  textKeys : catalogue.methodText.keys = (signatures.map Signature.methodName).eraseDups
  /-- the text of the last overload -/
  texts : ∀ name, catalogue.methodText.get? name =
    (overloads signatures name).getLast?.map Signature.text
  /-- the same distinct method names -/
  parameterKeys : catalogue.parameters.keys = (signatures.map Signature.methodName).eraseDups
  /-- the distinct parameter names of all overloads, first occurrences in order -/
  docKeys : ∀ name, (catalogue.docsOf name).keys =
    ((overloads signatures name).flatMap fun signature => signature.parameterDocs.keys).eraseDups
  /-- the description in the first overload that declares the parameter -/
  docs : ∀ name parameter, (catalogue.docsOf name).get? parameter =
    (overloads signatures name).findSome? fun signature => signature.parameterDocs.get? parameter
  /-- the method names with a description, first such occurrences in order -/
  descriptionKeys : catalogue.methodDescriptions.keys =
    ((described signatures).map Signature.methodName).eraseDups
  /-- the last description that is not empty -/
  descriptions : ∀ name, catalogue.methodDescriptions.get? name =
    (overloads (described signatures) name).getLast?.map Signature.description

theorem overloads_concat (signatures : List Signature) (signature : Signature) (name : String) :
    overloads (signatures ++ [signature]) name =
      if name = signature.methodName then overloads signatures name ++ [signature]
      else overloads signatures name := by
  by_cases h : name = signature.methodName
  · subst h
    simp [overloads]
  · have h' : ¬signature.methodName = name := fun e => h e.symm
    simp [overloads, h, h']

theorem described_concat (signatures : List Signature) (signature : Signature) :
    described (signatures ++ [signature]) =
      if signature.description.isEmpty then described signatures
      else described signatures ++ [signature] := by
  by_cases h : signature.description.isEmpty <;> simp [described, h]

theorem docsOf_record (catalogue : Catalogue) (signature : Signature) (name : String) :
    (catalogue.record signature).docsOf name =
      if name = signature.methodName then addDocs (catalogue.docsOf name) signature.parameterDocs
      else catalogue.docsOf name := by
  by_cases h : name = signature.methodName
  · subst h
    simp [docsOf, record, OrderedMap.get?_upsert]
  · simp [docsOf, record, OrderedMap.get?_upsert, h]

/-- A start without entries knows what no signature says. -/
theorem knows_nil (className error : Option String) (description : String) :
    Knows { className := className, apiDescription := description, errorMessage := error } [] where
  methods := rfl
  argumentKeys := rfl
  arguments _ := rfl
  textKeys := rfl
  texts _ := rfl
  parameterKeys := rfl
  docKeys _ := rfl
  docs _ _ := rfl
  descriptionKeys := rfl
  descriptions _ := rfl

/-- One more signature: every map follows its own rule for a key that it has already. -/
theorem knows_record {catalogue : Catalogue} {signatures : List Signature}
    (h : catalogue.Knows signatures) (signature : Signature) :
    (catalogue.record signature).Knows (signatures ++ [signature]) where
  methods := by simp [record, h.methods]
  argumentKeys := by
    rw [List.map_append]
    exact OrderedMap.keys_upsert_of_eraseDups h.argumentKeys signature.text _
  arguments text := by
    have hget : (catalogue.record signature).signatureArguments.get? text =
        if text = signature.text then some signature.parameterTypes
        else catalogue.signatureArguments.get? text :=
      OrderedMap.get?_insert _ _ _ _
    rw [hget, h.arguments]
    by_cases ht : text = signature.text
    · subst ht
      simp
    · have ht' : ¬signature.text = text := fun e => ht e.symm
      simp [ht, ht']
  textKeys := by
    rw [List.map_append]
    exact OrderedMap.keys_upsert_of_eraseDups h.textKeys signature.methodName _
  texts name := by
    have hget : (catalogue.record signature).methodText.get? name =
        if name = signature.methodName then some signature.text
        else catalogue.methodText.get? name :=
      OrderedMap.get?_insert _ _ _ _
    rw [hget, h.texts, overloads_concat]
    by_cases hn : name = signature.methodName
    · simp [hn]
    · simp [hn]
  parameterKeys := by
    rw [List.map_append]
    exact OrderedMap.keys_upsert_of_eraseDups h.parameterKeys signature.methodName _
  docKeys name := by
    rw [docsOf_record, overloads_concat]
    by_cases hn : name = signature.methodName
    · rw [if_pos hn, if_pos hn, List.flatMap_append, List.flatMap_singleton]
      exact keys_addDocs (h.docKeys name)
    · rw [if_neg hn, if_neg hn]
      exact h.docKeys name
  docs name parameter := by
    rw [docsOf_record, overloads_concat]
    by_cases hn : name = signature.methodName
    · rw [if_pos hn, if_pos hn, List.findSome?_append, get?_addDocs (h.docKeys name), h.docs]
      simp
    · rw [if_neg hn, if_neg hn]
      exact h.docs name parameter
  descriptionKeys := by
    rw [described_concat]
    by_cases hd : signature.description.isEmpty
    · simp [record, hd, h.descriptionKeys]
    · simp only [record, hd, Bool.false_eq_true, if_false, List.map_append]
      exact OrderedMap.keys_upsert_of_eraseDups h.descriptionKeys signature.methodName _
  descriptions name := by
    rw [described_concat]
    by_cases hd : signature.description.isEmpty
    · simp [record, hd, h.descriptions]
    · simp only [record, hd, Bool.false_eq_true, if_false]
      rw [OrderedMap.get?_insert, overloads_concat, h.descriptions]
      by_cases hn : name = signature.methodName
      · simp [hn]
      · simp [hn]

/-- A run of signatures, recorded where an earlier run has been. -/
theorem knows_recordAll {catalogue : Catalogue} {before : List Signature}
    (h : catalogue.Knows before) (signatures : List Signature) :
    (catalogue.recordAll signatures).Knows (before ++ signatures) := by
  induction signatures generalizing catalogue before with
  | nil => simpa using h
  | cons signature rest ih =>
    have hstep : (catalogue.record signature).Knows (before ++ [signature]) :=
      knows_record h signature
    have hrest := ih hstep
    rw [List.append_assoc] at hrest
    exact hrest

@[simp]
theorem apiDescription_recordAll (catalogue : Catalogue) (signatures : List Signature) :
    (catalogue.recordAll signatures).apiDescription = catalogue.apiDescription := by
  induction signatures generalizing catalogue with
  | nil => rfl
  | cons signature rest ih => exact ih (catalogue.record signature)

/-- What is known of a run leaves the catalogue empty just if the run is and nothing is described. -/
theorem isEmpty_iff_of_knows {catalogue : Catalogue} {signatures : List Signature}
    (h : catalogue.Knows signatures) :
    catalogue.isEmpty = true ↔ signatures = [] ∧ catalogue.apiDescription = "" := by
  simp only [isEmpty, OrderedMap.isEmpty_eq_keys, h.methods, h.argumentKeys, h.textKeys,
    h.parameterKeys, h.descriptionKeys, Bool.and_eq_true, List.isEmpty_iff, String.isEmpty_iff]
  constructor
  · rintro ⟨⟨⟨⟨⟨hm, -⟩, -⟩, -⟩, -⟩, hd⟩
    exact ⟨List.map_eq_nil_iff.mp hm, hd⟩
  · rintro ⟨rfl, hd⟩
    exact ⟨⟨⟨⟨⟨rfl, rfl⟩, rfl⟩, rfl⟩, rfl⟩, hd⟩

/-- Each method name of the run has its parameter descriptions, be it without any entry. -/
theorem get?_parameters_of_knows {catalogue : Catalogue} {signatures : List Signature}
    (h : catalogue.Knows signatures) (name : String) :
    catalogue.parameters.get? name =
      if name ∈ signatures.map Signature.methodName then some (catalogue.docsOf name)
      else none := by
  have hmem : (catalogue.parameters.get? name).isSome ↔
      name ∈ signatures.map Signature.methodName := by
    rw [OrderedMap.isSome_get?_iff, h.parameterKeys, List.mem_eraseDups]
  cases hg : catalogue.parameters.get? name with
  | none =>
    rw [hg] at hmem
    rw [if_neg fun hn => by simpa using hmem.mpr hn]
  | some docs =>
    rw [hg] at hmem
    rw [if_pos (hmem.mp rfl)]
    simp [docsOf, hg]

/-- A run of signatures that is recorded in an empty catalogue, whatever declaration it is of, is all
that the catalogue knows; the catalogue is empty just if nothing was recorded or described. -/
theorem recordAll_knows_and_isEmpty_iff (className error : Option String) (description : String)
    (signatures : List Signature) :
    let start : Catalogue :=
      { className := className, apiDescription := description, errorMessage := error }
    let result := start.recordAll signatures
    result.Knows signatures ∧
      (∀ name, result.parameters.get? name =
        if name ∈ signatures.map Signature.methodName then some (result.docsOf name) else none) ∧
      (result.isEmpty = true ↔ signatures = [] ∧ description = "") := by
  intro start result
  have hstart : start.Knows [] := knows_nil className error description
  have hresult : result.Knows signatures := knows_recordAll hstart signatures
  have hdescription : result.apiDescription = description :=
    apiDescription_recordAll start signatures
  refine ⟨hresult, get?_parameters_of_knows hresult, ?_⟩
  rw [isEmpty_iff_of_knows hresult, hdescription]

end Catalogue

end JavaSignatures
