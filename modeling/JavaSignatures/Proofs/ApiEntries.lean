import JavaSignatures.Proofs.Recording
import JavaSignatures.Report.Api
import Mathlib.Data.List.Induction
import Mathlib.Data.List.Nodup

set_option autoImplicit false

/-!
# The entries of an API model

A catalogue is folded into a model along two ordered maps: the signatures are grouped by the method
name that is read from their text, and within a group the parameters are united, the first type of
each name staying.  `Folds` says what the entries are in terms of the catalogue alone, and
`ofCatalogue?_isSome_iff_and_folds` which catalogues have a model and that it is of this kind.
-/

namespace JavaSignatures

/-! ## Entries of ordered maps -/

namespace Entries

variable {α : Type}

theorem get?_append (key : String) (first second : List (String × α)) :
    get? key (first ++ second) = (get? key first).or (get? key second) := by
  induction first with
  | nil => rfl
  | cons entry rest ih =>
    obtain ⟨k, v⟩ := entry
    by_cases hk : k = key <;> simp [get?, hk, ih]

/-- The first of several lists that has the key decides. -/
theorem get?_flatMap {β : Type} (key : String) (entries : β → List (String × α))
    (items : List β) :
    get? key (items.flatMap entries) = items.findSome? fun item => get? key (entries item) := by
  induction items with
  | nil => rfl
  | cons item rest ih =>
    rw [List.flatMap_cons, get?_append, ih, List.findSome?_cons]
    cases get? key (entries item) <;> rfl

theorem get?_eq_some_of_mem {entries : List (String × α)} (hnodup : (keys entries).Nodup)
    {key : String} {value : α} (h : (key, value) ∈ entries) : get? key entries = some value := by
  induction entries with
  | nil => exact absurd h (by simp)
  | cons entry rest ih =>
    obtain ⟨k, v⟩ := entry
    have hrest : (keys rest).Nodup := (List.nodup_cons.mp hnodup).2
    have hk : k ∉ keys rest := (List.nodup_cons.mp hnodup).1
    rcases List.mem_cons.mp h with heq | hmem
    · obtain ⟨rfl, rfl⟩ := Prod.mk.inj heq
      simp [get?]
    · have hne : ¬k = key := fun e => hk (e ▸ List.mem_map_of_mem (f := Prod.fst) hmem)
      simp only [get?, hne, if_false]
      exact ih hrest hmem

end Entries

namespace OrderedMap

variable {α : Type}

theorem get?_of_mem_entries {map : OrderedMap α} {entry : String × α}
    (h : entry ∈ map.entries) : map.get? entry.1 = some entry.2 :=
  Entries.get?_eq_some_of_mem map.nodup h

end OrderedMap

namespace Catalogue

/-- The parameter types of a signature text, none if it has never been recorded. -/
def argumentsOf (catalogue : Catalogue) (text : String) : OrderedMap String :=
  (catalogue.signatureArguments.get? text).getD .empty

end Catalogue

namespace Report

/-! ## Grouping by name -/

namespace ApiModel

/-- One more signature joins the group of its name, or begins a group at the end. -/
theorem grouped_concat (signatures : List String) (signature : String) :
    grouped (signatures ++ [signature]) =
      (grouped signatures).upsert (methodNameOf signature) fun group =>
        group.getD [] ++ [signature] := by
  simp [grouped]

theorem keys_grouped (signatures : List String) :
    (grouped signatures).keys = (signatures.map methodNameOf).eraseDups := by
  induction signatures using List.reverseRecOn with
  | nil => rfl
  | append_singleton signatures signature ih =>
    rw [grouped_concat, List.map_append]
    exact OrderedMap.keys_upsert_of_eraseDups ih (methodNameOf signature) _

theorem getD_get?_grouped (signatures : List String) (name : String) :
    ((grouped signatures).get? name).getD [] =
      signatures.filter fun signature => methodNameOf signature == name := by
  induction signatures using List.reverseRecOn with
  | nil => rfl
  | append_singleton signatures signature ih =>
    rw [grouped_concat, OrderedMap.get?_upsert, List.filter_append, ← ih]
    by_cases hname : name = methodNameOf signature
    · subst hname
      simp
    · have hne : ¬methodNameOf signature = name := fun e => hname e.symm
      simp [hname, hne]

/-- A group holds the signatures of its name in order. -/
theorem eq_filter_of_mem_grouped {signatures : List String} {group : String × List String}
    (h : group ∈ (grouped signatures).entries) :
    group.2 = signatures.filter fun signature => methodNameOf signature == group.1 := by
  have hget := OrderedMap.get?_of_mem_entries h
  have hgroup := getD_get?_grouped signatures group.1
  rw [hget, Option.getD_some] at hgroup
  exact hgroup

end ApiModel

/-! ## The union of parameters -/

namespace ApiMethod

/-- The parameters of the signatures are put in one after the other. -/
theorem optionTypes_eq_foldl (catalogue : Catalogue) (signatures : List String) :
    optionTypes catalogue signatures =
      (signatures.flatMap fun text => (catalogue.argumentsOf text).entries).foldl
        (fun types entry => types.insertIfNew entry.1 entry.2) .empty := by
  rw [List.foldl_flatMap]
  rfl

theorem keys_optionTypes (catalogue : Catalogue) (signatures : List String) :
    (optionTypes catalogue signatures).keys =
      (signatures.flatMap fun text => (catalogue.argumentsOf text).keys).eraseDups := by
  have hempty : (OrderedMap.empty : OrderedMap String).keys = ([] : List String).eraseDups := rfl
  have hkeys := (Catalogue.foldl_insertIfNew
    (signatures.flatMap fun text => (catalogue.argumentsOf text).entries) .empty hempty).1
  rw [optionTypes_eq_foldl, hkeys, List.nil_append, Entries.keys, List.map_flatMap]
  rfl

theorem get?_optionTypes (catalogue : Catalogue) (signatures : List String) (name : String) :
    (optionTypes catalogue signatures).get? name =
      signatures.findSome? fun text => (catalogue.argumentsOf text).get? name := by
  have hempty : (OrderedMap.empty : OrderedMap String).keys = ([] : List String).eraseDups := rfl
  have hget := (Catalogue.foldl_insertIfNew
    (signatures.flatMap fun text => (catalogue.argumentsOf text).entries) .empty hempty).2 name
  rw [optionTypes_eq_foldl, hget, OrderedMap.get?_empty, Option.none_or, Entries.get?_flatMap]
  rfl

end ApiMethod

/-! ## Models -/

namespace ApiModel

/-- The entries of the model are the catalogue, folded by method name. -/
structure Folds (catalogue : Catalogue) (model : ApiModel) : Prop where
  /-- the names that are read from the signatures, first occurrences in order -/
  names : model.methods.map ApiMethod.name = (catalogue.methods.map methodNameOf).eraseDups
  names_nodup : (model.methods.map ApiMethod.name).Nodup
  /-- the signatures of the name in order, repeated ones included -/
  signatures : ∀ entry ∈ model.methods, entry.signatures =
    catalogue.methods.filter fun text => methodNameOf text == entry.name
  /-- no signature is lost, and none stands in two entries -/
  signature_once : ∀ text ∈ catalogue.methods,
    ∃! entry, entry ∈ model.methods ∧ text ∈ entry.signatures
  /-- a signature stands in its entry as often as it has been recorded -/
  signature_count : ∀ entry ∈ model.methods, ∀ text ∈ entry.signatures,
    entry.signatures.count text = catalogue.methods.count text
  /-- what is said of the method name, nothing if no description has been recorded -/
  description : ∀ entry ∈ model.methods,
    entry.description = (catalogue.methodDescriptions.get? entry.name).getD ""
  /-- the parameter names of the signatures, first occurrences in order -/
  optionNames : ∀ entry ∈ model.methods, entry.options.map ApiOption.name =
    (entry.signatures.flatMap fun text => (catalogue.argumentsOf text).keys).eraseDups
  optionNames_nodup : ∀ entry ∈ model.methods, (entry.options.map ApiOption.name).Nodup
  /-- the type in the first signature of the entry that has the parameter -/
  optionType : ∀ entry ∈ model.methods, ∀ option ∈ entry.options,
    (entry.signatures.findSome? fun text => (catalogue.argumentsOf text).get? option.name) =
      some option.type
  /-- what is said of the parameter under the method name, nothing if it has no description -/
  optionDescription : ∀ entry ∈ model.methods, ∀ option ∈ entry.options,
    option.description = ((catalogue.docsOf entry.name).get? option.name).getD ""

/-- The entries of the model of a catalogue. -/
def entriesOf (catalogue : Catalogue) : List ApiMethod :=
  (grouped catalogue.methods).entries.map fun group =>
    ApiMethod.ofSignatures catalogue group.1 group.2

theorem ofCatalogue?_eq_some_iff {catalogue : Catalogue} {model : ApiModel} :
    ofCatalogue? catalogue = some model ↔
      catalogue.errorMessage = none ∧ ∃ className, catalogue.className = some className ∧
        model = ⟨dashName (Name.afterLast '.' className), catalogue.apiDescription,
          entriesOf catalogue⟩ := by
  unfold ofCatalogue?
  cases catalogue.errorMessage with
  | some message => simp
  | none =>
    cases catalogue.className with
    | none => simp
    | some className => simp [entriesOf, eq_comm]

section Entries

variable {catalogue : Catalogue}

theorem map_name_entriesOf :
    (entriesOf catalogue).map ApiMethod.name = (grouped catalogue.methods).keys := by
  rw [entriesOf, List.map_map]
  rfl

/-- An entry is what its name and the signatures of that name make of it. -/
theorem eq_ofSignatures_of_mem {entry : ApiMethod} (h : entry ∈ entriesOf catalogue) :
    entry = ApiMethod.ofSignatures catalogue entry.name
      (catalogue.methods.filter fun text => methodNameOf text == entry.name) := by
  obtain ⟨group, hgroup, rfl⟩ := List.mem_map.mp h
  have hsignatures := eq_filter_of_mem_grouped hgroup
  rw [hsignatures]
  rfl

theorem signatures_of_mem {entry : ApiMethod} (h : entry ∈ entriesOf catalogue) :
    entry.signatures = catalogue.methods.filter fun text => methodNameOf text == entry.name :=
  congrArg ApiMethod.signatures (eq_ofSignatures_of_mem h)

theorem options_of_mem {entry : ApiMethod} (h : entry ∈ entriesOf catalogue) :
    entry.options = (ApiMethod.optionTypes catalogue entry.signatures).entries.map fun option =>
      ⟨option.1, option.2, ((catalogue.docsOf entry.name).get? option.1).getD ""⟩ := by
  have hoptions := congrArg ApiMethod.options (eq_ofSignatures_of_mem h)
  rw [hoptions, signatures_of_mem h]
  rfl

theorem map_name_options_of_mem {entry : ApiMethod} (h : entry ∈ entriesOf catalogue) :
    entry.options.map ApiOption.name =
      (ApiMethod.optionTypes catalogue entry.signatures).keys := by
  rw [options_of_mem h, List.map_map]
  rfl

/-- Two entries of one name are the same entry, and a signature stands just in that of its name. -/
theorem existsUnique_entry {text : String} (h : text ∈ catalogue.methods) :
    ∃! entry, entry ∈ entriesOf catalogue ∧ text ∈ entry.signatures := by
  have hkey : methodNameOf text ∈ (grouped catalogue.methods).keys := by
    rw [keys_grouped, List.mem_eraseDups]
    exact List.mem_map_of_mem h
  rw [← map_name_entriesOf] at hkey
  obtain ⟨entry, hentry, hname⟩ := List.mem_map.mp hkey
  have htext : text ∈ entry.signatures := by
    rw [signatures_of_mem hentry, hname]
    simp [h]
  refine ⟨entry, ⟨hentry, htext⟩, ?_⟩
  rintro other ⟨hother, hsame⟩
  have hother' : methodNameOf text = other.name := by
    rw [signatures_of_mem hother, List.mem_filter] at hsame
    exact eq_of_beq hsame.2
  rw [eq_ofSignatures_of_mem hother, eq_ofSignatures_of_mem hentry, ← hother', hname]

theorem count_signatures_of_mem {entry : ApiMethod} (h : entry ∈ entriesOf catalogue)
    {text : String} (htext : text ∈ entry.signatures) :
    entry.signatures.count text = catalogue.methods.count text := by
  rw [signatures_of_mem h] at htext ⊢
  exact List.count_filter (List.mem_filter.mp htext).2

end Entries

theorem folds_entriesOf (catalogue : Catalogue) (name description : String) :
    Folds catalogue ⟨name, description, entriesOf catalogue⟩ where
  names := map_name_entriesOf.trans (keys_grouped catalogue.methods)
  names_nodup := by
    rw [map_name_entriesOf]
    exact OrderedMap.keys_nodup _
  signatures _ h := signatures_of_mem h
  signature_once _ h := existsUnique_entry h
  signature_count _ h _ htext := count_signatures_of_mem h htext
  description _ h := congrArg ApiMethod.description (eq_ofSignatures_of_mem h)
  optionNames _ h := (map_name_options_of_mem h).trans (ApiMethod.keys_optionTypes catalogue _)
  optionNames_nodup _ h := by
    rw [map_name_options_of_mem h]
    exact OrderedMap.keys_nodup _
  optionType entry h option hoption := by
    rw [options_of_mem h] at hoption
    obtain ⟨typed, htyped, rfl⟩ := List.mem_map.mp hoption
    rw [← ApiMethod.get?_optionTypes]
    exact OrderedMap.get?_of_mem_entries htyped
  optionDescription entry h option hoption := by
    rw [options_of_mem h] at hoption
    obtain ⟨typed, -, rfl⟩ := List.mem_map.mp hoption
    rfl

/-- A catalogue has a model just if it has a class and no error, and its model is the catalogue
folded by method name. -/
theorem ofCatalogue?_isSome_iff_and_folds (catalogue : Catalogue) :
    ((ofCatalogue? catalogue).isSome ↔
        catalogue.errorMessage = none ∧ catalogue.className ≠ none) ∧
      ∀ model ∈ ofCatalogue? catalogue, Folds catalogue model := by
  constructor
  · rw [Option.isSome_iff_exists]
    constructor
    · rintro ⟨model, hmodel⟩
      obtain ⟨herror, className, hclass, -⟩ := ofCatalogue?_eq_some_iff.mp hmodel
      exact ⟨herror, by simp [hclass]⟩
    · rintro ⟨herror, hclass⟩
      obtain ⟨className, hclass⟩ := Option.ne_none_iff_exists'.mp hclass
      exact ⟨_, ofCatalogue?_eq_some_iff.mpr ⟨herror, className, hclass, rfl⟩⟩
  · intro model hmodel
    obtain ⟨-, className, -, rfl⟩ := ofCatalogue?_eq_some_iff.mp hmodel
    exact folds_entriesOf catalogue _ _

/-- Overloads of one name around another one, a signature that comes twice, and one that no map
knows. -/
def interleaved : Catalogue :=
  { className := some "com.acme.KeyStore"
    methods := ["public int get(int a)", "public void put(int b)", "public int get(long a, int b)",
      "public int get(int a)", "public int size()"]
    parameters := .ofList [("get", .ofList [("b", "The second")])]
    signatureArguments := .ofList
      [("public int get(int a)", .ofList [("a", "int")]),
        ("public int get(long a, int b)", .ofList [("a", "long"), ("b", "int")]),
        ("public void put(int b)", .ofList [("b", "int")])] }

/-- The first overload gives the shared parameter its type. -/
theorem folds_interleaved :
    ∃ model, model ∈ ofCatalogue? interleaved ∧ Folds interleaved model ∧
      model.methods.map ApiMethod.name = ["get", "put", "size"] ∧
      (model.methods.map ApiMethod.options).head? =
        some [⟨"a", "int", ""⟩, ⟨"b", "int", "The second"⟩] := by
  have hmodel : (⟨dashName (Name.afterLast '.' "com.acme.KeyStore"), "", entriesOf interleaved⟩ :
      ApiModel) ∈ ofCatalogue? interleaved := rfl
  refine ⟨_, hmodel, (ofCatalogue?_isSome_iff_and_folds interleaved).2 _ hmodel, ?_, ?_⟩
  · decide +kernel
  · decide +kernel

end ApiModel

end Report

end JavaSignatures
