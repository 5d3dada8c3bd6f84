import JavaSignatures.Proofs.ApiEntries
import JavaSignatures.Report.Listing

set_option autoImplicit false

/-!
# The listing and the API model agree

The listing shows the parameters of each signature below it, and the API model unites the parameters
of all signatures of a method name.  A parameter that no signature further up has under the same
method name is shown first in its line of the listing, and it is this line that the model takes the
option from (`mem_options_of_isFirst`).  `optionsOf_optionTypes_append` carries the union along the
listing, and `listing_agrees_with_model` puts the two reports side by side.
-/

namespace JavaSignatures

/-! ## Entries that keep their value -/

namespace Entries

variable {α : Type} {key : String} {entries : List (String × α)}

theorem upsert_getD_of_mem (h : key ∈ keys entries) (value : α) :
    upsert key (fun old => old.getD value) entries = entries := by
  induction entries with
  | nil => simp [keys] at h
  | cons entry rest ih =>
    obtain ⟨k, v⟩ := entry
    by_cases hk : k = key
    · simp [upsert, hk]
    · have hmem : key ∈ keys rest := by
        rcases List.mem_cons.mp h with heq | hmem
        · exact absurd heq.symm hk
        · exact hmem
      have hrest : upsert key (fun old => old.getD value) rest = rest := ih hmem
      simp only [upsert, hk, if_false, hrest]

end Entries

namespace OrderedMap

variable {α : Type}

theorem entries_insertIfNew (map : OrderedMap α) (key : String) (value : α) :
    (map.insertIfNew key value).entries =
      if key ∈ map.keys then map.entries else map.entries ++ [(key, value)] := by
  split
  · next h => exact Entries.upsert_getD_of_mem h value
  · next h => exact Entries.upsert_of_not_mem h fun old => old.getD value

theorem keys_insertIfNew (map : OrderedMap α) (key : String) (value : α) :
    (map.insertIfNew key value).keys = if key ∈ map.keys then map.keys else map.keys ++ [key] :=
  keys_upsert map key _

end OrderedMap

namespace Catalogue

/-- Distinct entries that are put in one after the other come behind the present ones, without
those whose key is present. -/
theorem entries_foldl_insertIfNew {entries : List (String × String)}
    (h : (Entries.keys entries).Nodup) (docs : OrderedMap String) :
    (entries.foldl (fun docs entry => docs.insertIfNew entry.1 entry.2) docs).entries =
      docs.entries ++ entries.filter fun entry => entry.1 ∉ docs.keys := by
  induction entries generalizing docs with
  | nil => simp
  | cons entry rest ih =>
    obtain ⟨key, value⟩ := entry
    have hkey : key ∉ Entries.keys rest := (List.nodup_cons.mp h).1
    -- the key of the first entry is not among the others, so it does not matter to them
    have hrest : (rest.filter fun entry => entry.1 ∉ (docs.insertIfNew key value).keys) =
        rest.filter fun entry => entry.1 ∉ docs.keys := by
      refine List.filter_congr fun other hother => ?_
      have hne : other.1 ≠ key := fun e => hkey (e ▸ List.mem_map_of_mem (f := Prod.fst) hother)
      rw [OrderedMap.keys_insertIfNew]
      split <;> simp [hne]
    rw [List.foldl_cons, ih (List.nodup_cons.mp h).2, hrest, OrderedMap.entries_insertIfNew]
    by_cases hmem : key ∈ docs.keys <;> simp [hmem]

theorem entries_addDocs (docs new : OrderedMap String) :
    (addDocs docs new).entries =
      docs.entries ++ new.entries.filter fun entry => entry.1 ∉ docs.keys :=
  entries_foldl_insertIfNew new.nodup docs

end Catalogue

namespace Report

/-! ## The lines of the listing -/

/-- The line that shows an option, without colours. -/
def ApiOption.line (option : ApiOption) : String :=
  "      " ++ option.type ++ " " ++ option.name ++
    if option.description.isEmpty then "" else "  " ++ option.description

namespace Listing

/-- The parameters that are shown below a signature, each with its type and its description. -/
def shown (catalogue : Catalogue) (signature : String) : List ApiOption :=
  (catalogue.argumentsOf signature).entries.map fun entry =>
    ⟨entry.1, entry.2, ((catalogue.docsOf (methodNameOf signature)).get? entry.1).getD ""⟩

/-- No signature of `before` that has the method name of `signature` has the parameter. -/
def IsFirst (catalogue : Catalogue) (before : List String) (signature parameter : String) : Prop :=
  ∀ earlier ∈ before, methodNameOf earlier = methodNameOf signature →
    parameter ∉ (catalogue.argumentsOf earlier).keys

instance (catalogue : Catalogue) (before : List String) (signature parameter : String) :
    Decidable (IsFirst catalogue before signature parameter) :=
  inferInstanceAs (Decidable (∀ earlier ∈ before, methodNameOf earlier = methodNameOf signature →
    parameter ∉ (catalogue.argumentsOf earlier).keys))

/-- The parameters of a method name as they are first shown below the signatures `rest`, which
follow the signatures `before`. -/
def firstShown (catalogue : Catalogue) (name : String) (before : List String) :
    List String → List ApiOption
  | [] => []
  | signature :: rest =>
    (if methodNameOf signature = name then
      (shown catalogue signature).filter fun parameter =>
        IsFirst catalogue before signature parameter.name
      else []) ++ firstShown catalogue name (before ++ [signature]) rest

/-- The lines above the signatures of a class. -/
def headingLines (path className : String) (catalogue : Catalogue) : List String :=
  ["", path, rule, "Class: " ++ className] ++
    (if catalogue.apiDescription.isEmpty then [] else [catalogue.apiDescription]) ++
    ["", "METHODS (" ++ toString catalogue.methods.length ++ " total)"]

theorem parameterLine_eq_line (type name doc : String) :
    parameterLine false type name doc = ApiOption.line ⟨name, type, doc⟩ := by
  unfold parameterLine ApiOption.line
  by_cases h : doc.isEmpty <;> simp [h, String.append_assoc]

theorem parameterLines_eq_map_line (catalogue : Catalogue) (signature : String) :
    parameterLines false catalogue signature =
      (shown catalogue signature).map ApiOption.line := by
  simp only [parameterLines, parameterLine_eq_line, shown, List.map_map, Function.comp_def]
  rfl

theorem sourceLines_of_className {catalogue : Catalogue} {className : String} (path : String)
    (herror : catalogue.errorMessage = none) (hclass : catalogue.className = some className) :
    sourceLines false ⟨path, catalogue⟩ =
      headingLines path className catalogue ++ catalogue.methods.flatMap fun signature =>
        ("  " ++ signature) :: (shown catalogue signature).map ApiOption.line := by
  have hlines : signatureLines false catalogue = fun signature =>
      ("  " ++ signature) :: (shown catalogue signature).map ApiOption.line :=
    funext fun signature =>
      congrArg (List.cons ("  " ++ signature)) (parameterLines_eq_map_line catalogue signature)
  have hmethods : ("METHODS" : String) ++ " (" = "METHODS (" := by decide
  simp only [sourceLines, catalogueLines, herror, hclass, accented_false, headingLines, hlines,
    List.append_assoc, List.cons_append, List.nil_append, hmethods]

end Listing

/-! ## The union along the listing -/

section Union

variable {catalogue : Catalogue}

open Listing

theorem ApiMethod.optionTypes_concat (signatures : List String) (signature : String) :
    optionTypes catalogue (signatures ++ [signature]) =
      Catalogue.addDocs (optionTypes catalogue signatures) (catalogue.argumentsOf signature) := by
  simp only [optionTypes, List.foldl_append, List.foldl_cons, List.foldl_nil]
  rfl

/-- The signatures of a method name. -/
def overloadsOf (signatures : List String) (name : String) : List String :=
  signatures.filter fun signature => methodNameOf signature == name

theorem mem_keys_optionTypes {signatures : List String} {parameter : String} :
    parameter ∈ (ApiMethod.optionTypes catalogue signatures).keys ↔
      ∃ signature ∈ signatures, parameter ∈ (catalogue.argumentsOf signature).keys := by
  rw [ApiMethod.keys_optionTypes, List.mem_eraseDups, List.mem_flatMap]

/-- A parameter is first below a signature just if the union of the signatures before lacks it. -/
theorem isFirst_iff {before : List String} {signature parameter : String} :
    IsFirst catalogue before signature parameter ↔
      parameter ∉ (ApiMethod.optionTypes catalogue
        (overloadsOf before (methodNameOf signature))).keys := by
  simp only [IsFirst, mem_keys_optionTypes, overloadsOf, List.mem_filter, beq_iff_eq]
  grind

/-- The options that a map of types has under a method name. -/
def optionsOf (catalogue : Catalogue) (name : String) (types : List (String × String)) :
    List ApiOption :=
  types.map fun entry => ⟨entry.1, entry.2, ((catalogue.docsOf name).get? entry.1).getD ""⟩

/-- One more signature adds the parameters that are first below it. -/
theorem optionsOf_optionTypes_concat (before : List String) (signature : String) :
    optionsOf catalogue (methodNameOf signature) (ApiMethod.optionTypes catalogue
        (overloadsOf before (methodNameOf signature) ++ [signature])).entries =
      optionsOf catalogue (methodNameOf signature) (ApiMethod.optionTypes catalogue
        (overloadsOf before (methodNameOf signature))).entries ++
      (shown catalogue signature).filter fun parameter =>
        IsFirst catalogue before signature parameter.name := by
  rw [ApiMethod.optionTypes_concat, Catalogue.entries_addDocs]
  simp only [optionsOf, shown, List.map_append, List.filter_map, Function.comp_def, isFirst_iff]

/-- The union of the signatures up to a place of the listing grows by what is first shown behind. -/
theorem optionsOf_optionTypes_append (name : String) (before rest : List String) :
    optionsOf catalogue name
        (ApiMethod.optionTypes catalogue (overloadsOf (before ++ rest) name)).entries =
      optionsOf catalogue name
        (ApiMethod.optionTypes catalogue (overloadsOf before name)).entries ++
      firstShown catalogue name before rest := by
  induction rest generalizing before with
  | nil => simp [firstShown]
  | cons signature rest ih =>
    have hsplit : before ++ signature :: rest = (before ++ [signature]) ++ rest := by simp
    rw [hsplit, ih, firstShown, ← List.append_assoc]
    congr 1
    by_cases hname : methodNameOf signature = name
    · subst hname
      have hone : overloadsOf (before ++ [signature]) (methodNameOf signature) =
          overloadsOf before (methodNameOf signature) ++ [signature] := by
        simp [overloadsOf]
      rw [hone, optionsOf_optionTypes_concat, if_pos rfl]
    · have hone : overloadsOf (before ++ [signature]) name = overloadsOf before name := by
        simp [overloadsOf, hname]
      rw [hone, if_neg hname, List.append_nil]

end Union

/-! ## The two reports -/

namespace ApiModel

variable {catalogue : Catalogue}

open Listing

/-- The options of an entry are the parameters of its name as the listing first shows them. -/
theorem options_eq_firstShown {entry : ApiMethod} (h : entry ∈ entriesOf catalogue) :
    entry.options = firstShown catalogue entry.name [] catalogue.methods := by
  have hrun := @optionsOf_optionTypes_append catalogue entry.name [] catalogue.methods
  have hempty : optionsOf catalogue entry.name
      (ApiMethod.optionTypes catalogue (overloadsOf [] entry.name)).entries = [] := rfl
  rw [hempty, List.nil_append, List.nil_append] at hrun
  rw [options_of_mem h, signatures_of_mem h]
  exact hrun

theorem mem_firstShown {name signature : String} {before rest after : List String}
    {parameter : ApiOption} (hname : methodNameOf signature = name)
    (hmem : parameter ∈ shown catalogue signature)
    (hfirst : IsFirst catalogue (before ++ rest) signature parameter.name) :
    parameter ∈ firstShown catalogue name before (rest ++ signature :: after) := by
  induction rest generalizing before with
  | nil =>
    rw [List.append_nil] at hfirst
    rw [List.nil_append, firstShown, if_pos hname, List.mem_append, List.mem_filter]
    exact Or.inl ⟨hmem, decide_eq_true hfirst⟩
  | cons other rest ih =>
    rw [List.cons_append, firstShown, List.mem_append]
    refine Or.inr (ih ?_)
    rw [List.append_assoc]
    exact hfirst

/-- Options of one entry that have the same name are the same. -/
theorem option_unique {entry : ApiMethod} (h : entry ∈ entriesOf catalogue)
    {first second : ApiOption} (hfirst : first ∈ entry.options) (hsecond : second ∈ entry.options)
    (hname : first.name = second.name) : first = second := by
  have hnodup : (entry.options.map ApiOption.name).Nodup := by
    rw [map_name_options_of_mem h]
    exact OrderedMap.keys_nodup _
  exact List.inj_on_of_nodup_map hnodup hfirst hsecond hname

/-- A parameter that is first below a signature is the option of its name, as it is shown, in the
one entry of the method name. -/
theorem mem_options_of_isFirst {before after : List String} {signature : String}
    (hmethods : catalogue.methods = before ++ signature :: after) :
    ∃! entry, (entry ∈ entriesOf catalogue ∧ signature ∈ entry.signatures) ∧
      entry.name = methodNameOf signature ∧
      ∀ parameter ∈ shown catalogue signature,
        IsFirst catalogue before signature parameter.name →
          parameter ∈ entry.options ∧
          ∀ option ∈ entry.options, option.name = parameter.name → option = parameter := by
  have hmem : signature ∈ catalogue.methods := by simp [hmethods]
  obtain ⟨entry, hentry, hunique⟩ := existsUnique_entry hmem
  have hname : entry.name = methodNameOf signature := by
    have hsignature := hentry.2
    rw [signatures_of_mem hentry.1, List.mem_filter] at hsignature
    exact (eq_of_beq hsignature.2).symm
  refine ⟨entry, ⟨hentry, hname, ?_⟩, fun other hother => hunique other hother.1⟩
  intro parameter hparameter hfirst
  have hoption : parameter ∈ entry.options := by
    rw [options_eq_firstShown hentry.1, hmethods]
    exact mem_firstShown hname.symm hparameter (by simpa using hfirst)
  exact ⟨hoption, fun option h hsame => option_unique hentry.1 h hoption hsame⟩

/-- A catalogue with a class and without an error has a listing and a model.  The listing shows
below each signature one line for each of its parameters.  A parameter that no signature above has
under the same method name is, with the type and the description of its line, the option of its
name in the entry of that method name, and an entry has these options alone, in the order in which
the listing first shows them. -/
theorem listing_agrees_with_model {catalogue : Catalogue} {className : String}
    (herror : catalogue.errorMessage = none) (hclass : catalogue.className = some className)
    (path : String) :
    ∃ model, ofCatalogue? catalogue = some model ∧
      sourceLines false ⟨path, catalogue⟩ =
        headingLines path className catalogue ++ (catalogue.methods.flatMap fun signature =>
          ("  " ++ signature) :: (shown catalogue signature).map ApiOption.line) ∧
      (∀ before signature after, catalogue.methods = before ++ signature :: after →
        ∃! entry, (entry ∈ model.methods ∧ signature ∈ entry.signatures) ∧
          entry.name = methodNameOf signature ∧
          ∀ parameter ∈ shown catalogue signature,
            IsFirst catalogue before signature parameter.name →
              parameter ∈ entry.options ∧
              ∀ option ∈ entry.options, option.name = parameter.name → option = parameter) ∧
      ∀ entry ∈ model.methods,
        entry.options = firstShown catalogue entry.name [] catalogue.methods :=
  ⟨_, ofCatalogue?_eq_some_iff.mpr ⟨herror, className, hclass, rfl⟩,
    sourceLines_of_className path herror hclass,
    fun _ _ _ hmethods => mem_options_of_isFirst hmethods,
    fun _ hentry => options_eq_firstShown hentry⟩

/-- An overload that gives the shared parameter another type: the first line is the option. -/
def retyped : Catalogue :=
  { className := some "com.acme.KeyStore"
    methods := ["public int get(int a)", "public void put(int a)", "public int get(long a, int b)"]
    parameters := .ofList [("get", .ofList [("a", "The first"), ("b", "The second")])]
    signatureArguments := .ofList
      [("public int get(int a)", .ofList [("a", "int")]),
        ("public int get(long a, int b)", .ofList [("a", "long"), ("b", "int")]),
        ("public void put(int a)", .ofList [("a", "int")])] }

theorem listing_agrees_with_model_retyped :
    ∃ model, ofCatalogue? retyped = some model ∧
      (∀ entry ∈ model.methods,
        entry.options = firstShown retyped entry.name [] retyped.methods) ∧
      firstShown retyped "get" [] retyped.methods =
        [⟨"a", "int", "The first"⟩, ⟨"b", "int", "The second"⟩] ∧
      (shown retyped "public int get(long a, int b)").map ApiOption.line =
        ["      long a  The first", "      int b  The second"] := by
  obtain ⟨model, hmodel, -, -, hoptions⟩ :=
    @listing_agrees_with_model retyped _ rfl rfl "KeyStore.java"
  refine ⟨model, hmodel, hoptions, ?_, ?_⟩
  · decide +kernel
  · decide +kernel

end ApiModel

end Report

end JavaSignatures
