import JavaSignatures.Proofs.SessionRun

set_option autoImplicit false

/-!
# Collecting twice from one declaration

A call that is made twice in a row records the same signatures twice.  The list of texts grows by
them both times, and every map is after the second call what it was after the first.  Each map
changes by a run of upserts (`OrderedMap.upsertAll`), so one look at the value of a single key is
enough for all of them (`OrderedMap.upsertAll_twice`): where the last value wins a run forgets what
was there before it (`valueAfter_twice_of_overwrites`), and where the first one wins nothing is left
for the second run to add (`valueAfter_docChanges_twice`).
-/

namespace JavaSignatures

/-! ## Runs of upserts -/

namespace Entries

variable {α : Type}

theorem get?_eq_none {key : String} {entries : List (String × α)} (h : key ∉ keys entries) :
    get? key entries = none := by
  induction entries with
  | nil => rfl
  | cons entry rest ih =>
    obtain ⟨hne, hrest⟩ : key ≠ entry.1 ∧ key ∉ keys rest := by simpa [keys] using h
    rw [get?, if_neg hne.symm, ih hrest]

/-- Entries with distinct keys are told apart by the order of the keys and the value of each. -/
theorem eq_of_get? {first second : List (String × α)} (hkeys : keys first = keys second)
    (hnodup : (keys first).Nodup) (hget : ∀ key, get? key first = get? key second) :
    first = second := by
  induction first generalizing second with
  | nil => exact (List.map_eq_nil_iff.mp hkeys.symm).symm
  | cons entry rest ih =>
    obtain ⟨k, v⟩ := entry
    cases second with
    | nil => simp [keys] at hkeys
    | cons other others =>
      obtain ⟨k', v'⟩ := other
      obtain ⟨rfl, hrest⟩ : k = k' ∧ keys rest = keys others := by simpa [keys] using hkeys
      obtain ⟨hk, hrestNodup⟩ := List.nodup_cons.mp hnodup
      obtain rfl : v = v' := by simpa [get?] using hget k
      have htail : ∀ key, get? key rest = get? key others := by
        intro key
        by_cases h : k = key
        · -- the key in front does not come again, so neither rest has a value for it
          subst h
          rw [get?_eq_none hk, get?_eq_none (hrest ▸ hk)]
        · simpa [get?, h] using hget key
      rw [ih hrest hrestNodup htail]

end Entries

namespace OrderedMap

variable {α : Type}

theorem eq_of_get? {first second : OrderedMap α} (hkeys : first.keys = second.keys)
    (hget : ∀ key, first.get? key = second.get? key) : first = second := by
  obtain ⟨entries, hnodup⟩ := first
  obtain ⟨others, hnodup'⟩ := second
  obtain rfl : entries = others := Entries.eq_of_get? hkeys hnodup hget
  rfl

/-- A change that leaves the value of a key leaves the map. -/
theorem upsert_eq_self {map : OrderedMap α} {key : String} {value : α} {f : Option α → α}
    (hget : map.get? key = some value) (hf : f (some value) = value) : map.upsert key f = map := by
  have hmem : key ∈ map.keys := (map.isSome_get?_iff key).mp (by simp [hget])
  apply eq_of_get?
  · rw [keys_upsert, if_pos hmem]
  · intro other
    rw [get?_upsert]
    split
    · next h => rw [h, hget, hf]
    · rfl

/-- Upserts one after the other, each a key and what becomes of its value. -/
def upsertAll (map : OrderedMap α) (changes : List (String × (Option α → α))) : OrderedMap α :=
  changes.foldl (fun map change => map.upsert change.1 change.2) map

/-- What upserts make of the value of one key. -/
def valueAfter (changes : List (String × (Option α → α))) (key : String) (value : Option α) :
    Option α :=
  (changes.filter fun change => change.1 == key).foldl (fun value change => some (change.2 value))
    value

theorem get?_upsertAll (changes : List (String × (Option α → α))) (map : OrderedMap α)
    (key : String) : (map.upsertAll changes).get? key = valueAfter changes key (map.get? key) := by
  induction changes generalizing map with
  | nil => rfl
  | cons change rest ih =>
    have hrest := ih (map.upsert change.1 change.2)
    rw [get?_upsert] at hrest
    by_cases h : change.1 = key
    · subst h
      simpa [upsertAll, valueAfter] using hrest
    · have h' : ¬key = change.1 := fun e => h e.symm
      simpa [upsertAll, valueAfter, h, h'] using hrest

theorem mem_keys_upsertAll {changes : List (String × (Option α → α))} {map : OrderedMap α}
    {key : String} :
    key ∈ (map.upsertAll changes).keys ↔ key ∈ map.keys ∨ key ∈ changes.map Prod.fst := by
  induction changes generalizing map with
  | nil => simp [upsertAll]
  | cons change rest ih =>
    have hupsert : key ∈ (map.upsert change.1 change.2).keys ↔ key ∈ map.keys ∨ key = change.1 := by
      rw [keys_upsert]
      split <;> simp_all
    have hrest : key ∈ (map.upsertAll (change :: rest)).keys ↔
        key ∈ (map.upsert change.1 change.2).keys ∨ key ∈ rest.map Prod.fst := ih
    rw [hrest, hupsert, List.map_cons, List.mem_cons, or_assoc]

/-- Upserts of keys that are there leave the keys and their order. -/
theorem keys_upsertAll_of_subset {changes : List (String × (Option α → α))} {map : OrderedMap α}
    (h : ∀ change ∈ changes, change.1 ∈ map.keys) : (map.upsertAll changes).keys = map.keys := by
  induction changes generalizing map with
  | nil => rfl
  | cons change rest ih =>
    obtain ⟨hchange, hrest⟩ := List.forall_mem_cons.mp h
    have hkeys : (map.upsert change.1 change.2).keys = map.keys := by
      rw [keys_upsert, if_pos hchange]
    have hsame : ((map.upsert change.1 change.2).upsertAll rest).keys =
        (map.upsert change.1 change.2).keys := ih (by rwa [hkeys])
    rw [upsertAll, List.foldl_cons]
    exact hsame.trans hkeys

/-- Upserts made twice are made once, if that holds of the value of each key. -/
theorem upsertAll_twice {changes : List (String × (Option α → α))} {map : OrderedMap α}
    (h : ∀ key value, valueAfter changes key (valueAfter changes key value) =
      valueAfter changes key value) :
    (map.upsertAll changes).upsertAll changes = map.upsertAll changes := by
  apply eq_of_get?
  · refine keys_upsertAll_of_subset fun change hchange => ?_
    exact mem_keys_upsertAll.mpr (.inr (List.mem_map_of_mem hchange))
  · intro key
    rw [get?_upsertAll, get?_upsertAll, h]

/-- Upserts that do not look at the present value leave the last value of a key. -/
theorem valueAfter_twice_of_overwrites {changes : List (String × (Option α → α))}
    (h : ∀ change ∈ changes, ∀ value other, change.2 value = change.2 other) (key : String)
    (value : Option α) :
    valueAfter changes key (valueAfter changes key value) = valueAfter changes key value := by
  rw [valueAfter]
  rcases List.eq_nil_or_concat (changes.filter fun change => change.1 == key) with
    hnil | ⟨front, last, hlast⟩
  · rw [valueAfter, hnil]
    rfl
  · have hmem : last ∈ changes := by
      have hfiltered : last ∈ changes.filter fun change => change.1 == key := by
        rw [hlast]
        simp
      exact (List.mem_filter.mp hfiltered).1
    simp only [valueAfter, hlast, List.concat_eq_append, List.foldl_append, List.foldl_cons,
      List.foldl_nil]
    rw [h last hmem]

end OrderedMap

/-! ## What recording changes in each map -/

namespace Catalogue

/-- What recording signatures does to the texts of the method names. -/
def textChanges (signatures : List Signature) : List (String × (Option String → String)) :=
  signatures.map fun signature => (signature.methodName, fun _ => signature.text)

/-- What recording signatures does to the parameter types of the texts. -/
def argumentChanges (signatures : List Signature) :
    List (String × (Option (OrderedMap String) → OrderedMap String)) :=
  signatures.map fun signature => (signature.text, fun _ => signature.parameterTypes)

/-- What recording signatures does to the descriptions of the method names. -/
def descriptionChanges (signatures : List Signature) : List (String × (Option String → String)) :=
  (described signatures).map fun signature => (signature.methodName, fun _ => signature.description)

/-- What recording signatures does to the parameter descriptions of the method names. -/
def docChanges (signatures : List Signature) :
    List (String × (Option (OrderedMap String) → OrderedMap String)) :=
  signatures.map fun signature =>
    (signature.methodName, fun docs => addDocs (docs.getD .empty) signature.parameterDocs)

/-- Recording adds the texts to the list and changes each map by itself. -/
theorem recordAll_eq_upsertAll (catalogue : Catalogue) (signatures : List Signature) :
    catalogue.recordAll signatures =
      { catalogue with
        methods := catalogue.methods ++ signatures.map Signature.text
        methodText := catalogue.methodText.upsertAll (textChanges signatures)
        parameters := catalogue.parameters.upsertAll (docChanges signatures)
        signatureArguments := catalogue.signatureArguments.upsertAll (argumentChanges signatures)
        methodDescriptions :=
          catalogue.methodDescriptions.upsertAll (descriptionChanges signatures) } := by
  induction signatures generalizing catalogue with
  | nil =>
    simp [textChanges, docChanges, argumentChanges, descriptionChanges, described,
      OrderedMap.upsertAll]
  | cons signature rest ih =>
    have hstep : catalogue.recordAll (signature :: rest) =
        (catalogue.record signature).recordAll rest := rfl
    rw [hstep, ih]
    by_cases h : signature.description.isEmpty <;>
      simp [record, textChanges, docChanges, argumentChanges, descriptionChanges, described, h,
        OrderedMap.upsertAll, OrderedMap.insert]

/-- Adding descriptions is a run of upserts in which the value that is there stays. -/
theorem addDocs_eq_upsertAll (docs new : OrderedMap String) :
    addDocs docs new =
      docs.upsertAll (new.entries.map fun entry => (entry.1, fun old => old.getD entry.2)) := by
  rw [OrderedMap.upsertAll, List.foldl_map]
  rfl

theorem mem_keys_addDocs {docs new : OrderedMap String} {name : String} :
    name ∈ (addDocs docs new).keys ↔ name ∈ docs.keys ∨ name ∈ new.keys := by
  rw [addDocs_eq_upsertAll, OrderedMap.mem_keys_upsertAll, List.map_map]
  rfl

/-- Descriptions that have all the parameters already take nothing from further ones. -/
theorem addDocs_of_subset {docs new : OrderedMap String} (h : ∀ name ∈ new.keys, name ∈ docs.keys) :
    addDocs docs new = docs := by
  have hentries : ∀ entries : List (String × String), (∀ entry ∈ entries, entry.1 ∈ docs.keys) →
      entries.foldl (fun docs entry => docs.insertIfNew entry.1 entry.2) docs = docs := by
    intro entries hmem
    induction entries with
    | nil => rfl
    | cons entry rest ih =>
      obtain ⟨hentry, hrest⟩ := List.forall_mem_cons.mp hmem
      obtain ⟨doc, hdoc⟩ := Option.isSome_iff_exists.mp ((docs.isSome_get?_iff entry.1).mpr hentry)
      have hsame : docs.insertIfNew entry.1 entry.2 = docs := OrderedMap.upsert_eq_self hdoc rfl
      rw [List.foldl_cons, hsame, ih hrest]
  exact hentries new.entries fun entry hentry => h entry.1 (List.mem_map_of_mem hentry)

/-- The parameter descriptions of a run of signatures, over those that are there. -/
def allDocs (signatures : List Signature) (docs : Option (OrderedMap String)) :
    Option (OrderedMap String) :=
  signatures.foldl
    (fun docs signature => some (addDocs (docs.getD .empty) signature.parameterDocs)) docs

theorem valueAfter_docChanges (signatures : List Signature) (name : String)
    (docs : Option (OrderedMap String)) :
    OrderedMap.valueAfter (docChanges signatures) name docs =
      allDocs (overloads signatures name) docs := by
  rw [OrderedMap.valueAfter, docChanges, List.filter_map, List.foldl_map]
  rfl

/-- A run keeps the parameters that are there and describes those of all its signatures. -/
theorem keys_subset_allDocs {signatures : List Signature} {docs : Option (OrderedMap String)}
    {name : String}
    (h : name ∈ (docs.getD .empty).keys ∨
      ∃ signature ∈ signatures, name ∈ signature.parameterDocs.keys) :
    name ∈ ((allDocs signatures docs).getD .empty).keys := by
  induction signatures generalizing docs with
  | nil => simpa [allDocs] using h
  | cons signature rest ih =>
    apply ih
    rw [Option.getD_some, mem_keys_addDocs]
    rcases h with hdocs | ⟨other, hother, hname⟩
    · exact .inl (.inl hdocs)
    · rcases List.mem_cons.mp hother with rfl | hrest
      · exact .inl (.inr hname)
      · exact .inr ⟨other, hrest, hname⟩

/-- A run of signatures whose parameters are all described already adds nothing. -/
theorem allDocs_of_subset {signatures : List Signature} {docs : OrderedMap String}
    (h : ∀ signature ∈ signatures, ∀ name ∈ signature.parameterDocs.keys, name ∈ docs.keys) :
    allDocs signatures (some docs) = some docs := by
  induction signatures with
  | nil => rfl
  | cons signature rest ih =>
    obtain ⟨hfirst, hrest⟩ := List.forall_mem_cons.mp h
    rw [allDocs, List.foldl_cons, Option.getD_some, addDocs_of_subset hfirst]
    exact ih hrest

/-- The first description of a parameter stays, so a second run finds all of them described. -/
theorem valueAfter_docChanges_twice (signatures : List Signature) (name : String)
    (docs : Option (OrderedMap String)) :
    OrderedMap.valueAfter (docChanges signatures) name
        (OrderedMap.valueAfter (docChanges signatures) name docs) =
      OrderedMap.valueAfter (docChanges signatures) name docs := by
  simp only [valueAfter_docChanges]
  have hkeys : ∀ signature ∈ overloads signatures name, ∀ parameter ∈ signature.parameterDocs.keys,
      parameter ∈ ((allDocs (overloads signatures name) docs).getD .empty).keys :=
    fun signature hmem parameter hparameter =>
      keys_subset_allDocs (.inr ⟨signature, hmem, hparameter⟩)
  cases hall : allDocs (overloads signatures name) docs with
  | some all =>
    rw [hall] at hkeys
    exact allDocs_of_subset hkeys
  | none =>
    -- without a value afterwards there is no overload that could have given one
    cases hover : overloads signatures name with
    | nil => rfl
    | cons signature rest =>
      rw [hover] at hall hkeys
      have hsome : ∀ (rest : List Signature) (docs : OrderedMap String),
          allDocs rest (some docs) ≠ none := by
        intro rest
        induction rest with
        | nil => simp [allDocs]
        | cons signature rest ih => exact fun docs => ih _
      exact absurd hall (hsome rest _)

/-- Recording a run of signatures once more adds their texts and changes no map. -/
theorem recordAll_twice (catalogue : Catalogue) (signatures : List Signature) :
    let once := catalogue.recordAll signatures
    once.recordAll signatures =
      { once with methods := once.methods ++ signatures.map Signature.text } := by
  intro once
  have htext : (once.methodText.upsertAll (textChanges signatures)) = once.methodText := by
    simp only [once, recordAll_eq_upsertAll]
    refine OrderedMap.upsertAll_twice (OrderedMap.valueAfter_twice_of_overwrites ?_)
    simp [textChanges]
  have hdocs : (once.parameters.upsertAll (docChanges signatures)) = once.parameters := by
    simp only [once, recordAll_eq_upsertAll]
    exact OrderedMap.upsertAll_twice (valueAfter_docChanges_twice signatures)
  have harguments : (once.signatureArguments.upsertAll (argumentChanges signatures)) =
      once.signatureArguments := by
    simp only [once, recordAll_eq_upsertAll]
    refine OrderedMap.upsertAll_twice (OrderedMap.valueAfter_twice_of_overwrites ?_)
    simp [argumentChanges]
  have hdescriptions : (once.methodDescriptions.upsertAll (descriptionChanges signatures)) =
      once.methodDescriptions := by
    simp only [once, recordAll_eq_upsertAll]
    refine OrderedMap.upsertAll_twice (OrderedMap.valueAfter_twice_of_overwrites ?_)
    simp [descriptionChanges]
  rw [recordAll_eq_upsertAll once, htext, hdocs, harguments, hdescriptions]

/-- Adding a target once more adds its signature texts and changes nothing else. -/
theorem addTarget_twice (catalogue : Catalogue) (style : Style) (root target : Declaration) :
    let once := catalogue.addTarget style root target
    once.addTarget style root target =
      { once with
        methods := once.methods ++ (Signature.ofTarget style root target).map Signature.text } := by
  intro once
  have hheaded : once.addTarget style root target =
      once.recordAll (Signature.ofTarget style root target) := by
    simp only [addTarget, recordAll_headed, once]
  rw [hheaded]
  exact recordAll_twice _ _

end Catalogue

/-! ## Calls made twice -/

/-- The declaration that a path leads to, and without a path the root itself. -/
def Declaration.destination? (root : Declaration) : Option String → Option Declaration
  | none => some root
  | some path => root.find? path

namespace SessionCall

/-- The call collects from the declarations of the root, which it is given or reads from a source
text, and `path` is its path to a nested one. -/
inductive Reads (reader : SourceReader) (root : Declaration) (path : Option String) :
    SessionCall → Prop
  | addUnit : Reads reader root path (.addUnit root path)
  | parse {source : String} (hsource : reader source = .ok root) :
      Reads reader root path (.parse source path)
  | parseStream {stream : ByteStream} {source : String} (htext : stream.text = .ok source)
      (hsource : reader source = .ok root) : Reads reader root path (.parseStream stream path)

theorem Reads.effect_eq {reader : SourceReader} {root : Declaration} {path : Option String}
    {call : SessionCall} (h : call.Reads reader root path) :
    call.effect reader = .ofUnit root path := by
  cases h with
  | addUnit => rfl
  | parse hsource => simp [effect, SessionEffect.ofSource, hsource]
  | parseStream htext hsource => simp [effect, htext, SessionEffect.ofSource, hsource]

end SessionCall

namespace Session

/-- A call with a path that leads to a declaration succeeds in whatever session it is made, and made
twice in a row it leaves everything as it was after the first time, but for the list of signature
texts, which has grown by the texts of the target both times. -/
theorem attempt_twice {reader : SourceReader} (session : Session reader)
    {root target : Declaration} {path : Option String}
    (hpath : root.destination? path = some target) {call : SessionCall}
    (hcall : call.Reads reader root path) :
    let texts := (Signature.ofTarget session.style root target).map Signature.text
    ∃ once twice : Session reader,
      call.attempt session = .ok once ∧ call.attempt once = .ok twice ∧
        once.catalogue.methods = session.catalogue.methods ++ texts ∧
        twice.catalogue.methods = once.catalogue.methods ++ texts ∧
        twice = { once with
          catalogue := { once.catalogue with methods := twice.catalogue.methods } } := by
  intro texts
  have heffect : call.effect reader = .collects root target := by
    rw [hcall.effect_eq]
    cases path with
    | none =>
      obtain rfl : root = target := Option.some.inj hpath
      rfl
    | some path =>
      have hfound : root.find? path = some target := hpath
      simp [SessionEffect.ofUnit, hfound]
  have hattempt : ∀ session : Session reader, call.attempt session =
      .ok { session with
        catalogue := session.catalogue.addTarget session.style root target } := by
    intro session
    rw [SessionCall.attempt_eq_effect, heffect]
    rfl
  have htwice := Catalogue.addTarget_twice session.catalogue session.style root target
  refine ⟨_, _, hattempt session, hattempt _, ?_, ?_, ?_⟩
  · simp only [Catalogue.addTarget, Catalogue.methods_recordAll, texts]
  · rw [htwice]
  · simp only [htwice]

/-- Overloads of a nested class whose parameter has been described under the same method name
before. -/
theorem attempt_twice_overloads :
    let comment (text : String) : Option DocComment := some (.ofText text)
    let parameter : Parameter := { name := "a", type := { name := "int", qualifiedName := "int" } }
    let method : Method :=
      { name := "m", returnType := { name := "void", qualifiedName := "void" },
        visibility := .publicAccess, parameters := [parameter] }
    let inner : Declaration :=
      { name := "B", qualifiedName := "A.B",
        methods := [{ method with comment := comment "Sets it.\n@param a the value" },
          { method with parameters := [] }] }
    let root : Declaration :=
      { name := "A", qualifiedName := "A", nested := [inner],
        methods := [{ method with comment := comment "Adds it.\n@param a the other" }] }
    let session : Session .java := addUnit {} root none
    let call : SessionCall := .addUnit root (some "A$B")
    let texts := ["public void m(int a)", "public void m()"]
    root.find? "A$B" = some inner ∧
      (Signature.ofTarget session.style root inner).map Signature.text = texts ∧
      ∃ once twice : Session .java,
        call.attempt session = .ok once ∧ call.attempt once = .ok twice ∧
          once.catalogue.methods = session.catalogue.methods ++ texts ∧
          twice.catalogue.methods = once.catalogue.methods ++ texts ∧
          twice = { once with
            catalogue := { once.catalogue with methods := twice.catalogue.methods } } := by
  intro comment parameter method inner root session call texts
  have hfound : root.find? "A$B" = some inner := rfl
  have htexts : (Signature.ofTarget session.style root inner).map Signature.text = texts := by
    decide +kernel
  have hpath : root.destination? (some "A$B") = some inner := hfound
  have hcall : call.Reads .java root (some "A$B") := .addUnit
  have htwice := attempt_twice session hpath hcall
  rw [htexts] at htwice
  exact ⟨hfound, htexts, htwice⟩

end Session

end JavaSignatures
