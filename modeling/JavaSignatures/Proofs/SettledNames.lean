import JavaSignatures.Proofs.ImportLookup
import JavaSignatures.Proofs.ImportUse

set_option autoImplicit false

/-!
# Names that are looked up again

What the imports of a file make of a name is the name itself or a path that ends with it behind a
period.  Such a path is no identifier, and no imports of any file make anything else of it, so a
name can be looked up again after it has been looked up.  Only the first import that ends with the
name counts: imports can be put in that do not end with it or stand behind one that does
(`ImportScope.resolve_settled`).
-/

namespace JavaSignatures

namespace Name

variable {path name : String}

/-- A path with a period in it is no identifier. -/
theorem EndsWith.not_isSimple (h : EndsWith path name) : isSimple path = false := by
  obtain ⟨front, rfl⟩ := h
  by_contra hsimple
  have hperiod : Character.isNamePart '.' = true :=
    (isNamePart_of_isSimple (by simpa using hsimple)).2 '.' (by simp)
  exact absurd hperiod (by decide)

end Name

namespace ImportScope

open Name (EndsWith)

variable {scope : ImportScope} {name : String} {imports more : List String}

/-! ## Names that have been looked up -/

/-- Only of identifiers the imports make a path. -/
theorem endsWith_resolve (h : scope.resolve name ≠ name) :
    Name.isSimple name = true ∧ EndsWith (scope.resolve name) name := by
  refine ⟨?_, (scope.resolve_eq_or name).resolve_left h⟩
  by_contra hnot
  exact h (resolve_of_not_isSimple scope (by simpa using hnot))

/-- What ends with a name behind a period stays the same, whatever the imports are. -/
theorem resolve_of_endsWith {path : String} (h : EndsWith path name) (other : ImportScope) :
    other.resolve path = path :=
  resolve_of_not_isSimple other h.not_isSimple

/-! ## More imports -/

/-- The second list is the first one with imports put in that are not asked for the name: each of
them does not end with the name, or stands behind an import that does. -/
inductive Insertion (name : String) : List String → List String → Prop
  | nil : Insertion name [] []
  | keep (path : String) {imports more : List String} (h : Insertion name imports more) :
    Insertion name (path :: imports) (path :: more)
  | other {path : String} (hpath : ¬EndsWith path name) {imports more : List String}
    (h : Insertion name imports more) : Insertion name imports (path :: more)
  | behind {path : String} (hpath : EndsWith path name) {imports more : List String}
    (h : imports.Sublist more) : Insertion name (path :: imports) (path :: more)

theorem find?_cons_of_endsWith {path : String} (h : EndsWith path name) (rest : List String) :
    (path :: rest).find? (Name.hasLast · name) = some path :=
  List.find?_cons_of_pos (Name.hasLast_iff.mpr h)

theorem find?_cons_of_not_endsWith {path : String} (h : ¬EndsWith path name)
    (rest : List String) :
    (path :: rest).find? (Name.hasLast · name) = rest.find? (Name.hasLast · name) :=
  List.find?_cons_of_neg (mt Name.hasLast_iff.mp h)

theorem Insertion.find?_eq (h : Insertion name imports more) :
    more.find? (Name.hasLast · name) = imports.find? (Name.hasLast · name) := by
  induction h with
  | nil => rfl
  | keep path _ ih => rw [List.find?_cons, List.find?_cons, ih]
  | other hpath _ ih => rw [find?_cons_of_not_endsWith hpath, ih]
  | behind hpath _ => rw [find?_cons_of_endsWith hpath, find?_cons_of_endsWith hpath]

theorem Insertion.resolve_eq (h : Insertion name imports more) (package : Option String) :
    (⟨package, more⟩ : ImportScope).resolve name =
      (⟨package, imports⟩ : ImportScope).resolve name := by
  unfold resolve
  rw [h.find?_eq]
  rfl

/-- A name is left alone or becomes a path that ends with it.  It stays what it has become when it
is looked up again, in this file and, if it has become a path, in any other.  Imports that do not
end with the name can be put in anywhere, and any imports behind one that does. -/
theorem resolve_settled (scope : ImportScope) (name : String) :
    (scope.resolve name = name ↔ scope.leavesAlone name = true) ∧
    (scope.resolve name = name ∨
      EndsWith (scope.resolve name) name ∧ Name.lastPart (scope.resolve name) = name) ∧
    scope.resolve (scope.resolve name) = scope.resolve name ∧
    (scope.resolve name ≠ name → ∀ other : ImportScope,
      other.resolve (scope.resolve name) = scope.resolve name) ∧
    ∀ more, Insertion name scope.imports more →
      (⟨scope.package, more⟩ : ImportScope).resolve name = scope.resolve name := by
  refine ⟨resolve_eq_self_iff, ?_, ?_, ?_, fun more h => h.resolve_eq scope.package⟩
  · by_cases h : scope.resolve name = name
    · exact .inl h
    · obtain ⟨hsimple, hends⟩ := endsWith_resolve h
      exact .inr ⟨hends, Name.lastPart_of_hasLast (Name.hasLast_iff.mpr hends) hsimple⟩
  · by_cases h : scope.resolve name = name
    · rw [h, h]
    · exact resolve_of_endsWith (endsWith_resolve h).2 scope
  · exact fun h other => resolve_of_endsWith (endsWith_resolve h).2 other

/-- The first of two imports of the same name counts, with others in front of it and more of that
name behind it. -/
theorem resolve_entry_of_insertion :
    let scope : ImportScope := ⟨some "com.acme", ["java.util.Map.Entry", "java.util.List"]⟩
    let more := ["com.acme.OtherEntry", "java.util.Map.Entry", "org.Entry", "java.util.List"]
    Insertion "Entry" scope.imports more ∧
      (⟨scope.package, more⟩ : ImportScope).resolve "Entry" = "java.util.Map.Entry" ∧
      Name.lastPart "java.util.Map.Entry" = "Entry" := by
  intro scope more
  have hother : ¬EndsWith "com.acme.OtherEntry" "Entry" := mt Name.hasLast_iff.mpr (by decide)
  have hfirst : EndsWith "java.util.Map.Entry" "Entry" := ⟨"java.util.Map", rfl⟩
  have hbehind : ["java.util.List"].Sublist ["org.Entry", "java.util.List"] := by decide
  have hinsertion : Insertion "Entry" scope.imports more := .other hother (.behind hfirst hbehind)
  have hfound : scope.resolve "Entry" = "java.util.Map.Entry" := by decide +kernel
  obtain ⟨-, hpath, -, -, hmore⟩ := resolve_settled scope "Entry"
  rw [hfound] at hpath hmore
  exact ⟨hinsertion, hmore more hinsertion, (hpath.resolve_left (by decide)).2⟩

end ImportScope

end JavaSignatures
