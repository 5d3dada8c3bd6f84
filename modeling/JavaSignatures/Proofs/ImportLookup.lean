import JavaSignatures.Import

set_option autoImplicit false

/-!
# What imports make of a name

What the imports of a file make of a name is the name itself or a path that ends with a period and
the name (`ImportScope.resolve_eq_or`).  It is the name itself exactly if no import, no package and
nothing that is known without an import qualifies it (`ImportScope.resolve_eq_self_iff`).
-/

namespace JavaSignatures

namespace Name

variable {path name : String}

/-- The path ends with a period and the name. -/
def EndsWith (path name : String) : Prop := ∃ front, path = front ++ "." ++ name

theorem hasLast_iff : hasLast path name = true ↔ EndsWith path name := by
  rw [hasLast, List.isSuffixOf_iff_suffix]
  constructor
  · rintro ⟨front, hfront⟩
    refine ⟨String.ofList front, ?_⟩
    rw [← String.toList_inj, ← hfront]
    simp
  · rintro ⟨front, rfl⟩
    exact ⟨front.toList, by simp⟩

theorem EndsWith.ne (h : EndsWith path name) : path ≠ name := by
  rintro rfl
  have hlength := (List.isSuffixOf_iff_suffix.mp (hasLast_iff.mpr h)).length_le
  rw [List.length_cons] at hlength
  omega

end Name

namespace ImportScope

/-- A name is left alone, or something with a period is put in front of it. -/
theorem resolve_eq_or (imports : ImportScope) (name : String) :
    imports.resolve name = name ∨ Name.EndsWith (imports.resolve name) name := by
  unfold resolve
  split
  · exact Or.inl rfl
  · split
    · next path hpath =>
      have hlast : Name.hasLast path name = true := by simpa using List.find?_some hpath
      exact Or.inr (Name.hasLast_iff.mp hlast)
    · split
      · exact Or.inr ⟨"java.lang", rfl⟩
      · unfold inPackage
        split
        · exact Or.inl rfl
        · next package _ =>
          split
          · exact Or.inl rfl
          · exact Or.inr ⟨package, rfl⟩

/-- The imports make nothing else of the name: it is a type of the language itself or no identifier,
or no import ends with it, the implicit package does not have it and the file has no package. -/
def leavesAlone (imports : ImportScope) (name : String) : Bool :=
  primitives.contains name || !Name.isSimple name ||
    imports.imports.all (fun path => !Name.hasLast path name) && !implicitTypes.contains name &&
      imports.package.all String.isEmpty

theorem inPackage_eq_self_iff {imports : ImportScope} {name : String} :
    imports.inPackage name = name ↔ imports.package.all String.isEmpty = true := by
  unfold inPackage
  cases imports.package with
  | none => simp
  | some package =>
    have hne : package ++ "." ++ name ≠ name := Name.EndsWith.ne ⟨package, rfl⟩
    cases hempty : package.isEmpty <;> simp [hempty, hne]

theorem resolve_eq_self_iff {imports : ImportScope} {name : String} :
    imports.resolve name = name ↔ imports.leavesAlone name = true := by
  unfold resolve leavesAlone
  cases hfixed : primitives.contains name || !Name.isSimple name with
  | true => simp
  | false =>
    rw [if_neg Bool.false_ne_true, Bool.false_or]
    cases hpath : imports.imports.find? fun path => Name.hasLast path name with
    | some path =>
      have hlast : Name.hasLast path name = true := by simpa using List.find?_some hpath
      have hall : (imports.imports.all fun path => !Name.hasLast path name) = false :=
        List.all_eq_false.mpr ⟨path, List.mem_of_find?_eq_some hpath, by simp [hlast]⟩
      simp [hall, (Name.hasLast_iff.mp hlast).ne]
    | none =>
      have hall : (imports.imports.all fun path => !Name.hasLast path name) = true := by
        simpa using hpath
      have himplicit : Name.implicitPackage ++ name ≠ name :=
        Name.EndsWith.ne ⟨"java.lang", rfl⟩
      cases hknown : implicitTypes.contains name with
      | true => simp [himplicit]
      | false => simp [hall, inPackage_eq_self_iff]

end ImportScope

end JavaSignatures
