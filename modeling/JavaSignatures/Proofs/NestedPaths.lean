import JavaSignatures.Proofs.MethodNames
import JavaSignatures.Proofs.NameAgreement

set_option autoImplicit false

/-!
# Dotted names of nested declarations

A dotted name that begins with a type is a path of nested declarations, and its qualified form has
`$` between any two of them (`Scope.nestedPath`).  A scope gives this form to every path whose first
part is the name of a nested declaration, and to every path of two parts; in any other path it
writes `$` once and keeps the periods behind it (`Scope.qualifyName_eq_nestedPath_iff`).
-/

namespace JavaSignatures

namespace Text

/-- The first two parts may be joined beforehand. -/
theorem intercalate_merge (separator first second : String) (parts : List String) :
    separator.intercalate (first :: second :: parts) =
      separator.intercalate ((first ++ separator ++ second) :: parts) := by
  rw [String.intercalate_cons_cons, String.intercalate_cons_append]

/-- A text is cut at the first separator. -/
theorem cut?_append {separator : Char} {before : List Char} (h : separator ∉ before)
    (after : List Char) :
    cut? (· == separator) (before ++ separator :: after) = some (before, after) := by
  have hother : ∀ c ∈ before, (c == separator) = false :=
    fun c hc => beq_eq_false_iff_ne.mpr fun e => h (e ▸ hc)
  exact cut?_append_cons hother (beq_self_eq_true separator) after

/-- Texts that end with the same part behind different separators are different. -/
theorem intercalate_ne_intercalate {separator other : String} (h : separator ≠ other)
    (hlength : separator.toList.length = other.toList.length) (first second : String)
    (parts others : List String) (last : String) :
    separator.intercalate (first :: (parts ++ [last])) ≠
      other.intercalate (second :: (others ++ [last])) := by
  intro heq
  rw [← List.cons_append, ← List.cons_append,
    String.intercalate_append_of_ne_nil (by simp) (by simp),
    String.intercalate_append_of_ne_nil (by simp) (by simp), String.intercalate_singleton] at heq
  have hlist := congrArg String.toList heq
  simp only [String.toList_append] at hlist
  have hends := List.append_cancel_right hlist
  exact h (String.toList_inj.mp (List.append_inj_right' hends hlength))

end Text

namespace Name

theorem period_not_mem_of_isSimple {name : String} (h : isSimple name = true) :
    '.' ∉ name.toList := by
  intro hmem
  rw [not_isSimple_of_mem hmem (by decide)] at h
  exact absurd h (by simp)

theorem nestedForm_append (first second : String) :
    nestedForm (first ++ second) = nestedForm first ++ nestedForm second := by
  simp [nestedForm, Text.onString, Text.replaceChar]

theorem nestedForm_of_period_not_mem {name : String} (h : '.' ∉ name.toList) :
    nestedForm name = name := by
  have hlist : ∀ text : List Char, '.' ∉ text → Text.replaceChar '.' ['$'] text = text := by
    intro text htext
    induction text with
    | nil => rfl
    | cons c rest ih =>
      rw [List.mem_cons, not_or] at htext
      have hc : (c == '.') = false := beq_eq_false_iff_ne.mpr (Ne.symm htext.1)
      rw [Text.replaceChar, List.flatMap_cons, ← Text.replaceChar, ih htext.2, hc]
      rfl
  rw [nestedForm, Text.onString, hlist _ h, String.ofList_toList]

/-- The nested form of a path has `$` at every place. -/
theorem nestedForm_intercalate {parts : List String} (h : ∀ part ∈ parts, '.' ∉ part.toList) :
    nestedForm (".".intercalate parts) = "$".intercalate parts := by
  induction parts with
  | nil => rfl
  | cons part rest ih =>
    obtain ⟨hpart, hrest⟩ := List.forall_mem_cons.mp h
    cases rest with
    | nil => exact nestedForm_of_period_not_mem hpart
    | cons next more =>
      rw [String.intercalate_cons_cons, nestedForm_append, nestedForm_append,
        nestedForm_of_period_not_mem hpart, ih hrest, String.intercalate_cons_cons]
      rfl

/-- A path is cut behind its first part. -/
theorem splitFirst?_intercalate {first : String} (hfirst : '.' ∉ first.toList) {parts : List String}
    (h : parts ≠ []) :
    splitFirst? (".".intercalate (first :: parts)) = some (first, ".".intercalate parts) := by
  have hlist : (".".intercalate (first :: parts)).toList =
      first.toList ++ '.' :: (".".intercalate parts).toList := by
    rw [String.intercalate_cons_of_ne_nil h]
    simp
  rw [splitFirst?, hlist, Text.cut?_append hfirst]
  simp only [Option.map_some, String.ofList_toList]

end Name

namespace Scope

variable {scope : Scope} {first second : String} {more : List String}

/-- The qualified form of a path of two parts. -/
def pathStart (scope : Scope) (first second : String) : String :=
  match scope.ownerOf? first with
  | some owner => owner.member first ++ "$" ++ second
  | none =>
    match if first == scope.root.name then scope.ownerOf? second else none with
    | some owner => owner.member second
    | none => scope.root.imports.resolve first ++ "$" ++ second

/-- The qualified form of a path, with `$` at every place behind the first two parts. -/
def nestedPath (scope : Scope) (first second : String) (more : List String) : String :=
  "$".intercalate (scope.pathStart first second :: more)

/-- A path that begins with the name of a nested declaration. -/
theorem qualifyPath_of_ownerOf? (hparts : ∀ part ∈ first :: second :: more, '.' ∉ part.toList)
    {owner : Declaration} (howner : scope.ownerOf? first = some owner) :
    scope.qualifyPath first (".".intercalate (second :: more)) =
      scope.nestedPath first second more := by
  have hpath : first ++ "." ++ ".".intercalate (second :: more) =
      ".".intercalate (first :: second :: more) := String.intercalate_cons_cons.symm
  rw [qualifyPath, howner, hpath, Name.nestedForm_intercalate hparts, nestedPath, pathStart, howner]
  calc owner.qualifiedName ++ "$" ++ "$".intercalate (first :: second :: more)
      = "$".intercalate (owner.qualifiedName :: first :: second :: more) :=
        String.intercalate_cons_cons.symm
    _ = "$".intercalate (owner.member first :: second :: more) := Text.intercalate_merge ..
    _ = "$".intercalate ((owner.member first ++ "$" ++ second) :: more) :=
        Text.intercalate_merge ..

/-- A path of two parts. -/
theorem qualifyPath_pair (hsecond : '.' ∉ second.toList)
    (howner : scope.ownerOf? first = none) :
    scope.qualifyPath first second = scope.nestedPath first second [] := by
  have hform := Name.nestedForm_of_period_not_mem hsecond
  cases hself : if first == scope.root.name then scope.ownerOf? second else none with
  | none =>
    simp only [qualifyPath, nestedPath, String.intercalate_singleton, pathStart, howner, hself]
  | some owner =>
    simp only [qualifyPath, nestedPath, String.intercalate_singleton, pathStart, howner, hself,
      hform]

/-- A longer path that begins with any other name. -/
theorem qualifyPath_of_ownerOf?_eq_none (howner : scope.ownerOf? first = none) {rest : String}
    (hrest : scope.ownerOf? rest = none) :
    scope.qualifyPath first rest = scope.root.imports.resolve first ++ "$" ++ rest := by
  rw [qualifyPath, howner, hrest, ite_self]

/-- A path of nested declarations is qualified with `$` at every place just if it has two parts or
begins with the name of a nested declaration.  Any other one keeps its periods from the second part
on. -/
theorem qualifyName_eq_nestedPath_iff (hroot : scope.root.NestsSimply)
    (hlexical : scope.lexical.NestsSimply) (hcapitalized : Name.isCapitalized first = true)
    (hparts : ∀ part ∈ first :: second :: more, Name.isSimple part = true) :
    let name := ".".intercalate (first :: second :: more)
    (scope.qualifyName name = scope.nestedPath first second more ↔
        more = [] ∨ (scope.ownerOf? first).isSome) ∧
      (more ≠ [] → scope.ownerOf? first = none →
        scope.qualifyName name =
          scope.root.imports.resolve first ++ "$" ++ ".".intercalate (second :: more)) := by
  intro name
  have hperiods : ∀ part ∈ first :: second :: more, '.' ∉ part.toList :=
    fun part hpart => Name.period_not_mem_of_isSimple (hparts part hpart)
  obtain ⟨hfirst, hbehind⟩ := List.forall_mem_cons.mp hperiods
  obtain ⟨hsecond, -⟩ := List.forall_mem_cons.mp hbehind
  have hsplit : Name.splitFirst? name = some (first, ".".intercalate (second :: more)) :=
    Name.splitFirst?_intercalate hfirst (by simp)
  have hpath : scope.qualifyName name =
      scope.qualifyPath first (".".intercalate (second :: more)) := by
    have hvoid : name ≠ "void" := by
      intro hname
      have hnone : Name.splitFirst? "void" = none := by decide
      rw [hname, hnone] at hsplit
      exact absurd hsplit (by simp)
    have hname := Source.ownerOf?_of_splitFirst? hroot hlexical hsplit
    rw [Source.qualifyName_of_ownerOf? hname hvoid, hsplit]
    exact if_pos hcapitalized
  rw [hpath]
  cases howner : scope.ownerOf? first with
  | some owner =>
    have hsame := qualifyPath_of_ownerOf? hperiods howner
    exact ⟨by simp [hsame], fun _ hnone => absurd hnone (by simp)⟩
  | none =>
    rcases List.eq_nil_or_concat' more with rfl | ⟨front, last, rfl⟩
    · have hsame := qualifyPath_pair hsecond howner
      exact ⟨by simp [hsame], fun hmore => absurd rfl hmore⟩
    · have hrest : scope.ownerOf? (".".intercalate (second :: (front ++ [last]))) = none :=
        Source.ownerOf?_of_splitFirst? hroot hlexical
          (Name.splitFirst?_intercalate hsecond (by simp))
      have hvalue := qualifyPath_of_ownerOf?_eq_none howner hrest
      -- the last part stands behind a period here and behind `$` in the nested path
      have hne : scope.root.imports.resolve first ++ "$" ++
          ".".intercalate (second :: (front ++ [last])) ≠
            scope.nestedPath first second (front ++ [last]) := by
        have hmarks : "." ≠ "$" := by decide
        rw [← String.intercalate_cons_append]
        exact Text.intercalate_ne_intercalate hmarks rfl _ _ front front last
      rw [hvalue]
      exact ⟨by simp [hne], fun _ _ => rfl⟩

/-- A method of a class with an import and a nested class. -/
def gatewayScope : Scope :=
  let gateway : Declaration :=
    { name := "Gateway", qualifiedName := "com.acme.Gateway"
      imports := { package := some "com.acme", imports := ["java.util.Map"] }
      nested := [{ name := "Inner", qualifiedName := "com.acme.Gateway.Inner" }] }
  { root := gateway, lexical := gateway, method := { name := "m" } }

theorem nestsSimply_gatewayScope : gatewayScope.root.NestsSimply := by
  intro inner hinner
  obtain rfl := List.mem_singleton.mp hinner
  decide

/-- Paths of three parts: in a nested class, in an imported class and behind the class itself. -/
theorem qualifyName_eq_nestedPath_gatewayScope :
    gatewayScope.qualifyName "Inner.Deep.Deeper" = "com.acme.Gateway$Inner$Deep$Deeper" ∧
      gatewayScope.qualifyName "Map.Entry.Key" = "java.util.Map$Entry.Key" ∧
      gatewayScope.qualifyName "Gateway.Inner.Deep" = "com.acme.Gateway$Inner.Deep" := by
  have hinner := (@qualifyName_eq_nestedPath_iff gatewayScope "Inner" "Deep" ["Deeper"]
    nestsSimply_gatewayScope nestsSimply_gatewayScope (by decide) (by decide)).1.mpr
      (Or.inr (by decide))
  have hmap := (@qualifyName_eq_nestedPath_iff gatewayScope "Map" "Entry" ["Key"]
    nestsSimply_gatewayScope nestsSimply_gatewayScope (by decide) (by decide)).2
      (by simp) (by decide)
  have hself := (@qualifyName_eq_nestedPath_iff gatewayScope "Gateway" "Inner" ["Deep"]
    nestsSimply_gatewayScope nestsSimply_gatewayScope (by decide) (by decide)).2
      (by simp) (by decide)
  exact ⟨hinner.trans (by decide), hmap.trans (by decide), hself.trans (by decide)⟩

/-- Not every path is qualified with `$` at every place. -/
theorem exists_qualifyName_ne_nestedPath :
    ¬∀ (scope : Scope) (first second : String) (more : List String),
      scope.root.NestsSimply → scope.lexical.NestsSimply → Name.isCapitalized first = true →
      (∀ part ∈ first :: second :: more, Name.isSimple part = true) →
      scope.qualifyName (".".intercalate (first :: second :: more)) =
        scope.nestedPath first second more := by
  intro h
  have hmap := h gatewayScope "Map" "Entry" ["Key"] nestsSimply_gatewayScope
    nestsSimply_gatewayScope (by decide) (by decide)
  have hcode : gatewayScope.qualifyName (".".intercalate ["Map", "Entry", "Key"]) =
      "java.util.Map$Entry.Key" := by
    decide
  have hform : gatewayScope.nestedPath "Map" "Entry" ["Key"] = "java.util.Map$Entry$Key" := by
    decide
  rw [hcode, hform] at hmap
  exact absurd hmap (by decide)

end Scope

end JavaSignatures
