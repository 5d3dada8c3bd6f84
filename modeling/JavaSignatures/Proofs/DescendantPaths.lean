import JavaSignatures.Proofs.NestedPaths

set_option autoImplicit false

/-!
# Paths to nested declarations

What a declaration finds for a path, for every tree of declarations and every text of a path.  The
names of the path are what stands between its `$` marks (`IsPath`), however many marks there are
(`pathNames_eq_iff`), and following them inwards leads to the declaration that
`Declaration.Reaches` describes.  The one exception is a path of two names or more that begins with
the name of the declaration it starts from (`Declaration.find?_eq_some_iff`).
-/

namespace JavaSignatures

/-! ## Names in a path -/

/-- A name that a path can hold: it is not empty and has no `$` in it. -/
def IsPathName (name : String) : Prop := name ≠ "" ∧ '$' ∉ name.toList

instance (name : String) : Decidable (IsPathName name) :=
  inferInstanceAs (Decidable (_ ∧ _))

/-- The text consists of the names in order, with one `$` or more between them and any number of
`$` in front of the first and behind the last. -/
inductive IsPath : List String → List Char → Prop
  | empty : IsPath [] []
  | mark {names : List String} {text : List Char} : IsPath names text → IsPath names ('$' :: text)
  | last (name : String) : IsPath [name] name.toList
  | name (name : String) {names : List String} {text : List Char} :
      IsPath names text → IsPath (name :: names) (name.toList ++ '$' :: text)

/-- The names with one `$` between them. -/
theorem isPath_intercalate (names : List String) : IsPath names ("$".intercalate names).toList := by
  induction names with
  | nil => exact .empty
  | cons name rest ih =>
    cases rest with
    | nil => exact .last name
    | cons next rest =>
      have htext : ("$".intercalate (name :: next :: rest)).toList =
          name.toList ++ '$' :: ("$".intercalate (next :: rest)).toList := by
        simp
      rw [htext]
      exact .name name ih

/-- The names between the marks of a text. -/
def namesBetween (text : List Char) : List String :=
  ((text.splitOn '$').filter fun part => !part.isEmpty).map String.ofList

theorem pathNames_eq_namesBetween (path : String) :
    Declaration.pathNames path = namesBetween path.toList := rfl

theorem namesBetween_mark (text : List Char) : namesBetween ('$' :: text) = namesBetween text := by
  simp [namesBetween, List.splitOn_cons_eq_if_modifyHead]

theorem namesBetween_name {name : String} (h : IsPathName name) (text : List Char) :
    namesBetween (name.toList ++ '$' :: text) = name :: namesBetween text := by
  have hne : name.toList ≠ [] := by simpa using h.1
  rw [namesBetween, List.splitOn_append_cons_self, List.splitOn_eq_singleton h.2]
  simp [namesBetween, hne]

theorem namesBetween_last {name : String} (h : IsPathName name) :
    namesBetween name.toList = [name] := by
  have hne : name.toList ≠ [] := by simpa using h.1
  rw [namesBetween, List.splitOn_eq_singleton h.2]
  simp [hne]

theorem IsPath.namesBetween_eq {names : List String} {text : List Char} (h : IsPath names text)
    (hnames : ∀ name ∈ names, IsPathName name) : namesBetween text = names := by
  induction h with
  | empty => rfl
  | mark _ ih => rw [namesBetween_mark, ih hnames]
  | last name => exact namesBetween_last (hnames name (by simp))
  | name name _ ih =>
    obtain ⟨hname, hrest⟩ := List.forall_mem_cons.mp hnames
    rw [namesBetween_name hname, ih hrest]

/-- Every text is a path of the names that it has between its marks. -/
theorem isPath_namesBetween (text : List Char) :
    IsPath (namesBetween text) text ∧ ∀ name ∈ namesBetween text, IsPathName name := by
  -- the recursion goes on behind the first mark, so the induction is on the length of the text
  induction hlength : text.length using Nat.strongRecOn generalizing text with
  | ind length ih =>
    by_cases hmark : '$' ∈ text
    · obtain ⟨front, rest, rfl, hfront⟩ := List.eq_append_cons_of_mem hmark
      obtain ⟨hpath, hnames⟩ := ih rest.length (by simp [← hlength]; omega) rest rfl
      cases front with
      | nil =>
        rw [List.nil_append, namesBetween_mark]
        exact ⟨.mark hpath, hnames⟩
      | cons c front =>
        have hname : IsPathName (String.ofList (c :: front)) :=
          ⟨by simp [← String.toList_inj], by simpa using hfront⟩
        have hcons := namesBetween_name hname rest
        have hpath' := IsPath.name (String.ofList (c :: front)) hpath
        rw [String.toList_ofList] at hcons hpath'
        rw [hcons]
        exact ⟨hpath', List.forall_mem_cons.mpr ⟨hname, hnames⟩⟩
    · cases text with
      | nil => exact ⟨.empty, by simp [namesBetween]⟩
      | cons c rest =>
        have hname : IsPathName (String.ofList (c :: rest)) :=
          ⟨by simp [← String.toList_inj], by simpa using hmark⟩
        have hlast := namesBetween_last hname
        have hpath := IsPath.last (String.ofList (c :: rest))
        rw [String.toList_ofList] at hlast hpath
        rw [hlast]
        exact ⟨hpath, by simpa using hname⟩

/-- The names of a path are the only ones that it consists of. -/
theorem pathNames_eq_iff {path : String} {names : List String} :
    Declaration.pathNames path = names ↔
      IsPath names path.toList ∧ ∀ name ∈ names, IsPathName name := by
  rw [pathNames_eq_namesBetween]
  constructor
  · rintro rfl
    exact isPath_namesBetween path.toList
  · rintro ⟨hpath, hnames⟩
    exact hpath.namesBetween_eq hnames

namespace Declaration

/-! ## Descendants -/

/-- The declaration is the first one with the name in the list. -/
def IsFirstNamed (declarations : List Declaration) (name : String) (declaration : Declaration) :
    Prop :=
  ∃ before after, declarations = before ++ declaration :: after ∧ declaration.name = name ∧
    ∀ other ∈ before, other.name ≠ name

/-- The names lead from the declaration inwards to the other one, each of them to the first nested
declaration that has it. -/
inductive Reaches : Declaration → List String → Declaration → Prop
  | self (declaration : Declaration) : Reaches declaration [] declaration
  | inwards {outer inner declaration : Declaration} {name : String} {names : List String} :
      IsFirstNamed outer.nested name inner → Reaches inner names declaration →
        Reaches outer (name :: names) declaration

theorem IsFirstNamed.mem {declarations : List Declaration} {name : String}
    {declaration : Declaration} (h : IsFirstNamed declarations name declaration) :
    declaration ∈ declarations := by
  obtain ⟨before, after, rfl, -, -⟩ := h
  simp

theorem IsFirstNamed.name_eq {declarations : List Declaration} {name : String}
    {declaration : Declaration} (h : IsFirstNamed declarations name declaration) :
    declaration.name = name := by
  obtain ⟨before, after, -, hname, -⟩ := h
  exact hname

theorem nested?_eq_some_iff {outer inner : Declaration} {name : String} :
    outer.nested? name = some inner ↔ IsFirstNamed outer.nested name inner := by
  rw [nested?, List.find?_eq_some_iff_append, IsFirstNamed]
  constructor
  · rintro ⟨hname, before, after, hnested, hbefore⟩
    exact ⟨before, after, hnested, eq_of_beq hname, by simpa using hbefore⟩
  · rintro ⟨before, after, hnested, hname, hbefore⟩
    exact ⟨by simpa using hname, before, after, hnested, by simpa using hbefore⟩

theorem hasNested_eq_false_iff {declaration : Declaration} {name : String} :
    declaration.hasNested name = false ↔ ∀ inner ∈ declaration.nested, inner.name ≠ name := by
  simp [hasNested, nested?]

theorem descend?_eq_some_iff {outer declaration : Declaration} {names : List String} :
    outer.descend? names = some declaration ↔ Reaches outer names declaration := by
  induction names generalizing outer with
  | nil =>
    constructor
    · intro h
      obtain rfl := Option.some.inj h
      exact .self outer
    · intro h
      cases h with
      | self => rfl
  | cons name names ih =>
    rw [descend?_cons, Option.bind_eq_some_iff]
    constructor
    · rintro ⟨inner, hinner, hrest⟩
      exact .inwards (nested?_eq_some_iff.mp hinner) (ih.mp hrest)
    · intro h
      cases h with
      | inwards hinner hrest => exact ⟨_, nested?_eq_some_iff.mpr hinner, ih.mpr hrest⟩

/-- What names lead to is smaller than where they start from. -/
theorem Reaches.sizeOf_le {outer declaration : Declaration} {names : List String}
    (h : Reaches outer names declaration) :
    sizeOf declaration + names.length ≤ sizeOf outer := by
  induction h with
  | self declaration => simp
  | @inwards outer inner declaration name names hinner _ ih =>
    have hmem : sizeOf inner < sizeOf outer.nested := List.sizeOf_lt_of_mem hinner.mem
    have hfield : sizeOf outer.nested < sizeOf outer := by
      cases outer
      simp
      omega
    simp only [List.length_cons]
    omega

theorem Reaches.ne {outer declaration : Declaration} {names : List String}
    (h : Reaches outer names declaration) (hnames : names ≠ []) : declaration ≠ outer := by
  rintro rfl
  have hsize := h.sizeOf_le
  have hlength : 0 < names.length := List.length_pos_iff.mpr hnames
  omega

/-! ## What is found -/

/-- The names of a path lead to what is found for it: all of them, or all but the first if that is
the name of the declaration itself, of no nested one, and not the only name. -/
theorem find?_eq_some_iff {root declaration : Declaration} {path : String} :
    root.find? path = some declaration ↔
      (pathNames path ≠ [] ∧ Reaches root (pathNames path) declaration) ∨
        ∃ names, names ≠ [] ∧ pathNames path = root.name :: names ∧
          (∀ inner ∈ root.nested, inner.name ≠ root.name) ∧ Reaches root names declaration := by
  rw [find?]
  match hnames : pathNames path with
  | [] => simp
  | [name] =>
    have hone : root.nested? name = root.descend? [name] := by
      rw [descend?_cons]
      cases root.nested? name <;> rfl
    simp [hone, descend?_eq_some_iff]
  | first :: second :: names =>
    by_cases hskip : first = root.name ∧ root.hasNested first = false
    · obtain ⟨rfl, hnested⟩ := hskip
      have hnone := hasNested_eq_false_iff.mp hnested
      have hall : ¬Reaches root (root.name :: second :: names) declaration := by
        intro h
        cases h with
        | inwards hinner _ => exact hnone _ hinner.mem hinner.name_eq
      have hself : root.descend? (second :: names) = some declaration ↔
          ∃ names', names' ≠ [] ∧ root.name :: second :: names = root.name :: names' ∧
            (∀ inner ∈ root.nested, inner.name ≠ root.name) ∧ Reaches root names' declaration := by
        rw [descend?_eq_some_iff]
        constructor
        · intro h
          exact ⟨second :: names, by simp, rfl, hnone, h⟩
        · rintro ⟨names', -, heq, -, h⟩
          rwa [(List.cons.inj heq).2]
      simp [hnested, hall, hself]
    · have hcond : (first == root.name && !root.hasNested first) = false := by
        simpa [Bool.and_eq_false_iff, or_iff_not_imp_left] using hskip
      have hother : ¬∃ names', names' ≠ [] ∧ first :: second :: names = root.name :: names' ∧
          (∀ inner ∈ root.nested, inner.name ≠ root.name) ∧ Reaches root names' declaration := by
        rintro ⟨names', -, hcons, hnone, -⟩
        obtain ⟨rfl, -⟩ := List.cons.inj hcons
        exact hskip ⟨rfl, hasNested_eq_false_iff.mpr hnone⟩
      simp only [hcond, Bool.false_eq_true, if_false, hother, or_false, ne_eq, reduceCtorEq,
        not_false_eq_true, true_and]
      exact descend?_eq_some_iff

/-- Paths address the descendants of a declaration and nothing else.  Names that lead to a
descendant find it, with one `$` between them or with any more in front, between and behind, and
also behind the name of the declaration itself if that is a name for a path and no nested
declaration has it.  What is found is what the names in the path lead to, or those behind the first
of several if that is the name of the declaration and of no nested one; it is never the declaration
itself, and a path without a name finds nothing. -/
theorem find?_addresses_descendants (root : Declaration) :
    (∀ names declaration, names ≠ [] → (∀ name ∈ names, IsPathName name) →
      Reaches root names declaration →
        root.find? ("$".intercalate names) = some declaration ∧
        (∀ path : String, IsPath names path.toList → root.find? path = some declaration) ∧
        (IsPathName root.name → (∀ inner ∈ root.nested, inner.name ≠ root.name) →
          ∀ path : String, IsPath names path.toList →
            root.find? (root.name ++ "$" ++ path) = some declaration)) ∧
    (∀ path declaration, root.find? path = some declaration →
      declaration ≠ root ∧
        ∃ names, names ≠ [] ∧ IsPath names path.toList ∧ (∀ name ∈ names, IsPathName name) ∧
          (Reaches root names declaration ∨
            ∃ rest, rest ≠ [] ∧ names = root.name :: rest ∧
              (∀ inner ∈ root.nested, inner.name ≠ root.name) ∧ Reaches root rest declaration)) ∧
    ∀ path : String, IsPath [] path.toList → root.find? path = none := by
  refine ⟨?_, ?_, ?_⟩
  · intro names declaration hne hnames hreaches
    have hfound : ∀ path : String, IsPath names path.toList →
        root.find? path = some declaration := by
      intro path hpath
      have heq : pathNames path = names := pathNames_eq_iff.mpr ⟨hpath, hnames⟩
      exact find?_eq_some_iff.mpr (.inl ⟨by rwa [heq], by rwa [heq]⟩)
    refine ⟨hfound _ (isPath_intercalate names), hfound, ?_⟩
    intro hroot hnone path hpath
    have hprefixed : IsPath (root.name :: names) (root.name ++ "$" ++ path).toList := by
      have htext : (root.name ++ "$" ++ path).toList = root.name.toList ++ '$' :: path.toList := by
        simp
      rw [htext]
      exact .name root.name hpath
    have heq : pathNames (root.name ++ "$" ++ path) = root.name :: names :=
      pathNames_eq_iff.mpr ⟨hprefixed, List.forall_mem_cons.mpr ⟨hroot, hnames⟩⟩
    exact find?_eq_some_iff.mpr (.inr ⟨names, hne, heq, hnone, hreaches⟩)
  · intro path declaration hfound
    obtain ⟨hpath, hnames⟩ := pathNames_eq_iff.mp (rfl : pathNames path = pathNames path)
    rcases find?_eq_some_iff.mp hfound with ⟨hne, hreaches⟩ | ⟨rest, hrest, heq, hnone, hreaches⟩
    · exact ⟨hreaches.ne hne, pathNames path, hne, hpath, hnames, .inl hreaches⟩
    · refine ⟨hreaches.ne hrest, pathNames path, by simp [heq], hpath, hnames, ?_⟩
      exact .inr ⟨rest, hrest, heq, hnone, hreaches⟩
  · intro path hpath
    have hnames : pathNames path = [] := pathNames_eq_iff.mpr ⟨hpath, by simp⟩
    simp [find?, hnames]

/-- Of two nested classes of one name the first is found, in a path with the root's name and with
marks that nothing stands between. -/
theorem find?_addresses_first_named :
    let inner : Declaration := { name := "C", qualifiedName := "A$B$C" }
    let first : Declaration := { name := "B", qualifiedName := "A$B", nested := [inner] }
    let root : Declaration :=
      { name := "A", qualifiedName := "A",
        nested := [first, { name := "B", qualifiedName := "A$B" }] }
    IsPathName "A" ∧ Reaches root ["B", "C"] inner ∧
      root.find? "B$C" = some inner ∧ root.find? "A$$B$C$" = some inner := by
  intro inner first root
  have hfirst : IsFirstNamed root.nested "B" first :=
    ⟨[], [{ name := "B", qualifiedName := "A$B" }], rfl, rfl, by simp⟩
  have hinner : IsFirstNamed first.nested "C" inner := ⟨[], [], rfl, rfl, by simp⟩
  have hreaches : Reaches root ["B", "C"] inner := .inwards hfirst (.inwards hinner (.self inner))
  have hnone : ∀ declaration ∈ root.nested, declaration.name ≠ root.name := by simp [root, first]
  have hpath : IsPath ["B", "C"] "$B$C$".toList :=
    .mark (.name "B" (.name "C" .empty))
  obtain ⟨hplain, -, hprefixed⟩ := (find?_addresses_descendants root).1 ["B", "C"] inner (by simp)
    (by decide) hreaches
  exact ⟨by decide, hreaches, hplain, hprefixed (by decide) hnone "$B$C$" hpath⟩

end Declaration

end JavaSignatures
