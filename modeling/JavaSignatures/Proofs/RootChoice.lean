import JavaSignatures.Proofs.Grammar.Units

set_option autoImplicit false

/-!
# The declaration that a file is about

A source text can be read just if it declares a class, an interface, an enum or a record.  It is
then about the first of its declarations whose first keyword for access is `public`, or about the
first one if there is none, and what is declared behind that one does not matter
(`Grammar.FileSyntax.parse_main`).  A second keyword for access is passed over
(`Grammar.FileSyntax.not_parse_first_with_public`).
-/

namespace JavaSignatures.Source.Grammar

/-! ## Keywords for access -/

/-- `public` is among the modifiers of the declaration. -/
def DeclarationSyntax.includesPublic (head : DeclarationSyntax) : Bool :=
  (head.modifiers.filterMap Modifier.word?).contains "public"

/-- The keywords for access among modifiers. -/
def accessWords (modifiers : List Modifier) : List String :=
  (modifiers.filterMap Modifier.word?).filter fun word =>
    ["public", "protected", "private"].contains word

/-- With one keyword for access at most, a declaration is public just if `public` is among its
modifiers. -/
theorem DeclarationSyntax.isPublic_eq_includesPublic {head : DeclarationSyntax}
    (h : (accessWords head.modifiers).length ≤ 1) : head.isPublic = head.includesPublic := by
  have hfirst : accessOf? head.modifiers = (accessWords head.modifiers).head? :=
    (List.head?_filter ..).symm
  have hincludes : head.includesPublic = (accessWords head.modifiers).contains "public" := by
    rw [includesPublic, Bool.eq_iff_iff, List.contains_iff_mem, List.contains_iff_mem, accessWords,
      List.mem_filter]
    simp
  rw [isPublic, hfirst, hincludes]
  match accessWords head.modifiers, h with
  | [], _ => rfl
  | [word], _ =>
    by_cases hword : word = "public"
    · rw [hword]
      rfl
    · simp [hword, Ne.symm hword]

/-! ## The place of the declaration in the file -/

/-- The declarations among parts of a file. -/
def declarationsOf (items : List Item) : List Declared := items.filterMap Item.declared?

/-- The package clauses and the imports among parts of a file, as they are read. -/
def clausesOf (items : List Item) : List String × List String :=
  (items.filterMap Item.package?, items.filterMap Item.import?)

/-- Between these parts of a file the member is the declaration that the file is about: the first
one whose first keyword for access is `public`, or the first one if there is none. -/
structure IsMain (before : List Item) (member : Member) (main : Declared) (after : List Item) :
    Prop where
  declared : member.declared? = some main
  first : main.head.isPublic = true ∧
      (∀ other ∈ declarationsOf before, other.head.isPublic = false) ∨
    declarationsOf before = [] ∧
      ∀ other ∈ main :: declarationsOf after, other.head.isPublic = false

section IsMain

variable {before after : List Item} {member : Member} {main : Declared}

theorem declarationsOf_append_cons (h : member.declared? = some main) :
    declarationsOf (before ++ .member member :: after) =
      declarationsOf before ++ main :: declarationsOf after := by
  have hmember : (Item.member member).declared? = some main := h
  rw [declarationsOf, List.filterMap_append, List.filterMap_cons_some hmember]
  rfl

theorem IsMain.main?_eq (h : IsMain before member main after) :
    FileSyntax.main? ⟨before ++ .member member :: after⟩ = some main := by
  have hdeclarations : FileSyntax.declarations ⟨before ++ .member member :: after⟩ =
      declarationsOf before ++ main :: declarationsOf after := declarationsOf_append_cons h.declared
  rw [FileSyntax.main?, hdeclarations]
  rcases h.first with ⟨hpublic, hbefore⟩ | ⟨hnone, hplain⟩
  · have hfind : (declarationsOf before ++ main :: declarationsOf after).find?
        (fun declared => declared.head.isPublic) = some main := by
      refine List.find?_eq_some_iff_append.mpr ⟨hpublic, _, _, rfl, fun other hother => ?_⟩
      rw [hbefore other hother]
      rfl
    rw [hfind, Option.some_or]
  · have hfind : (main :: declarationsOf after).find? (fun declared => declared.head.isPublic) =
        none := List.find?_eq_none.mpr fun other hother => by simp [hplain other hother]
    rw [hnone, List.nil_append, hfind, Option.none_or, List.head?_cons]

/-- What is declared behind it can be exchanged, as long as no public declaration comes behind one
that is not. -/
theorem IsMain.exchange (h : IsMain before member main after) {others : List Item}
    (hothers : main.head.isPublic = false →
      ∀ other ∈ declarationsOf others, other.head.isPublic = false) :
    IsMain before member main others := by
  refine ⟨h.declared, ?_⟩
  rcases h.first with hpublic | ⟨hnone, hplain⟩
  · exact Or.inl hpublic
  · have hmain := hplain main (List.mem_cons_self ..)
    exact Or.inr ⟨hnone, List.forall_mem_cons.mpr ⟨hmain, hothers hmain⟩⟩

/-- A declaration of a file is a member somewhere in it. -/
theorem exists_member {items : List Item} {front rest : List Declared}
    (h : declarationsOf items = front ++ main :: rest) :
    ∃ before member after, items = before ++ .member member :: after ∧
      member.declared? = some main ∧ declarationsOf before = front ∧
        declarationsOf after = rest := by
  obtain ⟨first, second, rfl, hfirst, hsecond⟩ := List.filterMap_eq_append_iff.mp h
  obtain ⟨passed, item, after, rfl, hpassed, hitem, hafter⟩ := List.filterMap_eq_cons_iff.mp hsecond
  have hfront : declarationsOf (first ++ passed) = front := by
    rw [declarationsOf, List.filterMap_append, hfirst, List.filterMap_eq_nil_iff.mpr hpassed,
      List.append_nil]
  cases item with
  | member member =>
    exact ⟨first ++ passed, member, after, (List.append_assoc ..).symm, hitem, hfront, hafter⟩
  | _ => exact absurd hitem (by simp [Item.declared?])

theorem exists_isMain {file : FileSyntax} (h : file.main? = some main) :
    ∃ before member after, file.items = before ++ .member member :: after ∧
      IsMain before member main after := by
  rcases Option.or_eq_some_iff.mp h with hfind | ⟨hnone, hfirst⟩
  · obtain ⟨hpublic, front, rest, hsplit, hfront⟩ := List.find?_eq_some_iff_append.mp hfind
    obtain ⟨before, member, after, hitems, hmember, hbefore, -⟩ := exists_member hsplit
    refine ⟨before, member, after, hitems, hmember, Or.inl ⟨hpublic, fun other hother => ?_⟩⟩
    rw [hbefore] at hother
    simpa using hfront other hother
  · obtain ⟨rest, hrest⟩ := List.head?_eq_some_iff.mp hfirst
    have hsplit : declarationsOf file.items = [] ++ main :: rest := hrest
    obtain ⟨before, member, after, hitems, hmember, hbefore, hafter⟩ := exists_member hsplit
    refine ⟨before, member, after, hitems, hmember, Or.inr ⟨hbefore, fun other hother => ?_⟩⟩
    have hmem : other ∈ file.declarations := by
      rw [hrest, ← hafter]
      exact hother
    simpa using List.find?_eq_none.mp hnone other hmem

end IsMain

/-! ## What a file is about -/

namespace FileSyntax

/-- The package and the imports of a file are those of its clauses. -/
theorem scope_eq (file : FileSyntax) :
    file.scope = ⟨(clausesOf file.items).1.head?, (clausesOf file.items).2⟩ := by
  rw [scope, clausesOf, List.head?_filterMap]

theorem scope_eq_of_clausesOf {before after others : List Item} {item : Item}
    (h : clausesOf others = clausesOf after) :
    FileSyntax.scope ⟨before ++ item :: others⟩ = FileSyntax.scope ⟨before ++ item :: after⟩ := by
  obtain ⟨hpackage, himport⟩ := Prod.mk.inj h
  rw [scope_eq, scope_eq]
  simp only [clausesOf, List.filterMap_append, List.filterMap_cons, hpackage, himport]

theorem main?_eq_none_iff (file : FileSyntax) : file.main? = none ↔ file.declarations = [] := by
  rw [main?, Option.or_eq_none_iff, List.head?_eq_none_iff]
  refine ⟨fun h => h.2, fun h => ⟨?_, h⟩⟩
  rw [h]
  rfl

/-- A source text cannot be read just if it declares no class, interface, enum or record.  If it
does, it is about the first declaration whose first keyword for access is `public`, or the first
one if there is none; with one keyword for access at most, that keyword is `public` just if
`public` is among the modifiers.  What is read does not change if other declarations and comments
stand behind that declaration, none of them public unless it is. -/
theorem parse_main {file : FileSyntax} {source : String} (h : file.IsWrittenAs source) :
    (parse source = .error .noDeclaration ↔ file.declarations = []) ∧
      (∀ fault, parse source = .error fault →
        "Syntax error: ".toList <+: fault.message.toList) ∧
      (∀ other ∈ file.declarations, (accessWords other.head.modifiers).length ≤ 1 →
        other.head.isPublic = other.head.includesPublic) ∧
      (file.declarations ≠ [] → ∃ before member main after,
        file.items = before ++ .member member :: after ∧ IsMain before member main after) ∧
      ∀ before member main after, file.items = before ++ .member member :: after →
        IsMain before member main after →
        parse source = .ok (main.outline.declare { imports := file.scope } none) ∧
          ∀ (others : List Item) (text : String),
            IsWrittenAs ⟨before ++ .member member :: others⟩ text →
            clausesOf others = clausesOf after →
            (main.head.isPublic = false →
              ∀ other ∈ declarationsOf others, other.head.isPublic = false) →
            parse text = parse source := by
  refine ⟨?_, fun fault _ => ?_, fun other _ => DeclarationSyntax.isPublic_eq_includesPublic,
    fun hne => ?_, ?_⟩
  · rw [parse_eq h, ← file.main?_eq_none_iff]
    cases file.main? <;> simp
  · rw [Fault.message, String.toList_append]
    exact List.prefix_append ..
  · obtain ⟨main, hmain⟩ := Option.ne_none_iff_exists'.mp (mt file.main?_eq_none_iff.mp hne)
    obtain ⟨before, member, after, hitems, hplace⟩ := exists_isMain hmain
    exact ⟨before, member, main, after, hitems, hplace⟩
  · intro before member main after hitems hplace
    obtain rfl : file = ⟨before ++ .member member :: after⟩ := by rw [← hitems]
    have hparse : parse source = .ok (main.outline.declare
        { imports := FileSyntax.scope ⟨before ++ .member member :: after⟩ } none) := by
      rw [parse_eq h, hplace.main?_eq]
    refine ⟨hparse, fun others text hother hclauses hothers => ?_⟩
    rw [hparse, parse_eq hother, (hplace.exchange hothers).main?_eq,
      scope_eq_of_clausesOf hclauses]

/-! ### Files with several declarations -/

section Sample

open Lexeme (space)

/-- A class without members. -/
def emptyClass (modifiers : List Modifier) (gap : List Lexeme) (name : String) : Member :=
  .type { modifiers := modifiers, gap := gap, kind := .classKind, name := .spaced name } [space] []
    [space] (by simp)

/-- The parts of a file in front of a public class. -/
def choiceFront : List Item :=
  [.package [] [] ⟨.spaced "p", []⟩ [],
    .member (.annotationType { gap := [space], name := .spaced "M" }
      { before := [space], behind := [space] }),
    .member (emptyClass [] [space] "A")]

/-- A class with `public` behind an annotation. -/
def choiceMain : Member :=
  emptyClass
    [.note { gap := [space], name := ⟨⟨[], "M".toList⟩, []⟩, hname := by decide },
      .keyword (.spaced "public") (by decide)] [space] "B"

/-- An enum of one constant. -/
def choiceEnum : Member :=
  .constantsOnly { gap := [space], kind := .enumKind, name := .spaced "C" }
    { before := [space], inner := [(Word.spaced "X").tree], behind := [space]
      row := .leaf (fun _ _ => rfl) (.nil _) } rfl

/-- The public class is read whether an enum or a comment stands behind it. -/
theorem parse_main_choiceFront :
    let text := "package p; @interface M { } class A { } @M public class B { } // end"
    let more := "package p; @interface M { } class A { } @M public class B { } enum C { X }"
    IsWrittenAs ⟨choiceFront ++ [.member choiceMain]⟩ text ∧
      (parse text).map (·.qualifiedName) = .ok "p.B" ∧ parse more = parse text := by
  intro text more
  have htext : IsWrittenAs ⟨choiceFront ++ [.member choiceMain]⟩ text := by decide +kernel
  have hmore : IsWrittenAs ⟨choiceFront ++ .member choiceMain :: [.member choiceEnum]⟩ more := by
    decide +kernel
  obtain ⟨-, -, -, -, hmain⟩ := parse_main htext
  have hplace : IsMain choiceFront choiceMain _ [] := ⟨rfl, Or.inl ⟨by decide, by decide⟩⟩
  obtain ⟨hparse, hexchange⟩ := hmain _ _ _ _ rfl hplace
  refine ⟨htext, ?_, hexchange _ _ hmore rfl fun hpublic => absurd hpublic (by decide)⟩
  rw [hparse]
  decide +kernel

/-- A class, and one that is declared both protected and public. -/
def twiceFile : FileSyntax where
  items :=
    [.member (emptyClass [] [] "A"),
      .member (emptyClass
        [.keyword (.spaced "protected") (by decide), .keyword (.spaced "public") (by decide)]
        [space] "B")]

/-- A file need not be about the first declaration that has `public` among its modifiers. -/
theorem not_parse_first_with_public :
    ¬∀ (file : FileSyntax) (source : String), file.IsWrittenAs source → ∀ root,
      parse source = .ok root →
      ((file.declarations.find? fun declared => declared.head.includesPublic).or
        file.declarations.head?).map (fun declared => declared.head.name.name) =
          some root.name := by
  intro h
  have hwritten : twiceFile.IsWrittenAs "class A { } protected public class B { }" := by
    decide +kernel
  have hcode : (parse "class A { } protected public class B { }").map (·.name) = .ok "A" := by
    decide +kernel
  obtain ⟨root, hroot, hname⟩ := exists_parse_eq_of_map hcode
  have hfirst := h twiceFile _ hwritten root hroot
  rw [hname] at hfirst
  exact absurd hfirst (by decide +kernel)

end Sample

end FileSyntax

end JavaSignatures.Source.Grammar
