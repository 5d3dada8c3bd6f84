import JavaSignatures.Proofs.Extents
import JavaSignatures.Proofs.Grammar.Descent
import JavaSignatures.Signature

set_option autoImplicit false

/-!
# The members of every declaration

Each declaration that simple names lead to is read of what is written at that place of the file:
its nested declarations and its methods are its members, in order, its imports are those of the
file, and its qualified name is the path to it behind the package.  The signatures made of it are
those of its public methods, and in an interface of all methods
(`Grammar.FileSyntax.members_of_descend?`).
-/

namespace JavaSignatures

/-- What stands in front of the names of the declarations of a file. -/
def ImportScope.packagePrefix (scope : ImportScope) : String :=
  match scope.package with
  | none => ""
  | some package => package ++ "."

theorem ImportScope.inPackage_eq {scope : ImportScope}
    (h : ∀ package ∈ scope.package, package.isEmpty = false) (name : String) :
    scope.inPackage name = scope.packagePrefix ++ name := by
  unfold inPackage packagePrefix
  cases hpackage : scope.package with
  | none => exact (String.empty_append).symm
  | some package =>
    dsimp only
    rw [h package hpackage, if_neg Bool.false_ne_true]

/-- The signatures of a declaration are those of its methods that are no constructors and are public
or, in an interface, of any access. -/
theorem Signature.mem_ofTarget_iff {style : Style} {outer target : Declaration}
    {signature : Signature} :
    signature ∈ ofTarget style outer target ↔
      ∃ method ∈ target.methods, method.isConstructor = false ∧
        (target.kind = .interfaceKind ∨ method.visibility = .publicAccess) ∧
        ofMethod style outer target method = signature := by
  simp only [mem_ofTarget, DeclarationKind.accepts, Bool.and_eq_true, Bool.not_eq_true',
    Bool.or_eq_true, beq_iff_eq, and_assoc]

namespace Source

/-- A token of a source text is spelled. -/
theorem Token.text_ne_nil_of_mem_ofSource {source : List Char} {token : Token}
    (h : token ∈ ofSource source) : token.lexeme.text ≠ [] := by
  obtain ⟨c, more, -, -, htext⟩ := Lexeme.exists_extent_of_mem_lexemes (mem_ofLexemesAfter h)
  rw [htext]
  exact List.cons_ne_nil c more

namespace Grammar.FileSyntax

variable {file : FileSyntax} {source : String} (h : file.IsWrittenAs source)

include h

/-- A package has a name. -/
theorem package_ne_empty : ∀ package ∈ file.scope.package, package.isEmpty = false := by
  intro package hpackage
  obtain ⟨item, hitem, hname⟩ := List.exists_of_findSome?_eq_some hpackage
  cases item with
  | package annotations gap name behind =>
    obtain rfl := Option.some.inj hname
    have htree : name.first.tree ∈ file.trees := by
      refine List.mem_flatMap.mpr ⟨_, hitem, ?_⟩
      simp [Item.trees, Item.packageTrees, Name.trees, Name.tokens, Word.tree]
    have htoken : name.first.token ∈ Token.ofSource source.toList := by
      rw [h]
      exact Tree.mem_tokensOf_of_mem htree (List.mem_singleton_self _)
    have htext := Token.text_ne_nil_of_mem_ofSource htoken
    obtain ⟨c, more, hfirst⟩ := List.exists_cons_of_ne_nil htext
    rw [Name.text, Name.tokens, Token.spell, hfirst]
    simp
  | _ => exact absurd hname (by simp [Item.package?])

/-- A declaration that simple names lead to is read of what is written there: its members in order,
the imports of the file, and the path to it behind the package as its qualified name.  Its
signatures are those of its methods that are no constructors and are public or, in an interface, of
any access. -/
theorem members_of_descend? {root found : Declaration} {names : List String}
    (hroot : parse source = .ok root) (hfound : root.descend? names = some found) :
    ∃ main written, file.main? = some main ∧ main.descend? names = some written ∧
      IsReadOf main root ∧ IsReadOf written found ∧
      found.imports = root.imports ∧ root.imports = file.scope ∧
      found.qualifiedName = file.scope.packagePrefix ++ ".".intercalate (root.name :: names) ∧
      ∀ (style : Style) (outer : Declaration) (signature : Signature),
        signature ∈ Signature.ofTarget style outer found ↔
          ∃ method ∈ found.methods, method.isConstructor = false ∧
            (found.kind = .interfaceKind ∨ method.visibility = .publicAccess) ∧
            Signature.ofMethod style outer found method = signature := by
  obtain ⟨main, written, hmain, rfl, hwritten, hread, himports, hpath⟩ :=
    exists_written h hroot hfound
  have hqualified : (main.outline.declare { imports := file.scope } none).qualifiedName =
      file.scope.packagePrefix ++
        (main.outline.declare { imports := file.scope } none).name :=
    ImportScope.inPackage_eq (package_ne_empty h) _
  refine ⟨main, written, hmain, hwritten, isReadOf_declare main _ _, hread, himports, rfl, ?_,
    fun _ _ _ => Signature.mem_ofTarget_iff⟩
  rw [hpath, hqualified, String.intercalate_cons_append]

omit h

/-! ### An interface inside of an enum -/

section Sample

open Lexeme (space)

/-- The heads in a file with declarations inside of declarations. -/
def orderHead (kind : DeclarationKind) (name : String) : DeclarationSyntax where
  gap := [space]
  kind := kind
  name := .spaced name

/-- Braces with a space between them. -/
def emptyBody : Enclosure .inside where
  before := [space]
  behind := [space]

/-- A type of one word behind a space. -/
def wordType (word : String) (hword : (Word.spaced word).name ∉ noTypeWords) : TypeSyntax where
  name := { word := .spaced word, hword := hword }

/-- The constants of an enum. -/
def orderConstants : Enclosure .value where
  before := [space]
  inner := [(Word.spaced "X").tree, .leaf (Token.mark [] ','), (Word.spaced "Y").tree]
  row := .leaf (fun _ _ => rfl) (.leaf (by decide) (.leaf (fun _ _ => rfl) (.nil _)))

/-- A private method. -/
def orderPrivate : Callable :=
  .method
    { modifiers := [.keyword (.spaced "private") (by decide)]
      result := wordType "void" (by decide)
      name := .spaced "j" }

/-- The members of an interface: methods without and with a body, and a class. -/
def orderInner : List Member :=
  [.bodiless { result := wordType "int" (by decide), name := .spaced "i" } [],
    .callable orderPrivate emptyBody,
    .type (orderHead .classKind "K") [space] [] [space] (by decide)]

/-- The members of an enum behind its constants. -/
def orderMembers : List Member :=
  [.callable (.constructor
      { name := .spaced "E"
        parameters := { items := some (.single []
          { name := { word := ⟨[], "int".toList⟩, hword := by decide } } (.spaced "n") []
            (by decide), []) }
        hname := by decide }) emptyBody,
    .callable (.method { result := wordType "void" (by decide), name := .spaced "e" }) emptyBody,
    .type (orderHead .interfaceKind "I") [space] orderInner [space] (by decide)]

/-- A class with an enum with an interface. -/
def orderFile : FileSyntax where
  items :=
    [.package [] [] ⟨.spaced "p", [([], ⟨[], "q".toList⟩)]⟩ [],
      .member (.type (orderHead .classKind "A") [space]
        [.callable (.constructor { name := .spaced "A", hname := by decide }) emptyBody,
          .enumeration (orderHead .enumKind "E") orderConstants orderMembers [space] rfl]
        [space] (by decide))]

/-- How the file is written. -/
def orderSource : String :=
  "package p.q; class A \x7b A() \x7b \x7d enum E \x7b X, Y; E(int n) \x7b \x7d" ++
    " void e() \x7b \x7d interface I \x7b int i(); private void j() \x7b \x7d" ++
    " class K \x7b \x7d \x7d \x7d \x7d"

/-- The members of the interface and of the enum around it, and the signature of a private method.
-/
theorem members_of_descend?_orderFile :
    orderFile.IsWrittenAs orderSource ∧ ∃ root outer found, parse orderSource = .ok root ∧
      root.descend? ["E"] = some outer ∧ root.descend? ["E", "I"] = some found ∧
      outer.methods.map (fun method => (method.name, method.isConstructor)) =
        [("E", true), ("e", false)] ∧
      found.qualifiedName = "p.q.A.E.I" ∧ found.methods.map (·.name) = ["i", "j"] ∧
      found.nested.map (·.name) = ["K"] ∧
      ∃ signature ∈ Signature.ofTarget {} root found, signature.methodName = "j" := by
  have hwritten : orderFile.IsWrittenAs orderSource := by decide +kernel
  have hshape : (parse orderSource).map (fun root =>
      (root.name, (root.descend? ["E"]).isSome, (root.descend? ["E", "I"]).isSome)) =
        .ok ("A", true, true) := by
    decide +kernel
  obtain ⟨root, hroot, hvalue⟩ := exists_parse_eq_of_map hshape
  obtain ⟨hname, hfound⟩ := Prod.mk.inj hvalue
  obtain ⟨houter, hinner⟩ := Prod.mk.inj hfound
  obtain ⟨outer, houter⟩ := Option.isSome_iff_exists.mp houter
  obtain ⟨found, hinner⟩ := Option.isSome_iff_exists.mp hinner
  obtain ⟨main, enum, hmain, henum, -, hread, -⟩ := members_of_descend? hwritten hroot houter
  obtain ⟨_, inner, hmain', hdescend, -, hread', -, -, hpath, hsignature⟩ :=
    members_of_descend? hwritten hroot hinner
  obtain rfl := Option.some.inj hmain
  obtain rfl := Option.some.inj hmain'
  obtain rfl := Option.some.inj henum
  obtain rfl := Option.some.inj hdescend
  have hprivate : orderPrivate.expr.method (.inside found) found.name ∈ found.methods := by
    rw [hread'.methods]
    exact List.mem_map_of_mem (List.mem_cons_of_mem _ (List.mem_singleton_self _))
  refine ⟨hwritten, root, outer, found, hroot, houter, hinner, ?_, ?_, ?_, ?_, ?_⟩
  · rw [hread.methods, hread.name]
    rfl
  · rw [hpath, hname]
    decide +kernel
  · rw [hread'.methods]
    rfl
  · rw [hread'.nested]
    rfl
  · exact ⟨_, (hsignature {} root _).mpr ⟨_, hprivate, rfl, Or.inl hread'.kind, rfl⟩, rfl⟩

end Sample

end Grammar.FileSyntax

end Source

end JavaSignatures
