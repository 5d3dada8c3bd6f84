import JavaSignatures.Proofs.Grammar.Units
import JavaSignatures.Proofs.Nesting
import JavaSignatures.Proofs.NestedPaths

set_option autoImplicit false

/-!
# Grammar: declarations inside of declarations

Simple names lead from a declaration of a file inwards as they lead from what is read of it
(`Declared.descend?_rel`): what is found is read of what is written there (`IsReadOf`), and its
qualified name is the path to it.
-/

namespace JavaSignatures.Source

namespace Grammar

namespace Callable

/-- The name of a method; a constructor has none of its own. -/
def name? : Callable → Option String
  | .method head => some head.name.name
  | _ => none

theorem name_expr (callable : Callable) : callable.expr.name = callable.name? := by
  cases callable <;> rfl

end Callable

namespace Declared

/-- The nested declaration with the simple name. -/
def nested? (declared : Declared) (name : String) : Option Declared :=
  declared.nested.find? fun inner => inner.head.name.name == name

theorem name_eq_of_nested? {declared inner : Declared} {name : String}
    (h : declared.nested? name = some inner) : inner.head.name.name = name := by
  have hname := List.find?_some h
  exact eq_of_beq hname

/-- Follows simple names inwards. -/
def descend? : Declared → List String → Option Declared
  | declared, [] => some declared
  | declared, name :: names => (declared.nested? name).bind fun inner => inner.descend? names

end Declared

/-- The declaration is read of what is written: its nested declarations and its methods are those
that are members of it, in order.  A constructor is named like the declaration. -/
structure IsReadOf (written : Declared) (declaration : Declaration) : Prop where
  name : declaration.name = written.head.name.name
  kind : declaration.kind = written.head.kind
  nested : declaration.nested = written.nested.map fun inner =>
    inner.outline.declare (.inside declaration) (some declaration.qualifiedName)
  methods : declaration.methods = written.callables.map fun callable =>
    callable.expr.method (.inside declaration) declaration.name
  named : List.Forall₂ (fun callable method =>
      method.name = callable.name?.getD declaration.name ∧
        method.isConstructor = callable.name?.isNone) written.callables declaration.methods

theorem isReadOf_declare (written : Declared) (context : Context) (owner : Option String) :
    IsReadOf written (written.outline.declare context owner) := by
  have hmade : IsMadeOf written.outline (written.outline.declare context owner) := ⟨_, _, rfl⟩
  have hnested := hmade.nested
  have hmethods := hmade.methods
  rw [written.nested_outline, List.map_map] at hnested
  have houtline : written.outline.methods = written.callables.map Callable.expr := rfl
  rw [houtline, List.map_map] at hmethods
  refine ⟨hmade.name, rfl, hnested, hmethods, ?_⟩
  rw [hmethods, List.forall₂_map_right_iff, List.forall₂_same]
  intro callable _
  rw [← callable.name_expr]
  exact ⟨rfl, rfl⟩

namespace Declared

/-- The nested declaration with a name is read of the one that is written with it. -/
theorem nested?_declare (written : Declared) (context : Context) (owner : Option String)
    (name : String) :
    (written.outline.declare context owner).nested? name =
      (written.nested? name).map fun inner =>
        inner.outline.declare (.inside (written.outline.declare context owner))
          (some (written.outline.declare context owner).qualifiedName) := by
  rw [Declaration.nested?, (isReadOf_declare written context owner).nested, List.find?_map]
  rfl

/-- The same names lead to what is written and to what is read of it. -/
theorem descend?_rel (written : Declared) (context : Context) (owner : Option String)
    (names : List String) :
    Option.Rel
      (fun inner found => IsReadOf inner found ∧ found.imports = context.imports ∧
        found.qualifiedName =
          ".".intercalate ((written.outline.declare context owner).qualifiedName :: names))
      (written.descend? names) ((written.outline.declare context owner).descend? names) := by
  induction names generalizing written context owner with
  | nil => exact .some ⟨isReadOf_declare written context owner, rfl, rfl⟩
  | cons name names ih =>
    rw [descend?, Declaration.descend?_cons, nested?_declare]
    cases hinner : written.nested? name with
    | none => exact .none
    | some inner =>
      have hname := name_eq_of_nested? hinner
      have hqualified : ∀ declaration : Declaration, (inner.outline.declare (.inside declaration)
          (some declaration.qualifiedName)).qualifiedName =
            declaration.qualifiedName ++ "." ++ name := fun _ => hname ▸ rfl
      have hfollow := ih inner (.inside (written.outline.declare context owner))
        (some (written.outline.declare context owner).qualifiedName)
      rw [hqualified, ← Text.intercalate_merge] at hfollow
      exact hfollow

end Declared

/-- A declaration that simple names lead to is read of what is written there. -/
theorem FileSyntax.exists_written {file : FileSyntax} {source : String}
    (h : file.IsWrittenAs source) {root found : Declaration} {names : List String}
    (hroot : parse source = .ok root) (hfound : root.descend? names = some found) :
    ∃ main written, file.main? = some main ∧
      root = main.outline.declare { imports := file.scope } none ∧
      main.descend? names = some written ∧ IsReadOf written found ∧ found.imports = file.scope ∧
      found.qualifiedName = ".".intercalate (root.qualifiedName :: names) := by
  rw [parse_eq h] at hroot
  cases hmain : file.main? with
  | none => exact absurd hroot (by simp [hmain])
  | some main =>
    rw [hmain] at hroot
    obtain rfl := Except.ok.inj hroot
    have hrel := main.descend?_rel { imports := file.scope } none names
    rw [hfound] at hrel
    cases hdescend : main.descend? names with
    | none =>
      rw [hdescend] at hrel
      exact nomatch hrel
    | some written =>
      rw [hdescend] at hrel
      cases hrel with
      | some hread => exact ⟨main, written, rfl, rfl, hdescend, hread⟩

end Grammar

end JavaSignatures.Source
