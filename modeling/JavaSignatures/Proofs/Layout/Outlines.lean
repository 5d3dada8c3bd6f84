import JavaSignatures.Proofs.Layout.Heads
import JavaSignatures.Source.Outline

set_option autoImplicit false

/-!
# Outlines under another layout

Sources with the same tokens and comments declare the same, except that the name of the package, the
names of imports and wildcards are kept with their white space (`SourceFile.dense_ofSource`).
-/

namespace JavaSignatures.Source

/-! ## Outlines -/

namespace Outline

mutual

/-- The outline with no white space in the texts that its types keep. -/
def dense (outline : Outline) : Outline :=
  match outline with
  | ⟨head, methods, nested⟩ => ⟨head.dense, methods.map MethodHead.dense, denseAll nested⟩
termination_by structural outline

/-- The outlines with no white space in the texts that their types keep. -/
def denseAll (outlines : List Outline) : List Outline :=
  match outlines with
  | [] => []
  | outline :: rest => dense outline :: denseAll rest
termination_by structural outlines

end

@[simp]
theorem denseAll_eq_map (outlines : List Outline) : denseAll outlines = outlines.map dense := by
  induction outlines with
  | nil => rfl
  | cons outline rest ih => simp [denseAll, ih]

theorem endsInBlock_dense (statement : Statement) :
    endsInBlock statement.dense = endsInBlock statement := by
  cases statement <;> simp [endsInBlock]

theorem members_map_dense (kind : DeclarationKind) (body : List Statement) :
    members kind (body.map Statement.dense) = (members kind body).map Statement.dense := by
  have hends : endsInBlock ∘ Statement.dense = endsInBlock := funext endsInBlock_dense
  unfold members
  split
  · rw [List.dropWhile_map, hends, List.map_tail]
  · rfl

theorem map_dense_method? (statement : Statement) :
    (method? statement.dense).map MethodHead.dense =
      (method? statement).map MethodHead.dense := by
  cases statement with
  | plain head =>
    have hhead := Head.dense_ofTrees false head
    rw [Statement.dense_plain, method?, method?]
    generalize Head.ofTrees false (head.map Tree.dense) = first at hhead ⊢
    generalize Head.ofTrees false head = second at hhead ⊢
    cases first <;> cases second <;> simp [Head.dense] at hhead ⊢
    exact hhead
  | block head body =>
    have hhead := Head.dense_ofTrees true head
    rw [Statement.dense_block, method?, method?]
    generalize Head.ofTrees true (head.map Tree.dense) = first at hhead ⊢
    generalize Head.ofTrees true head = second at hhead ⊢
    cases first <;> cases second <;> simp [Head.dense] at hhead ⊢
    exact hhead

theorem map_dense_filterMap_method? (statements : List Statement) :
    ((statements.map Statement.dense).filterMap method?).map MethodHead.dense =
      (statements.filterMap method?).map MethodHead.dense := by
  rw [List.map_filterMap, List.map_filterMap, List.filterMap_map]
  exact List.filterMap_congr fun statement _ => map_dense_method? statement

mutual

theorem map_dense_ofStatement? (statement : Statement) :
    (ofStatement? statement.dense).map dense = (ofStatement? statement).map dense := by
  cases statement with
  | plain head => rfl
  | block head body =>
    have hnested := fun constants => map_dense_ofStatements constants body
    have hhead := Head.dense_ofTrees true head
    rw [Statement.dense_block, ofStatement?, ofStatement?]
    generalize Head.ofTrees true (head.map Tree.dense) = first at hhead ⊢
    generalize Head.ofTrees true head = second at hhead ⊢
    cases first with
    | type declared =>
      cases second with
      | type declared' =>
        have hheads : declared.dense = declared'.dense := Head.type.inj hhead
        have hkind : declared.kind = declared'.kind := by
          simpa only [TypeHead.dense] using congrArg TypeHead.kind hheads
        simp only [Option.map_some, dense, denseAll_eq_map, hheads, hkind, members_map_dense,
          map_dense_filterMap_method?, hnested]
      | _ => simp [Head.dense] at hhead
    | _ =>
      cases second with
      | type declared' => simp [Head.dense] at hhead
      | _ => rfl
termination_by structural statement

theorem map_dense_ofStatements (constants : Bool) (statements : List Statement) :
    (ofStatements constants (statements.map Statement.dense)).map dense =
      (ofStatements constants statements).map dense := by
  cases statements with
  | nil => rfl
  | cons statement rest =>
    rw [List.map_cons, ofStatements, ofStatements, endsInBlock_dense]
    split
    · exact map_dense_ofStatements _ rest
    · rw [List.map_append, List.map_append, ← Option.toList_map, ← Option.toList_map,
        map_dense_ofStatement? statement, map_dense_ofStatements false rest]
termination_by structural statements

end

end Outline

/-! ## Source files -/

namespace SourceFile

/-- The text without white space. -/
def denseText (text : String) : String := Name.withoutBlanks text.toList

/-- The file with no white space in the texts that are kept as they are written. -/
def dense (file : SourceFile) : SourceFile where
  package := file.package.map denseText
  imports := file.imports.map denseText
  declarations := file.declarations.map Outline.dense

theorem map_denseText_spelled? {first second : List Piece} (h : Piece.RowResembles first second) :
    (spelled? first).map denseText = (spelled? second).map denseText := by
  have hempty : first.isEmpty = second.isEmpty := by cases h <;> rfl
  unfold spelled?
  rw [hempty]
  split
  · rfl
  · simp [denseText, h.withoutBlanks_spell]

theorem map_denseText_package? (statement : Statement) :
    (package? statement.dense).map denseText = (package? statement).map denseText := by
  cases statement with
  | block head body => simp [package?]
  | plain head =>
    have hrow := forall₂_dropWhile (Piece.rowResembles_ofTrees head) fun _ _ hpiece =>
      hpiece.isAnnotation_eq
    rw [Statement.dense_plain, package?, package?]
    generalize (Piece.ofTrees (head.map Tree.dense)).dropWhile Piece.isAnnotation = row at hrow ⊢
    generalize (Piece.ofTrees head).dropWhile Piece.isAnnotation = row' at hrow ⊢
    cases hrow with
    | nil => rfl
    | cons hkeyword hname =>
      dsimp only
      rw [hkeyword.isKeyword_eq]
      split
      · exact map_denseText_spelled? hname
      · rfl

theorem map_denseText_import? (statement : Statement) :
    (import? statement.dense).map denseText = (import? statement).map denseText := by
  cases statement with
  | block head body => simp [import?]
  | plain head =>
    have hrow := Piece.rowResembles_ofTrees head
    rw [Statement.dense_plain, import?, import?]
    generalize Piece.ofTrees (head.map Tree.dense) = row at hrow ⊢
    generalize Piece.ofTrees head = row' at hrow ⊢
    cases hrow with
    | nil => rfl
    | @cons keyword keyword' name name' hkeyword hname =>
      have hstatic : name.head?.any (Piece.isKeyword · "static") =
          name'.head?.any (Piece.isKeyword · "static") := by
        cases hname with
        | nil => rfl
        | cons hfirst _ => exact hfirst.isKeyword_eq "static"
      have hstar := any_eq_of_forall₂ hname fun _ _ hpiece => hpiece.isSymbol_eq "*"
      dsimp only
      rw [hkeyword.isKeyword_eq, hstatic, hstar]
      split
      · exact map_denseText_spelled? hname
      · rfl

/-- What statements declare. -/
def ofStatements (statements : List Statement) : SourceFile where
  package := statements.findSome? package?
  imports := statements.filterMap import?
  declarations := Outline.ofStatements false statements

/-- What statements declare does not depend on their layout, but for the white space in the texts
that are kept as they are written. -/
theorem dense_ofStatements (statements : List Statement) :
    (ofStatements (statements.map Statement.dense)).dense = (ofStatements statements).dense := by
  have hpackage : ((statements.map Statement.dense).findSome? package?).map denseText =
      (statements.findSome? package?).map denseText := by
    have hread : (Option.map denseText ∘ package?) ∘ Statement.dense =
        Option.map denseText ∘ package? := funext map_denseText_package?
    rw [List.map_findSome?, List.map_findSome?, List.findSome?_map, hread]
  have himports : ((statements.map Statement.dense).filterMap import?).map denseText =
      (statements.filterMap import?).map denseText := by
    rw [List.map_filterMap, List.map_filterMap, List.filterMap_map]
    exact List.filterMap_congr fun statement _ => map_denseText_import? statement
  simp only [dense, ofStatements, hpackage, himports, Outline.map_dense_ofStatements]

/-- Sources with the same content declare the same, but for the white space in the texts that are
kept as they are written. -/
theorem dense_ofSource {first second : List Char} (h : content first = content second) :
    (ofSource first).dense = (ofSource second).dense := by
  have hread : ∀ source : List Char, (ofSource source).dense =
      (ofStatements ((Statement.ofSource source).map Statement.dense)).dense :=
    fun source => (dense_ofStatements (Statement.ofSource source)).symm
  rw [hread, hread, Statement.map_dense_ofSource h]

end SourceFile

end JavaSignatures.Source
