import JavaSignatures.Proofs.Layout.Outlines
import JavaSignatures.Session

set_option autoImplicit false

/-!
# Sources under another layout

Whatever the layout of a source text is, the same is read from it but for the white space in the
texts that are kept as they are written: the name of the package, the names of imports and
wildcards.  So sources with the same content declare the same just if these texts are the same, and
then no session tells them apart (`Session.parse_eq_of_content`).  If they are not, the declarations
can differ (`Session.exists_parse_ne_of_content`).
-/

namespace JavaSignatures.Source

/-! ## Texts that are kept as they are written -/

/-- There are as many texts in both rows, and if they are the same then `p` holds. -/
def TextsDecide (texts others : List String) (p : Prop) : Prop :=
  texts.length = others.length ∧ (texts = others → p)

theorem TextsDecide.nil : TextsDecide [] [] True := ⟨rfl, fun _ => trivial⟩

theorem TextsDecide.imp {texts others : List String} {p q : Prop} (h : TextsDecide texts others p)
    (hpq : p → q) : TextsDecide texts others q :=
  ⟨h.1, fun htexts => hpq (h.2 htexts)⟩

theorem TextsDecide.append {texts others more more' : List String} {p q : Prop}
    (h : TextsDecide texts others p) (hmore : TextsDecide more more' q) :
    TextsDecide (texts ++ more) (others ++ more') (p ∧ q) := by
  refine ⟨by rw [List.length_append, List.length_append, h.1, hmore.1], fun htexts => ?_⟩
  obtain ⟨hfirst, hsecond⟩ := List.append_inj htexts h.1
  exact ⟨h.2 hfirst, hmore.2 hsecond⟩

/-- What `dense` leaves of a value and the texts in it that are kept as they are written make out
the value. -/
def IsMadeOut {α : Type} (dense : α → α) (verbatims : α → List String) : Prop :=
  ∀ first second, dense first = dense second →
    TextsDecide (verbatims first) (verbatims second) (first = second)

theorem IsMadeOut.list {α : Type} {dense : α → α} {verbatims : α → List String}
    (h : IsMadeOut dense verbatims) : IsMadeOut (List.map dense) (List.flatMap verbatims) := by
  intro first second hdense
  induction first generalizing second with
  | nil =>
    obtain rfl : second = [] := by simpa using hdense.symm
    exact TextsDecide.nil.imp fun _ => rfl
  | cons a first ih =>
    cases second with
    | nil => simp at hdense
    | cons b second =>
      obtain ⟨ha, hrest⟩ := List.cons.inj hdense
      exact ((h a b ha).append (ih second hrest)).imp fun heq => by rw [heq.1, heq.2]

namespace TypeExpr

mutual

/-- The texts that the type keeps as they are written. -/
def verbatims (type : TypeExpr) : List String :=
  match type with
  | .name _ => []
  | .verbatim text => [text]
  | .applied base arguments => verbatims base ++ verbatimsOf arguments
  | .array element _ => verbatims element
termination_by structural type

/-- The texts that the types keep as they are written. -/
def verbatimsOf (types : List TypeExpr) : List String :=
  match types with
  | [] => []
  | type :: rest => verbatims type ++ verbatimsOf rest
termination_by structural types

end

mutual

theorem isMadeOut (type other : TypeExpr) (h : type.dense = other.dense) :
    TextsDecide type.verbatims other.verbatims (type = other) := by
  cases type with
  | name text =>
    cases other with
    | name text' => exact TextsDecide.nil.imp fun _ => h
    | _ => exact absurd h (by simp [dense])
  | verbatim text =>
    cases other with
    | verbatim text' => exact ⟨rfl, fun htexts => congrArg _ (List.singleton_inj.mp htexts)⟩
    | _ => exact absurd h (by simp [dense])
  | applied base arguments =>
    cases other with
    | applied base' arguments' =>
      obtain ⟨hbase, harguments⟩ := TypeExpr.applied.inj h
      exact ((isMadeOut base base' hbase).append
        (areMadeOut arguments arguments' harguments)).imp fun heq => by rw [heq.1, heq.2]
    | _ => exact absurd h (by simp [dense])
  | array element dimensions =>
    cases other with
    | array element' dimensions' =>
      obtain ⟨helement, rfl⟩ := TypeExpr.array.inj h
      exact (isMadeOut element element' helement).imp fun heq => by rw [heq]
    | _ => exact absurd h (by simp [dense])
termination_by structural type

theorem areMadeOut (types others : List TypeExpr) (h : denseAll types = denseAll others) :
    TextsDecide (verbatimsOf types) (verbatimsOf others) (types = others) := by
  cases types with
  | nil =>
    cases others with
    | nil => exact TextsDecide.nil.imp fun _ => rfl
    | cons other others => exact absurd h (by simp [denseAll])
  | cons type types =>
    cases others with
    | nil => exact absurd h (by simp [denseAll])
    | cons other others =>
      obtain ⟨htype, htypes⟩ := List.cons.inj h
      exact ((isMadeOut type other htype).append (areMadeOut types others htypes)).imp
        fun heq => by rw [heq.1, heq.2]
termination_by structural types

end

end TypeExpr

namespace VariableExpr

/-- The texts that the bounds of the type variable keep as they are written. -/
def verbatims (introduced : VariableExpr) : List String :=
  introduced.bounds.flatMap TypeExpr.verbatims

theorem isMadeOut : IsMadeOut dense verbatims := by
  rintro ⟨name, bounds⟩ ⟨name', bounds'⟩ h
  obtain ⟨rfl, hbounds⟩ := VariableExpr.mk.inj h
  exact (IsMadeOut.list TypeExpr.isMadeOut bounds bounds' hbounds).imp fun heq => by rw [heq]

end VariableExpr

namespace ParameterExpr

/-- The texts that the type of the parameter keeps as they are written. -/
def verbatims (parameter : ParameterExpr) : List String := parameter.type.verbatims

theorem isMadeOut : IsMadeOut dense verbatims := by
  rintro ⟨name, type, varargs⟩ ⟨name', type', varargs'⟩ h
  obtain ⟨rfl, htype, rfl⟩ := ParameterExpr.mk.inj h
  exact (TypeExpr.isMadeOut type type' htype).imp fun heq => by rw [heq]

end ParameterExpr

namespace MethodHead

/-- The texts that the types of the head keep as they are written. -/
def verbatims (head : MethodHead) : List String :=
  head.result.verbatims ++ (head.typeVariables.flatMap VariableExpr.verbatims ++
    head.parameters.flatMap ParameterExpr.verbatims)

theorem isMadeOut : IsMadeOut dense verbatims := by
  rintro ⟨name, result, introduced, parameters, visibility, comment⟩
    ⟨name', result', introduced', parameters', visibility', comment'⟩ h
  obtain ⟨rfl, hresult, hintroduced, hparameters, rfl, rfl⟩ := MethodHead.mk.inj h
  have hlists := (VariableExpr.isMadeOut.list introduced introduced' hintroduced).append
    (ParameterExpr.isMadeOut.list parameters parameters' hparameters)
  refine ((TypeExpr.isMadeOut result result' hresult).append hlists).imp ?_
  rintro ⟨rfl, rfl, rfl⟩
  rfl

end MethodHead

namespace TypeHead

/-- The texts that the bounds of its type variables keep as they are written. -/
def verbatims (head : TypeHead) : List String := head.typeVariables.flatMap VariableExpr.verbatims

theorem isMadeOut : IsMadeOut dense verbatims := by
  rintro ⟨kind, name, introduced, visibility, isStatic, comment⟩
    ⟨kind', name', introduced', visibility', isStatic', comment'⟩ h
  obtain ⟨rfl, rfl, hintroduced, rfl, rfl, rfl⟩ := TypeHead.mk.inj h
  exact (VariableExpr.isMadeOut.list introduced introduced' hintroduced).imp fun heq => by rw [heq]

end TypeHead

namespace Outline

mutual

/-- The texts that the types in the declaration keep as they are written. -/
def verbatims (outline : Outline) : List String :=
  match outline with
  | ⟨head, methods, nested⟩ =>
    head.verbatims ++ (methods.flatMap MethodHead.verbatims ++ verbatimsOf nested)
termination_by structural outline

/-- The texts that the types in the declarations keep as they are written. -/
def verbatimsOf (outlines : List Outline) : List String :=
  match outlines with
  | [] => []
  | outline :: rest => verbatims outline ++ verbatimsOf rest
termination_by structural outlines

end

mutual

theorem isMadeOut (outline other : Outline) (h : outline.dense = other.dense) :
    TextsDecide outline.verbatims other.verbatims (outline = other) := by
  cases outline with
  | mk head methods nested =>
    cases other with
    | mk head' methods' nested' =>
      obtain ⟨hhead, hmethods, hnested⟩ := Outline.mk.inj h
      have hlists := (MethodHead.isMadeOut.list methods methods' hmethods).append
        (areMadeOut nested nested' hnested)
      refine ((TypeHead.isMadeOut head head' hhead).append hlists).imp ?_
      rintro ⟨rfl, rfl, rfl⟩
      rfl
termination_by structural outline

theorem areMadeOut (outlines others : List Outline) (h : denseAll outlines = denseAll others) :
    TextsDecide (verbatimsOf outlines) (verbatimsOf others) (outlines = others) := by
  cases outlines with
  | nil =>
    cases others with
    | nil => exact TextsDecide.nil.imp fun _ => rfl
    | cons other others => exact absurd h (by simp [denseAll])
  | cons outline outlines =>
    cases others with
    | nil => exact absurd h (by simp [denseAll])
    | cons other others =>
      obtain ⟨houtline, houtlines⟩ := List.cons.inj h
      exact ((isMadeOut outline other houtline).append (areMadeOut outlines others houtlines)).imp
        fun heq => by rw [heq.1, heq.2]
termination_by structural outlines

end

end Outline

namespace SourceFile

/-- The texts that are kept as they are written: the name of the package, the names of imports and
those in types. -/
def verbatims (file : SourceFile) : List String :=
  file.package.toList ++ (file.imports ++ Outline.verbatimsOf file.declarations)

theorem isMadeOut : IsMadeOut dense verbatims := by
  rintro ⟨package, imports, declarations⟩ ⟨package', imports', declarations'⟩ h
  obtain ⟨hpackage, himports, hdeclarations⟩ := SourceFile.mk.inj h
  have hname : TextsDecide package.toList package'.toList (package = package') := by
    have hsome := congrArg Option.isSome hpackage
    cases package <;> cases package' <;> simp_all [TextsDecide]
  have hnames : TextsDecide imports imports' (imports = imports') :=
    ⟨by simpa using congrArg List.length himports, id⟩
  have htypes : TextsDecide (Outline.verbatimsOf declarations) (Outline.verbatimsOf declarations')
      (declarations = declarations') :=
    Outline.areMadeOut declarations declarations' (by simpa using hdeclarations)
  refine (hname.append (hnames.append htypes)).imp ?_
  rintro ⟨rfl, rfl, rfl⟩
  rfl

/-- Sources with the same content declare the same just if the texts that are kept as they are
written are the same. -/
theorem ofSource_eq_iff {first second : List Char} (h : content first = content second) :
    ofSource first = ofSource second ↔ (ofSource first).verbatims = (ofSource second).verbatims :=
  ⟨congrArg verbatims, (isMadeOut _ _ (dense_ofSource h)).2⟩

end SourceFile

end JavaSignatures.Source

namespace JavaSignatures.Session

open Source (SourceFile content)

/-- Sources that differ in nothing but their layout are read alike, but for the white space in the
names of packages and imports and in wildcards, which are kept as they are written.  Without such a
difference they declare the same, and no session tells them apart, whatever nested declaration it
asks for. -/
theorem parse_eq_of_content (first second : String)
    (h : content first.toList = content second.toList) :
    let file := SourceFile.ofSource first.toList
    let other := SourceFile.ofSource second.toList
    file.dense = other.dense ∧ (file = other ↔ file.verbatims = other.verbatims) ∧
      (file.verbatims = other.verbatims →
        Source.parse first = Source.parse second ∧
          ∀ (session : Session .java) (path : Option String),
            session.parse first path = session.parse second path) := by
  intro file other
  refine ⟨SourceFile.dense_ofSource h, SourceFile.ofSource_eq_iff h, fun hverbatims => ?_⟩
  have hfile : file = other := (SourceFile.ofSource_eq_iff h).mpr hverbatims
  have hparse : Source.parse first = Source.parse second := congrArg SourceFile.root hfile
  refine ⟨hparse, fun session path => ?_⟩
  rw [parse_java, parse_java, hparse]

/-- A method with types of all kinds on one line. -/
def oneLine : String := "class A { public q.Map<?, B[]> m(C... c); }"

/-- The same text with its types on several lines. -/
def severalLines : String :=
  "class A\x7bpublic q\n.Map <?,B [\n] > m ( C\n\t... c);\x7d"

/-- The texts on one line and on several lines are read alike. -/
theorem parse_eq_of_content_severalLines :
    let start : Session .java := {}
    content oneLine.toList = content severalLines.toList ∧
      Source.parse oneLine = Source.parse severalLines ∧
      (start.parse severalLines none).toOption.map (fun session => session.catalogue.methods) =
        some ["public q.Map m(C[] c)"] := by
  intro start
  have hcontent : content oneLine.toList = content severalLines.toList := by decide +kernel
  have hverbatims : (SourceFile.ofSource oneLine.toList).verbatims =
      (SourceFile.ofSource severalLines.toList).verbatims := by
    decide +kernel
  obtain ⟨-, -, hread⟩ := parse_eq_of_content oneLine severalLines hcontent
  obtain ⟨hparse, hsession⟩ := hread hverbatims
  refine ⟨hcontent, hparse, ?_⟩
  rw [← hsession]
  decide +kernel

/-- Sources that differ in nothing but their layout can declare classes of different names. -/
theorem exists_parse_ne_of_content :
    ¬∀ first second : String, content first.toList = content second.toList →
      Source.parse first = Source.parse second := by
  intro h
  have hparse := h "package p.q; class A { }" "package p . q; class A { }" (by decide +kernel)
  have hfirst : (Source.parse "package p.q; class A { }").toOption.map
      Declaration.qualifiedName = some "p.q.A" := by
    decide +kernel
  have hsecond : (Source.parse "package p . q; class A { }").toOption.map
      Declaration.qualifiedName = some "p . q.A" := by
    decide +kernel
  rw [hparse, hsecond] at hfirst
  exact absurd hfirst (by decide)

end JavaSignatures.Session
