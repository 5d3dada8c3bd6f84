import JavaSignatures.Proofs.Canonical.Syntax
import JavaSignatures.Proofs.Phrases

set_option autoImplicit false

/-!
# Canonical source text: trees

The bracket trees of each kind of syntax, for any gap in front of it.  Each text is read as the
tokens of its trees (`Reads`), and the trees of a whole file are what its tokens are grouped into
(`CompilationUnit.ofTokens_ofSource`).
-/

namespace JavaSignatures.Source.Canonical

open JavaSignatures.Character
open Lexeme (IsWord StopsWord FitsComment space marks)
open JavaSignatures.Source.Tree (IsTypePart IsHeadPart Nests loosenAll)

/-! ## Words and names -/

/-- The characters of a text are those of one word. -/
def looksLikeWord : List Char → Bool
  | [] => false
  | c :: more => isIdentifierStart c && more.all isIdentifierPart

theorem isWord_of_looksLikeWord {text : List Char} (h : looksLikeWord text = true) :
    IsWord text := by
  cases text with
  | nil => exact absurd h (by simp [looksLikeWord])
  | cons c more =>
    rw [looksLikeWord, Bool.and_eq_true, List.all_eq_true] at h
    exact ⟨c, more, rfl, h.1, h.2⟩

theorem Identifier.isWord (identifier : Identifier) : IsWord identifier.spell := by
  have hvalid := identifier.valid
  unfold isIdentifier at hvalid
  unfold Identifier.spell
  apply isWord_of_looksLikeWord
  cases htext : identifier.text.toList with
  | nil => simp [htext] at hvalid
  | cons c rest =>
    rw [htext] at hvalid
    exact (Bool.and_eq_true_iff.mp hvalid).1

/-- The words of the language that stand in canonical text. -/
def languageWords : List String :=
  ["boolean", "byte", "char", "short", "int", "long", "float", "double", "void", "extends",
    "public", "protected", "private", "static", "class", "interface", "enum", "record", "package",
    "import"]

theorem isWord_of_mem {word : String} (h : word ∈ languageWords) : IsWord word.toList := by
  have hall : languageWords.all (fun word => looksLikeWord word.toList) = true := by
    decide +kernel
  exact isWord_of_looksLikeWord (List.all_eq_true.mp hall word h)

/-- The trees of a name. -/
def DottedName.trees (name : DottedName) (gap : List Lexeme) : List Tree :=
  .leaf (Token.word gap name.first.spell) ::
    name.rest.flatMap fun part => [.leaf (Token.mark [] '.'), .leaf (Token.word [] part.spell)]

theorem DottedName.reads (name : DottedName) : Reads name.spell name.trees :=
  (Reads.word name.first.isWord).behind
    (ReadsBehind.flatMap fun part _ => ReadsBehind.period part.isWord)

/-! ## Lists and brackets -/

/-- The trees of phrases with commas between them. -/
def commaTrees : List (List Lexeme → List Tree) → List Tree
  | [] => []
  | first :: rest =>
    first [] ++ rest.flatMap fun trees => .leaf (Token.mark [] ',') :: trees [space]

/-- The trees of a list in angle brackets. -/
def angleTrees (gap : List Lexeme) (items : List (List Lexeme → List Tree)) : List Tree :=
  if items.isEmpty then []
  else [.group (Token.mark gap '<') (commaTrees items) (some (Token.mark [] '>'))]

/-- The trees of pairs of brackets. -/
def bracketTrees (dimensions : Nat) : List Tree :=
  List.replicate dimensions (.group (Token.mark [] '[') [] (some (Token.mark [] ']')))

section Lists

variable {α : Type} {items : List α} {text : α → List Char} {trees : α → List Lexeme → List Tree}
variable (h : ∀ item ∈ items, Reads (text item) (trees item))

include h in
theorem read_commas (rest : List Char) (hrest : StopsWord rest) :
    readAfter [] (spellCommas (items.map text) ++ rest) =
      Tree.tokensOf (commaTrees (items.map trees)) ++ readAfter [] rest := by
  cases items with
  | nil => rfl
  | cons first others =>
    have hmore : ReadsBehind
        ((others.map text).flatMap fun other => ',' :: ' ' :: other)
        ((others.map trees).flatMap fun other => .leaf (Token.mark [] ',') :: other [space]) := by
      rw [List.flatMap_map, List.flatMap_map]
      refine ReadsBehind.flatMap fun other hother => ?_
      have hcomma : Reads [','] fun gap => [.leaf (Token.mark gap ',')] := Reads.mark (by decide)
      have hother := h other (List.mem_cons_of_mem _ hother)
      exact ReadsBehind.tight (by decide) (hcomma.behind (ReadsBehind.spaced hother))
    exact ((h first (by simp)).behind hmore).read [] rest hrest

include h in
theorem reads_angles (hne : items ≠ []) :
    Reads (spellAngles (items.map text)) fun gap => angleTrees gap (items.map trees) := by
  have htexts : (items.map text).isEmpty = false := by simpa using hne
  have htrees : (items.map trees).isEmpty = false := by simpa using hne
  simp only [spellAngles, angleTrees, htexts, htrees, Bool.false_eq_true, if_false]
  exact Reads.enclosed _ _ (by decide) (by decide) (read_commas h)

include h in
theorem readsBehind_angles :
    ReadsBehind (spellAngles (items.map text)) (angleTrees [] (items.map trees)) := by
  by_cases hitems : items = []
  · subst hitems
    exact ReadsBehind.nil
  · have hreads := reads_angles h hitems
    have htexts : (items.map text).isEmpty = false := by simpa using hitems
    simp only [spellAngles, htexts, Bool.false_eq_true, if_false] at hreads ⊢
    exact ReadsBehind.tight (by decide) hreads

end Lists

theorem readsBehind_brackets (dimensions : Nat) :
    ReadsBehind (spellBrackets dimensions) (bracketTrees dimensions) := by
  unfold spellBrackets bracketTrees
  induction dimensions with
  | zero => exact ReadsBehind.nil
  | succ dimensions ih =>
    rw [List.replicate_succ, List.replicate_succ, List.flatten_cons]
    have hpair : Reads ('[' :: ([] ++ [']'])) fun gap =>
        [.group (Token.mark gap '[') [] (some (Token.mark [] ']'))] :=
      Reads.enclosed _ _ (by decide) (by decide) fun rest _ => rfl
    exact (ReadsBehind.tight (by decide) hpair).append ih

/-! ## Types and type variables -/

theorem Primitive.isWord (kind : Primitive) : IsWord kind.keyword.toList :=
  isWord_of_mem (by cases kind <;> decide)

namespace JavaType

mutual

/-- The trees of a type. -/
def trees (type : JavaType) : List Lexeme → List Tree :=
  match type with
  | .primitive kind dimensions => fun gap =>
    .leaf (Token.word gap kind.keyword.toList) :: bracketTrees dimensions
  | .named name arguments dimensions => fun gap =>
    name.trees gap ++ (angleTrees [] (treesAll arguments) ++ bracketTrees dimensions)
termination_by structural type

/-- The trees of types one by one. -/
def treesAll (types : List JavaType) : List (List Lexeme → List Tree) :=
  match types with
  | [] => []
  | type :: rest => trees type :: treesAll rest
termination_by structural types

end

theorem treesAll_eq_map (types : List JavaType) : treesAll types = types.map trees := by
  induction types with
  | nil => rfl
  | cons type rest ih => simp [treesAll, ih]

mutual

theorem reads (type : JavaType) : Reads type.spell type.trees := by
  cases type with
  | primitive kind dimensions =>
    simp only [spell, trees]
    exact (Reads.word kind.isWord).behind (readsBehind_brackets dimensions)
  | named name arguments dimensions =>
    have harguments := readsBehind_angles (reads_of_mem arguments)
    simp only [spell, trees, spellAll_eq_map, treesAll_eq_map]
    exact name.reads.behind (harguments.append (readsBehind_brackets dimensions))
termination_by structural type

theorem reads_of_mem (types : List JavaType) : ∀ type ∈ types, Reads type.spell type.trees := by
  cases types with
  | nil => simp
  | cons type rest =>
    have hfirst := reads type
    have hrest := reads_of_mem rest
    intro other hother
    rcases List.mem_cons.mp hother with rfl | hother
    · exact hfirst
    · exact hrest other hother
termination_by structural types

end

end JavaType

namespace JavaVariable

/-- The trees of bounds behind the name of their type variable. -/
def boundTrees : List JavaType → List Tree
  | [] => []
  | first :: rest =>
    .leaf (Token.word [space] "extends".toList) ::
      (first.trees [space] ++
        rest.flatMap fun bound => .leaf (Token.mark [space] '&') :: bound.trees [space])

/-- The trees of a type variable with its bounds. -/
def trees (introduced : JavaVariable) (gap : List Lexeme) : List Tree :=
  .leaf (Token.word gap introduced.name.spell) :: boundTrees introduced.bounds

theorem readsBehind_bounds (bounds : List JavaType) :
    ReadsBehind (spellBounds bounds) (boundTrees bounds) := by
  cases bounds with
  | nil => exact ReadsBehind.nil
  | cons first rest =>
    have hextends : Reads "extends".toList fun gap => [.leaf (Token.word gap "extends".toList)] :=
      Reads.word (isWord_of_mem (by decide))
    have hand : Reads ['&'] fun gap => [.leaf (Token.mark gap '&')] := Reads.mark (by decide)
    have hmore : ReadsBehind (rest.flatMap fun bound => ' ' :: '&' :: ' ' :: bound.spell)
        (rest.flatMap fun bound => .leaf (Token.mark [space] '&') :: bound.trees [space]) :=
      ReadsBehind.flatMap fun bound _ =>
        ReadsBehind.spaced (hand.behind (ReadsBehind.spaced bound.reads))
    have hbounds := (ReadsBehind.spaced (hextends.behind (ReadsBehind.spaced first.reads))).append
      hmore
    simpa [spellBounds, boundTrees] using hbounds

theorem reads (introduced : JavaVariable) : Reads introduced.spell introduced.trees :=
  (Reads.word introduced.name.isWord).behind (readsBehind_bounds introduced.bounds)

end JavaVariable

/-! ## Heads -/

/-- The trees of words with a space behind each of them, and of what follows. -/
def wordTrees : List String → (List Lexeme → List Tree) → List Lexeme → List Tree
  | [], trees => trees
  | word :: words, trees => fun gap =>
    .leaf (Token.word gap word.toList) :: wordTrees words trees [space]

/-- The gap behind a comment, if there is one. -/
def commentGap (comment : Option DocText) (gap : List Lexeme) : List Lexeme :=
  match comment with
  | none => gap
  | some comment => gap ++ [Lexeme.docComment comment.body.toList, space]

/-- The trees of a comment and words in front of other trees. -/
def frontTrees (comment : Option DocText) (words : List String)
    (trees : List Lexeme → List Tree) (gap : List Lexeme) : List Tree :=
  wordTrees words trees (commentGap comment gap)

theorem reads_words {words : List String} (hwords : ∀ word ∈ words, word ∈ languageWords)
    {text : List Char} {trees : List Lexeme → List Tree} (h : Reads text trees) :
    Reads ((words.flatMap fun word => word.toList ++ [' ']) ++ text) (wordTrees words trees) := by
  induction words with
  | nil => exact h
  | cons word words ih =>
    have hword := Reads.word (isWord_of_mem (hwords word (by simp)))
    have hmore := ih fun other hother => hwords other (List.mem_cons_of_mem _ hother)
    have hfront := hword.behind (ReadsBehind.spaced hmore)
    simpa [wordTrees] using hfront

theorem reads_front (comment : Option DocText) {words : List String}
    (hwords : ∀ word ∈ words, word ∈ languageWords) {text : List Char}
    {trees : List Lexeme → List Tree} (h : Reads text trees) :
    Reads (spellFront comment words ++ text) (frontTrees comment words trees) := by
  have hall := reads_words hwords h
  cases comment with
  | none =>
    change Reads _ (wordTrees words trees)
    simpa [spellFront] using hall
  | some comment =>
    change Reads _ fun gap => wordTrees words trees
      (gap ++ [Lexeme.docComment comment.body.toList, space])
    have hcommented := Reads.commented comment.fits hall
    simpa [spellFront, DocText.spell, Lexeme.docComment] using hcommented

theorem accessWords_subset (visibility : Visibility) :
    ∀ word ∈ accessWords visibility, word ∈ languageWords := by
  cases visibility <;> simp [accessWords, languageWords]

namespace JavaParameter

/-- The trees of a parameter. -/
def trees (varargs : Bool) (parameter : JavaParameter) (gap : List Lexeme) : List Tree :=
  parameter.type.trees gap ++
    ((if varargs then [.leaf (Token.ellipsis [])] else []) ++
      [.leaf (Token.word [space] parameter.name.spell)])

theorem reads (varargs : Bool) (parameter : JavaParameter) :
    Reads (parameter.spell varargs) (parameter.trees varargs) := by
  have hname := ReadsBehind.spaced (Reads.word parameter.name.isWord)
  cases varargs with
  | false => exact parameter.type.reads.behind (ReadsBehind.nil.append hname)
  | true => exact parameter.type.reads.behind (ReadsBehind.ellipsis.append hname)

end JavaParameter

/-- The trees of type variables in front of others. -/
def variableTrees (introduced : List JavaVariable) (trees : List Lexeme → List Tree)
    (gap : List Lexeme) : List Tree :=
  if introduced.isEmpty then trees gap
  else angleTrees gap (introduced.map JavaVariable.trees) ++ trees [space]

theorem reads_variables (introduced : List JavaVariable) {text : List Char}
    {trees : List Lexeme → List Tree} (h : Reads text trees) :
    Reads (JavaMethod.spellVariables introduced ++ text) (variableTrees introduced trees) := by
  cases introduced with
  | nil => exact h
  | cons first rest =>
    have hangles := reads_angles (fun one (_ : one ∈ first :: rest) => one.reads) (by simp)
    have hall := hangles.behind (ReadsBehind.spaced h)
    change Reads _ fun gap =>
      angleTrees gap ((first :: rest).map JavaVariable.trees) ++ trees [space]
    simpa [JavaMethod.spellVariables] using hall

namespace JavaResult

/-- The trees of the result of a method. -/
def trees : JavaResult → List Lexeme → List Tree
  | .void => fun gap => [.leaf (Token.word gap "void".toList)]
  | .value type => type.trees

theorem reads (result : JavaResult) : Reads result.spell result.trees := by
  cases result with
  | void => exact Reads.word (isWord_of_mem (by decide))
  | value type => exact type.reads

end JavaResult

namespace JavaMethod

/-- The trees of the result and the name of a method, or of the name of a constructor. -/
def calledTrees (owner : Identifier) (called : Option (JavaResult × Identifier))
    (gap : List Lexeme) : List Tree :=
  match called with
  | none => [.leaf (Token.word gap owner.spell)]
  | some (result, name) => result.trees gap ++ [.leaf (Token.word [space] name.spell)]

/-- The trees between the parentheses. -/
def parameterTrees (method : JavaMethod) : List Tree :=
  commaTrees (method.allParameters.map fun (varargs, parameter) => parameter.trees varargs)

/-- The parentheses of a method. -/
def parens (method : JavaMethod) : Tree :=
  .group (Token.mark [] '(') (loosenAll method.parameterTrees) (some (Token.mark [] ')'))

/-- The trees of a method behind its modifiers. -/
def row (owner : Identifier) (method : JavaMethod) : List Lexeme → List Tree :=
  variableTrees method.typeVariables fun gap =>
    calledTrees owner method.called gap ++ [method.parens]

/-- The trees of the head of a method, angle brackets grouped outside the parentheses. -/
def head (owner : Identifier) (method : JavaMethod) : List Lexeme → List Tree :=
  frontTrees method.comment (accessWords method.visibility) (method.row owner)

/-- An empty body. -/
def emptyBody : Tree := .group (Token.mark [space] '{') [] (some (Token.mark [space] '}'))

/-- The trees of a method with its body. -/
def trees (owner : Identifier) (method : JavaMethod) (gap : List Lexeme) : List Tree :=
  loosenAll (method.head owner gap) ++ [emptyBody]

theorem reads_called (owner : Identifier) (called : Option (JavaResult × Identifier)) :
    Reads (spellCalled owner called) (calledTrees owner called) := by
  cases called with
  | none => exact Reads.word owner.isWord
  | some called =>
    obtain ⟨result, name⟩ := called
    exact result.reads.behind (ReadsBehind.spaced (Reads.word name.isWord))

theorem read_parameters (method : JavaMethod) (rest : List Char) (hrest : StopsWord rest) :
    readAfter [] (spellCommas method.spellParameters ++ rest) =
      Tree.tokensOf (loosenAll method.parameterTrees) ++ readAfter [] rest := by
  rw [Tree.tokensOf_loosenAll]
  exact read_commas (fun item (_ : item ∈ method.allParameters) => item.2.reads item.1) rest hrest

theorem reads_head (owner : Identifier) (method : JavaMethod) :
    Reads (method.spellHead owner) (method.head owner) := by
  refine reads_front _ (accessWords_subset _) (reads_variables _ ?_)
  have hparens := Reads.enclosed '(' ')' (by decide) (by decide)
    method.read_parameters
  exact (reads_called owner method.called).behind (ReadsBehind.tight (by decide) hparens)

theorem reads (owner : Identifier) (method : JavaMethod) :
    Reads (method.spell owner) (method.trees owner) := by
  have hbody := (method.reads_head owner).behind (ReadsBehind.spaced (Reads.block ReadsBehind.nil))
  refine hbody.congr fun gap => ?_
  rw [trees, Tree.tokensOf_append, Tree.tokensOf_append, Tree.tokensOf_loosenAll]
  rfl

end JavaMethod

/-! ## Declarations -/

namespace JavaHead

/-- The trees of the name of a declaration and of what follows it in the head. -/
def nameTrees (head : JavaHead) (gap : List Lexeme) : List Tree :=
  .leaf (Token.word gap head.name.spell) ::
    (angleTrees [] (head.typeVariables.map JavaVariable.trees) ++
      if head.kind == .recordKind then [.group (Token.mark [] '(') [] (some (Token.mark [] ')'))]
      else [])

/-- The trees of the head of a declaration. -/
def trees (head : JavaHead) (isStatic : Bool) : List Lexeme → List Tree :=
  frontTrees head.comment (head.words isStatic) head.nameTrees

/-- The end of the constants of an enum. -/
def constantTrees (head : JavaHead) : List Tree :=
  if head.kind == .enumKind then [.leaf (Token.mark [space] ';')] else []

/-- The trees of a declaration whose members have the given trees. -/
def allTrees (head : JavaHead) (isStatic : Bool) (members : List Tree) (gap : List Lexeme) :
    List Tree :=
  loosenAll (head.trees isStatic gap) ++
    [.group (Token.mark [space] '{') (head.constantTrees ++ members)
      (some (Token.mark [space] '}'))]

theorem words_subset (head : JavaHead) (isStatic : Bool) :
    ∀ word ∈ head.words isStatic, word ∈ languageWords := by
  intro word hword
  simp only [words, modifierWords, List.mem_append, List.mem_singleton] at hword
  rcases hword with (hword | hword) | rfl
  · exact accessWords_subset _ word hword
  · cases isStatic with
    | false => simp at hword
    | true =>
      obtain rfl : word = "static" := by simpa using hword
      decide
  · cases head.kind <;> decide

theorem reads_head (head : JavaHead) (isStatic : Bool) :
    Reads (head.spellHead isStatic) (head.trees isStatic) := by
  refine reads_front _ (head.words_subset isStatic) ?_
  have hvariables := readsBehind_angles fun one (_ : one ∈ head.typeVariables) => one.reads
  refine (Reads.word head.name.isWord).behind (hvariables.append ?_)
  have hparens : Reads ('(' :: ([] ++ [')'])) fun gap =>
      [.group (Token.mark gap '(') [] (some (Token.mark [] ')'))] :=
    Reads.enclosed _ _ (by decide) (by decide) fun rest _ => rfl
  split
  · exact ReadsBehind.tight (by decide) hparens
  · exact ReadsBehind.nil

theorem reads (head : JavaHead) (isStatic : Bool) {text : List Char} {members : List Tree}
    (h : ReadsBehind text members) :
    Reads (head.spell isStatic text) (head.allTrees isStatic members) := by
  have hconstants : ReadsBehind (if head.kind == .enumKind then [' ', ';'] else [])
      head.constantTrees := by
    unfold constantTrees
    split
    · exact ReadsBehind.spaced (Reads.mark (by decide))
    · exact ReadsBehind.nil
  have hbody := (head.reads_head isStatic).behind
    (ReadsBehind.spaced (Reads.block (hconstants.append h)))
  refine hbody.congr fun gap => ?_
  rw [allTrees, Tree.tokensOf_append, Tree.tokensOf_append, Tree.tokensOf_loosenAll]

end JavaHead

namespace JavaMember

mutual

/-- The trees of a member of the declaration. -/
def trees (owner : Identifier) (member : JavaMember) : List Lexeme → List Tree :=
  match member with
  | .method written => written.trees owner
  | .nested isStatic head members => head.allTrees isStatic (treesAll head.name members)
termination_by structural member

/-- The trees of members behind one another. -/
def treesAll (owner : Identifier) (members : List JavaMember) : List Tree :=
  match members with
  | [] => []
  | member :: rest => trees owner member [space] ++ treesAll owner rest
termination_by structural members

end

mutual

theorem reads (owner : Identifier) (member : JavaMember) :
    Reads (member.spell owner) (member.trees owner) := by
  cases member with
  | method written =>
    simp only [spell, trees]
    exact written.reads owner
  | nested isStatic head members =>
    simp only [spell, trees]
    exact head.reads isStatic (readsBehind_all head.name members)
termination_by structural member

theorem readsBehind_all (owner : Identifier) (members : List JavaMember) :
    ReadsBehind (spellAll owner members) (treesAll owner members) := by
  cases members with
  | nil => exact ReadsBehind.nil
  | cons member rest =>
    have hmember := reads owner member
    have hrest := readsBehind_all owner rest
    simp only [spellAll, treesAll]
    exact (ReadsBehind.spaced hmember).append hrest
termination_by structural members

end

end JavaMember

/-! ## Source files -/

/-- The trees of the package or of an import. -/
def clauseTrees (word : String) (name : DottedName) (gap : List Lexeme) : List Tree :=
  .leaf (Token.word gap word.toList) :: (name.trees [space] ++ [.leaf (Token.mark [] ';')])

theorem reads_clause {word : String} (hword : word ∈ languageWords) (name : DottedName) :
    Reads (spellClause word name) (clauseTrees word name) := by
  have hend : ReadsBehind [';'] [.leaf (Token.mark [] ';')] :=
    ReadsBehind.tight (by decide) (Reads.mark (by decide))
  exact (Reads.word (isWord_of_mem hword)).behind (ReadsBehind.spaced (name.reads.behind hend))

/-- The trees of clauses and of what follows them. -/
def clausesTrees : List (String × DottedName) → (List Lexeme → List Tree) → List Lexeme → List Tree
  | [], trees => trees
  | (word, name) :: rest, trees => fun gap =>
    clauseTrees word name gap ++ clausesTrees rest trees [space]

theorem reads_clauses {clauses : List (String × DottedName)}
    (hclauses : ∀ clause ∈ clauses, clause.1 ∈ languageWords) {text : List Char}
    {trees : List Lexeme → List Tree} (h : Reads text trees) :
    Reads ((clauses.flatMap fun (word, name) => spellClause word name ++ [' ']) ++ text)
      (clausesTrees clauses trees) := by
  induction clauses with
  | nil => exact h
  | cons clause rest ih =>
    obtain ⟨word, name⟩ := clause
    have hclause := reads_clause (hclauses (word, name) (by simp)) name
    have hmore := ih fun other hother => hclauses other (List.mem_cons_of_mem _ hother)
    have hall := hclause.behind (ReadsBehind.spaced hmore)
    change Reads _ fun gap => clauseTrees word name gap ++ clausesTrees rest trees [space]
    simpa using hall

namespace CompilationUnit

/-- The trees of a source file. -/
def trees (unit : CompilationUnit) : List Lexeme → List Tree :=
  clausesTrees unit.clauses
    (unit.head.allTrees false (JavaMember.treesAll unit.head.name unit.members))

theorem clauses_subset (unit : CompilationUnit) :
    ∀ clause ∈ unit.clauses, clause.1 ∈ languageWords := by
  intro clause hclause
  unfold clauses at hclause
  rcases List.mem_append.mp hclause with hpackage | himport
  · obtain ⟨name, -, rfl⟩ := List.mem_map.mp hpackage
    exact show "package" ∈ languageWords by decide
  · obtain ⟨name, -, rfl⟩ := List.mem_map.mp himport
    exact show "import" ∈ languageWords by decide

theorem reads (unit : CompilationUnit) : Reads unit.spell unit.trees :=
  reads_clauses unit.clauses_subset
    (unit.head.reads false (JavaMember.readsBehind_all unit.head.name unit.members))

end CompilationUnit

/-! ## Type parts and head parts -/

theorem isTypePart_word (gap : List Lexeme) (word : List Char) :
    IsTypePart (.leaf (Token.word gap word)) :=
  IsTypePart.plain (Token.IsPlain.word gap word)

theorem DottedName.isTypePart (name : DottedName) (gap : List Lexeme) :
    ∀ tree ∈ name.trees gap, IsTypePart tree := by
  intro tree htree
  rcases List.mem_cons.mp htree with rfl | htree
  · exact isTypePart_word _ _
  · obtain ⟨part, -, htree⟩ := List.mem_flatMap.mp htree
    simp only [List.mem_cons, List.not_mem_nil, or_false] at htree
    rcases htree with rfl | rfl
    · exact IsTypePart.plain (Token.IsPlain.mark [] (Or.inl rfl))
    · exact isTypePart_word _ _

theorem DottedName.loosenAll_trees (name : DottedName) (gap : List Lexeme) :
    loosenAll (name.trees gap) = name.trees gap := by
  rw [Tree.loosenAll_eq_flatMap, trees, List.flatMap_cons, List.flatMap_assoc]
  rfl

theorem isTypePart_commas {items : List (List Lexeme → List Tree)}
    (h : ∀ trees ∈ items, ∀ gap, ∀ tree ∈ trees gap, IsTypePart tree) :
    ∀ tree ∈ commaTrees items, IsTypePart tree := by
  cases items with
  | nil => simp [commaTrees]
  | cons first rest =>
    intro tree htree
    rcases List.mem_append.mp htree with htree | htree
    · exact h first (by simp) [] tree htree
    · obtain ⟨trees, htrees, htree⟩ := List.mem_flatMap.mp htree
      rcases List.mem_cons.mp htree with rfl | htree
      · exact IsTypePart.plain (Token.IsPlain.mark [] (Or.inr (Or.inl rfl)))
      · exact h trees (List.mem_cons_of_mem _ htrees) [space] tree htree

theorem isTypePart_angles (gap : List Lexeme) {items : List (List Lexeme → List Tree)}
    (h : ∀ trees ∈ items, ∀ gap, ∀ tree ∈ trees gap, IsTypePart tree) :
    ∀ tree ∈ angleTrees gap items, IsTypePart tree := by
  unfold angleTrees
  split
  · simp
  · intro tree htree
    obtain rfl := List.mem_singleton.mp htree
    exact IsTypePart.angles gap [] (isTypePart_commas h)

theorem isTypePart_brackets (dimensions : Nat) :
    ∀ tree ∈ bracketTrees dimensions, IsTypePart tree := by
  intro tree htree
  obtain rfl := (List.mem_replicate.mp htree).2
  exact IsTypePart.brackets [] []

mutual

theorem JavaType.isTypePart (type : JavaType) (gap : List Lexeme) :
    ∀ tree ∈ type.trees gap, IsTypePart tree := by
  cases type with
  | primitive kind dimensions =>
    simp only [trees, List.forall_mem_cons]
    exact ⟨isTypePart_word _ _, isTypePart_brackets dimensions⟩
  | named name arguments dimensions =>
    have harguments := isTypePart_angles [] (isTypePart_of_mem arguments)
    simp only [trees, List.forall_mem_append]
    exact ⟨name.isTypePart gap, harguments, isTypePart_brackets dimensions⟩
termination_by structural type

theorem JavaType.isTypePart_of_mem (types : List JavaType) :
    ∀ trees ∈ treesAll types, ∀ gap, ∀ tree ∈ trees gap, IsTypePart tree := by
  cases types with
  | nil => simp [treesAll]
  | cons type rest =>
    have htype := isTypePart type
    have hrest := isTypePart_of_mem rest
    simp only [treesAll, List.forall_mem_cons]
    exact ⟨htype, hrest⟩
termination_by structural types

end

theorem JavaVariable.isTypePart (introduced : JavaVariable) (gap : List Lexeme) :
    ∀ tree ∈ introduced.trees gap, IsTypePart tree := by
  intro tree htree
  rcases List.mem_cons.mp htree with rfl | htree
  · exact isTypePart_word _ _
  · cases hbounds : introduced.bounds with
    | nil => simp [hbounds, boundTrees] at htree
    | cons first rest =>
      rw [hbounds, boundTrees, List.mem_cons, List.mem_append, List.mem_flatMap] at htree
      rcases htree with rfl | htree | ⟨bound, -, htree⟩
      · exact isTypePart_word _ _
      · exact first.isTypePart [space] tree htree
      · rcases List.mem_cons.mp htree with rfl | htree
        · exact IsTypePart.plain (Token.IsPlain.mark [space] (Or.inr (Or.inr rfl)))
        · exact bound.isTypePart [space] tree htree

theorem isTypePart_variables (introduced : List JavaVariable) :
    ∀ trees ∈ introduced.map JavaVariable.trees, ∀ gap, ∀ tree ∈ trees gap, IsTypePart tree := by
  intro trees htrees
  obtain ⟨one, -, rfl⟩ := List.mem_map.mp htrees
  exact one.isTypePart

theorem JavaParameter.isTypePart (varargs : Bool) (parameter : JavaParameter)
    (gap : List Lexeme) : ∀ tree ∈ parameter.trees varargs gap, IsTypePart tree := by
  intro tree htree
  rcases List.mem_append.mp htree with htree | htree
  · exact parameter.type.isTypePart gap tree htree
  · rcases List.mem_append.mp htree with htree | htree
    · cases varargs with
      | false => simp at htree
      | true =>
        obtain rfl := List.mem_singleton.mp htree
        exact IsTypePart.plain (Token.IsPlain.ellipsis [])
    · obtain rfl := List.mem_singleton.mp htree
      exact isTypePart_word _ _

theorem JavaMethod.isTypePart_parameters (method : JavaMethod) :
    ∀ tree ∈ method.parameterTrees, IsTypePart tree := by
  refine isTypePart_commas fun trees htrees => ?_
  obtain ⟨⟨varargs, parameter⟩, -, rfl⟩ := List.mem_map.mp htrees
  exact parameter.isTypePart varargs

/-- Comments and words in front of head parts. -/
theorem isHeadPart_front (comment : Option DocText) (words : List String)
    {trees : List Lexeme → List Tree} (h : ∀ gap, ∀ tree ∈ trees gap, IsHeadPart tree)
    (gap : List Lexeme) : ∀ tree ∈ frontTrees comment words trees gap, IsHeadPart tree := by
  unfold frontTrees
  generalize commentGap comment gap = gap
  induction words generalizing gap with
  | nil => exact h gap
  | cons word words ih =>
    simp only [wordTrees, List.forall_mem_cons]
    exact ⟨IsHeadPart.part (isTypePart_word _ _), ih [space]⟩

theorem isHeadPart_angles (gap : List Lexeme) (introduced : List JavaVariable) :
    ∀ tree ∈ angleTrees gap (introduced.map JavaVariable.trees), IsHeadPart tree :=
  fun tree htree =>
    IsHeadPart.part (isTypePart_angles gap (isTypePart_variables introduced) tree htree)

theorem isHeadPart_variables (introduced : List JavaVariable) {trees : List Lexeme → List Tree}
    (h : ∀ gap, ∀ tree ∈ trees gap, IsHeadPart tree) (gap : List Lexeme) :
    ∀ tree ∈ variableTrees introduced trees gap, IsHeadPart tree := by
  unfold variableTrees
  split
  · exact h gap
  · rw [List.forall_mem_append]
    exact ⟨isHeadPart_angles gap introduced, h [space]⟩

theorem JavaMethod.isHeadPart_called (owner : Identifier)
    (called : Option (JavaResult × Identifier)) (gap : List Lexeme) :
    ∀ tree ∈ calledTrees owner called gap, IsHeadPart tree := by
  intro tree htree
  refine IsHeadPart.part ?_
  cases called with
  | none =>
    obtain rfl := List.mem_singleton.mp htree
    exact isTypePart_word _ _
  | some called =>
    obtain ⟨result, name⟩ := called
    rcases List.mem_append.mp htree with htree | htree
    · cases result with
      | void =>
        obtain rfl := List.mem_singleton.mp htree
        exact isTypePart_word _ _
      | value type => exact type.isTypePart gap tree htree
    · obtain rfl := List.mem_singleton.mp htree
      exact isTypePart_word _ _

theorem JavaMethod.isHeadPart (owner : Identifier) (method : JavaMethod) (gap : List Lexeme) :
    ∀ tree ∈ method.head owner gap, IsHeadPart tree := by
  refine isHeadPart_front _ _ (isHeadPart_variables _ fun gap => ?_) gap
  rw [List.forall_mem_append, List.forall_mem_singleton]
  exact ⟨isHeadPart_called owner method.called gap,
    IsHeadPart.parens [] [] method.isTypePart_parameters⟩

theorem JavaHead.isHeadPart (head : JavaHead) (isStatic : Bool) (gap : List Lexeme) :
    ∀ tree ∈ head.trees isStatic gap, IsHeadPart tree := by
  refine isHeadPart_front _ _ (fun gap => ?_) gap
  unfold nameTrees
  rw [List.forall_mem_cons, List.forall_mem_append]
  refine ⟨IsHeadPart.part (isTypePart_word _ _), isHeadPart_angles [] _, ?_⟩
  split
  · have hempty : ∀ tree ∈ ([] : List Tree), IsTypePart tree := by simp
    rw [List.forall_mem_singleton]
    exact IsHeadPart.parens [] [] hempty
  · simp

/-! ## The groups of a source file -/

theorem nests_head {trees : List Tree} (h : ∀ tree ∈ trees, IsHeadPart tree) :
    Nests (loosenAll trees) :=
  Tree.nests_loosenAll fun tree htree => (h tree htree).nests

theorem nests_block {inner : List Tree} (h : Nests inner) :
    Nests [.group (Token.mark [space] '{') inner (some (Token.mark [space] '}'))] :=
  Nests.enclosed [space] [space] ('{', '}') (by decide) h

theorem JavaMethod.nests (owner : Identifier) (method : JavaMethod) (gap : List Lexeme) :
    Nests (method.trees owner gap) :=
  (nests_head (method.isHeadPart owner gap)).append (nests_block Nests.nil)

theorem JavaHead.nests (head : JavaHead) (isStatic : Bool) {members : List Tree}
    (h : Nests members) (gap : List Lexeme) : Nests (head.allTrees isStatic members gap) := by
  refine (nests_head (head.isHeadPart isStatic gap)).append (nests_block (Nests.append ?_ h))
  unfold constantTrees
  split
  · exact Nests.angle [space] (Or.inr (Or.inr rfl))
  · exact Nests.nil

mutual

theorem JavaMember.nests (owner : Identifier) (member : JavaMember) (gap : List Lexeme) :
    Nests (member.trees owner gap) := by
  cases member with
  | method written =>
    simp only [trees]
    exact written.nests owner gap
  | nested isStatic head members =>
    simp only [trees]
    exact head.nests isStatic (nests_all head.name members) gap
termination_by structural member

theorem JavaMember.nests_all (owner : Identifier) (members : List JavaMember) :
    Nests (treesAll owner members) := by
  cases members with
  | nil => exact Nests.nil
  | cons member rest =>
    have hmember := nests owner member [space]
    have hrest := nests_all owner rest
    simp only [treesAll]
    exact hmember.append hrest
termination_by structural members

end

theorem nests_clause (word : String) (name : DottedName) (gap : List Lexeme) :
    Nests (clauseTrees word name gap) := by
  have hname : Nests (loosenAll (name.trees [space])) :=
    nests_head fun tree htree => IsHeadPart.part (name.isTypePart [space] tree htree)
  rw [name.loosenAll_trees] at hname
  exact Nests.cons (Nests.plain (Token.IsPlain.word _ _))
    (hname.append (Nests.angle [] (Or.inr (Or.inr rfl))))

theorem CompilationUnit.nests (unit : CompilationUnit) : Nests (unit.trees []) := by
  have hdeclaration : ∀ gap, Nests (unit.head.allTrees false
      (JavaMember.treesAll unit.head.name unit.members) gap) :=
    unit.head.nests false (JavaMember.nests_all unit.head.name unit.members)
  unfold CompilationUnit.trees
  generalize ([] : List Lexeme) = gap
  induction unit.clauses generalizing gap with
  | nil => exact hdeclaration gap
  | cons clause rest ih =>
    obtain ⟨word, name⟩ := clause
    exact (nests_clause word name gap).append (ih [space])

/-- The trees of a source file are found again in its text. -/
theorem CompilationUnit.ofTokens_ofSource (unit : CompilationUnit) :
    Tree.ofTokens (Token.ofSource unit.spell) = unit.trees [] := by
  rw [unit.reads.ofSource_eq, Tree.ofTokens_of_nests unit.nests]

end JavaSignatures.Source.Canonical
