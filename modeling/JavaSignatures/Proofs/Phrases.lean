import JavaSignatures.Proofs.Grouping

set_option autoImplicit false

/-!
# Phrases of source text

A phrase is a text with the trees whose tokens it is read as.  `Reads` is for phrases that begin
with a token, whatever gap is in front of it; `ReadsBehind` is for what may follow such a phrase
without a gap, or not be there at all.  Phrases are put together one behind the other, between
brackets and at the end of words.
-/

namespace JavaSignatures.Source

open JavaSignatures.Character
open Lexeme (IsWord StopsWord StartsToken FitsComment space marks)

/-- The text begins with a token and is read as the tokens of the trees. -/
structure Reads (text : List Char) (trees : List Lexeme → List Tree) : Prop where
  starts : StartsToken text
  read : ∀ gap rest, StopsWord rest →
    readAfter gap (text ++ rest) = Tree.tokensOf (trees gap) ++ readAfter [] rest

/-- Behind another phrase the text is read as the tokens of the trees, and it does not continue the
last word of that phrase. -/
structure ReadsBehind (text : List Char) (trees : List Tree) : Prop where
  stops : ∀ rest, StopsWord rest → StopsWord (text ++ rest)
  read : ∀ rest, StopsWord rest →
    readAfter [] (text ++ rest) = Tree.tokensOf trees ++ readAfter [] rest

/-! ## Phrases behind others -/

namespace ReadsBehind

theorem nil : ReadsBehind [] [] :=
  ⟨fun _ hrest => hrest, fun _ _ => rfl⟩

theorem append {first second : List Char} {trees more : List Tree}
    (hfirst : ReadsBehind first trees) (hsecond : ReadsBehind second more) :
    ReadsBehind (first ++ second) (trees ++ more) := by
  constructor
  · intro rest hrest
    rw [List.append_assoc]
    exact hfirst.stops _ (hsecond.stops rest hrest)
  · intro rest hrest
    rw [List.append_assoc, hfirst.read _ (hsecond.stops rest hrest), hsecond.read rest hrest,
      Tree.tokensOf_append, List.append_assoc]

theorem flatMap {α : Type} {items : List α} {text : α → List Char} {trees : α → List Tree}
    (h : ∀ item ∈ items, ReadsBehind (text item) (trees item)) :
    ReadsBehind (items.flatMap text) (items.flatMap trees) := by
  induction items with
  | nil => exact nil
  | cons item rest ih =>
    rw [List.flatMap_cons, List.flatMap_cons]
    exact append (h item (by simp)) (ih fun other hother => h other (List.mem_cons_of_mem _ hother))

end ReadsBehind

/-! ## Phrases -/

namespace Reads

theorem word {text : List Char} (h : IsWord text) :
    Reads text fun gap => [.leaf (Token.word gap text)] :=
  ⟨Lexeme.startsToken_word h, fun gap _ hrest => readAfter_word gap h hrest⟩

/-- A phrase and what follows it. -/
theorem behind {first second : List Char} {trees : List Lexeme → List Tree} {more : List Tree}
    (hfirst : Reads first trees) (hsecond : ReadsBehind second more) :
    Reads (first ++ second) fun gap => trees gap ++ more := by
  refine ⟨hfirst.starts.append second, fun gap rest hrest => ?_⟩
  rw [List.append_assoc, hfirst.read gap _ (hsecond.stops rest hrest), hsecond.read rest hrest,
    Tree.tokensOf_append, List.append_assoc]

/-- Trees can be exchanged for others of the same tokens. -/
theorem congr {text : List Char} {trees others : List Lexeme → List Tree} (h : Reads text trees)
    (htokens : ∀ gap, Tree.tokensOf (trees gap) = Tree.tokensOf (others gap)) :
    Reads text others :=
  ⟨h.starts, fun gap rest hrest => by rw [h.read gap rest hrest, htokens gap]⟩

/-- A documentation comment belongs to the gap in front of what it documents. -/
theorem commented {body text : List Char} {trees : List Lexeme → List Tree}
    (hbody : FitsComment body) (h : Reads text trees) :
    Reads ((Lexeme.docComment body).text ++ ' ' :: text)
      fun gap => trees (gap ++ [Lexeme.docComment body, space]) := by
  refine ⟨Lexeme.startsToken_docComment body _, fun gap rest hrest => ?_⟩
  rw [List.append_assoc, readAfter_docComment gap hbody, List.cons_append,
    readAfter_space _ (h.starts.append rest), List.append_assoc, h.read _ rest hrest]
  rfl

theorem mark {c : Char} (hc : c ∈ marks) : Reads [c] fun gap => [.leaf (Token.mark gap c)] :=
  ⟨Lexeme.startsToken_mark hc [], fun gap rest _ => readAfter_mark gap hc rest⟩

/-- What follows an opening bracket, up to a closing one. -/
theorem enclosed (first last : Char) (hfirst : first ∈ marks) (hlast : last ∈ marks)
    {text : List Char} {inner : List Tree}
    (h : ∀ rest, StopsWord rest →
      readAfter [] (text ++ rest) = Tree.tokensOf inner ++ readAfter [] rest) :
    Reads (first :: (text ++ [last]))
      fun gap => [.group (Token.mark gap first) inner (some (Token.mark [] last))] := by
  refine ⟨Lexeme.startsToken_mark hfirst _, fun gap rest _ => ?_⟩
  have hstops : StopsWord (last :: rest) := Lexeme.stopsWord_of_mem (by simp [hlast]) rest
  rw [List.cons_append, List.append_assoc, readAfter_mark gap hfirst, List.singleton_append,
    h _ hstops, readAfter_mark [] hlast]
  simp [Tree.tokensOf, Tree.tokens]

/-- A block in braces with a space in front of the last one. -/
theorem block {text : List Char} {inner : List Tree} (h : ReadsBehind text inner) :
    Reads ('{' :: (text ++ [' ', '}']))
      fun gap => [.group (Token.mark gap '{') inner (some (Token.mark [space] '}'))] := by
  refine ⟨Lexeme.startsToken_mark (by decide) _, fun gap rest _ => ?_⟩
  have hstarts : StartsToken ('}' :: rest) := Lexeme.startsToken_mark (by decide) rest
  have hstops : StopsWord (' ' :: '}' :: rest) := Lexeme.stopsWord_of_mem (by simp) _
  have hbrace : '}' ∈ marks := by decide
  rw [List.cons_append, List.append_assoc, readAfter_mark gap (by decide)]
  simp only [List.cons_append, List.nil_append]
  rw [h.read _ hstops, readAfter_space [] hstarts, readAfter_mark _ hbrace]
  simp [Tree.tokensOf, Tree.tokens]

/-- The tokens of a text that is one phrase. -/
theorem ofSource_eq {text : List Char} {trees : List Lexeme → List Tree} (h : Reads text trees) :
    Token.ofSource text = Tree.tokensOf (trees []) := by
  have hread := h.read [] [] Lexeme.stopsWord_nil
  rw [List.append_nil, readAfter_nil, List.append_nil] at hread
  rw [ofSource_of_startsToken h.starts, hread]

end Reads

/-! ## Phrases between brackets and behind spaces -/

namespace ReadsBehind

/-- A phrase behind a space. -/
theorem spaced {text : List Char} {trees : List Lexeme → List Tree} (h : Reads text trees) :
    ReadsBehind (' ' :: text) (trees [space]) := by
  constructor
  · intro rest hrest
    exact Lexeme.stopsWord_of_mem (by simp) _
  · intro rest hrest
    rw [List.cons_append, readAfter_space [] (h.starts.append rest)]
    exact h.read [space] rest hrest

/-- A phrase that begins with a mark can stand right behind another. -/
theorem tight {c : Char} (hc : c ∈ marks) {text : List Char} {trees : List Lexeme → List Tree}
    (h : Reads (c :: text) trees) : ReadsBehind (c :: text) (trees []) :=
  ⟨fun rest _ => Lexeme.stopsWord_of_mem (by simp [hc]) (text ++ rest), h.read []⟩

/-- A word behind a period. -/
theorem period {text : List Char} (h : IsWord text) :
    ReadsBehind ('.' :: text) [.leaf (Token.mark [] '.'), .leaf (Token.word [] text)] := by
  constructor
  · intro rest hrest
    exact Lexeme.stopsWord_of_mem (by simp) _
  · intro rest hrest
    have hhead : (text ++ rest).head? ≠ some '.' := by
      obtain ⟨c, more, rfl, hc, -⟩ := h
      intro hdot
      obtain rfl : c = '.' := by simpa using hdot
      exact absurd hc (by decide)
    rw [List.cons_append, readAfter_period [] hhead, readAfter_word [] h hrest]
    rfl

theorem ellipsis : ReadsBehind ['.', '.', '.'] [.leaf (Token.ellipsis [])] :=
  ⟨fun rest _ => Lexeme.stopsWord_of_mem (by simp) ('.' :: '.' :: rest),
    fun rest _ => readAfter_ellipsis [] rest⟩

end ReadsBehind

end JavaSignatures.Source
