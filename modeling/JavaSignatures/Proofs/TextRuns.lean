import JavaSignatures.Proofs.WholeNames
import Mathlib.Data.List.SplitBy
import Mathlib.Data.List.Pairwise

set_option autoImplicit false

/-!
# Texts as rows of runs

A text is a row of maximal runs, in turn of characters of names and of the characters between them
(`runs`).  Substitution looks for the identifier at every place of the text and passes over what it
has found, but it replaces whole runs: those that are the identifier and have no period in front of
them (`substitute_eq_replaceRuns`).
-/

namespace JavaSignatures.Name

open JavaSignatures.Character

/-! ## Maximal runs -/

/-- The text as maximal runs of characters of names and of other characters. -/
def runs (text : List Char) : List (List Char) :=
  text.splitBy fun c d => isNamePart c == isNamePart d

/-- The runs make up the text, and each reaches as far as its characters are of one kind. -/
structure AreRunsOf (text : List Char) (runs : List (List Char)) : Prop where
  flatten : runs.flatten = text
  ne_nil : ∀ run ∈ runs, run ≠ []
  uniform : ∀ run ∈ runs, ∀ c ∈ run, ∀ d ∈ run, isNamePart c = isNamePart d
  maximal : runs.IsChain fun run next => ∀ c ∈ run, ∀ d ∈ next, isNamePart c ≠ isNamePart d

/-- Next to each other are only characters of one kind, so all of them are of that kind. -/
theorem uniform_runs {text run : List Char} (h : run ∈ runs text) :
    ∀ c ∈ run, ∀ d ∈ run, isNamePart c = isNamePart d := by
  have : IsTrans Char fun c d => isNamePart c = isNamePart d := ⟨fun _ _ _ h more => h.trans more⟩
  have : Std.Symm fun c d : Char => isNamePart c = isNamePart d := ⟨fun _ _ h => h.symm⟩
  have hchain : run.IsChain fun c d => isNamePart c = isNamePart d :=
    (List.isChain_of_mem_splitBy h).imp fun _ _ hsame => eq_of_beq hsame
  exact hchain.pairwise.forall_of_forall fun _ _ => rfl

theorem areRunsOf_runs (text : List Char) : AreRunsOf text (runs text) where
  flatten := List.flatten_splitBy ..
  ne_nil _ := List.ne_nil_of_mem_splitBy
  uniform _ := uniform_runs
  maximal := by
    have hends := List.isChain_getLast_head_splitBy (fun c d => isNamePart c == isNamePart d) text
    refine hends.imp_of_mem_imp fun run next hrun hnext hbetween c hc d hd => ?_
    obtain ⟨hne, hnext_ne, hdiffer⟩ := hbetween
    rw [uniform_runs hrun c hc _ (List.getLast_mem hne),
      uniform_runs hnext d hd _ (List.head_mem hnext_ne)]
    exact ne_of_beq_false hdiffer

namespace AreRunsOf

variable {run : List Char} {rest : List (List Char)}
  (h : AreRunsOf (run :: rest).flatten (run :: rest))

include h

theorem tail : AreRunsOf rest.flatten rest where
  flatten := rfl
  ne_nil next hnext := h.ne_nil next (List.mem_cons_of_mem _ hnext)
  uniform next hnext := h.uniform next (List.mem_cons_of_mem _ hnext)
  maximal := (List.isChain_cons.mp h.maximal).2

/-- The next run is of the other kind. -/
theorem differs : ∀ next ∈ rest.head?, ∀ c ∈ run, ∀ d ∈ next, isNamePart c ≠ isNamePart d :=
  (List.isChain_cons.mp h.maximal).1

end AreRunsOf

theorem exists_run_of_mem_head? {runs : List (List Char)} (hne : ∀ run ∈ runs, run ≠ []) {c : Char}
    (h : c ∈ runs.flatten.head?) : ∃ run ∈ runs.head?, c ∈ run := by
  cases runs with
  | nil => contradiction
  | cons run rest =>
    rw [List.flatten_cons, List.head?_append_of_ne_nil _ (hne run List.mem_cons_self)] at h
    exact ⟨run, rfl, List.mem_of_mem_head? h⟩

/-! ## Replaced runs -/

/-- Puts the replacement in the place of each run that is the identifier and has no period in front
of it; `before` is the character in front of the first run. -/
def replaceRuns (identifier replacement : List Char) (before : Option Char) :
    List (List Char) → List (List Char)
  | [] => []
  | run :: rest =>
    (if run = identifier ∧ before ≠ some '.' then replacement else run) ::
      replaceRuns identifier replacement run.getLast? rest

section Substitute

variable {identifier replacement : List Char} (hidentifier : identifier ≠ [])
  (hname : ∀ c ∈ identifier, isNamePart c = true)

include hidentifier hname

/-- Characters that belong to no name stay. -/
theorem substituteFrom_others {run : List Char} (hrun : ∀ c ∈ run, isNamePart c = false)
    (before : Option Char) (rest : List Char) :
    substituteFrom identifier replacement before true 0 (run ++ rest) =
      run ++ substituteFrom identifier replacement (run.getLast?.or before) true 0 rest := by
  induction run generalizing before with
  | nil => rfl
  | cons c run ih =>
    obtain ⟨hc, hmore⟩ := List.forall_mem_cons.mp hrun
    rw [List.cons_append, substituteFrom_other hidentifier hname before hc, ih hmore,
      getLast?_cons_or]
    rfl

/-- The first run is replaced or stays, and what follows is read behind its last character. -/
theorem substituteFrom_first {run : List Char} {rest : List (List Char)}
    (hruns : AreRunsOf (run :: rest).flatten (run :: rest)) {before : Option Char}
    (hbefore : ∀ b ∈ before, ∀ c ∈ run, isNamePart b ≠ isNamePart c) :
    substituteFrom identifier replacement before true 0 (run ++ rest.flatten) =
      (if run = identifier ∧ before ≠ some '.' then replacement else run) ++
        substituteFrom identifier replacement run.getLast? true 0 rest.flatten := by
  have hne := hruns.ne_nil run List.mem_cons_self
  obtain ⟨c, hc⟩ := List.exists_mem_of_ne_nil run hne
  have hkind : ∀ d ∈ run, isNamePart d = isNamePart c :=
    fun d hd => hruns.uniform run List.mem_cons_self d hd c hc
  cases hpart : isNamePart c with
  | true =>
    have hrun : ∀ d ∈ run, isNamePart d = true := fun d hd => (hkind d hd).trans hpart
    have hfront : ∀ b ∈ before, isNamePart b = false := by
      intro b hb
      simpa [hpart] using hbefore b hb c hc
    -- the run is a whole one, for the next one begins with a character of the other kind
    have hstops : StopsName rest.flatten := by
      intro d hd
      obtain ⟨next, hnext, hmem⟩ := exists_run_of_mem_head? hruns.tail.ne_nil hd
      simpa [hpart] using hruns.differs next hnext c hc d hmem
    rw [substituteFrom_run hidentifier hname hfront hne hrun hstops,
      substituteFrom_before hidentifier hname hstops none run.getLast?]
  | false =>
    have hother : run ≠ identifier := by
      rintro rfl
      rw [hname c hc] at hpart
      contradiction
    have hlast : run.getLast?.or before = run.getLast? := Option.or_of_isSome (by simpa using hne)
    rw [substituteFrom_others hidentifier hname (fun d hd => (hkind d hd).trans hpart) before,
      hlast, if_neg fun hsame => hother hsame.1]

/-- Substitution acts on each run by itself. -/
theorem substituteFrom_flatten {runs : List (List Char)} (hruns : AreRunsOf runs.flatten runs)
    {before : Option Char}
    (hbefore : ∀ run ∈ runs.head?, ∀ b ∈ before, ∀ c ∈ run, isNamePart b ≠ isNamePart c) :
    substituteFrom identifier replacement before true 0 runs.flatten =
      (replaceRuns identifier replacement before runs).flatten := by
  induction runs generalizing before with
  | nil => exact substituteFrom_nil hidentifier ..
  | cons run rest ih =>
    have hbehind : ∀ next ∈ rest.head?, ∀ b ∈ run.getLast?, ∀ c ∈ next,
        isNamePart b ≠ isNamePart c :=
      fun next hnext b hb => hruns.differs next hnext b (List.mem_of_mem_getLast? hb)
    rw [List.flatten_cons, substituteFrom_first hidentifier hname hruns (hbefore run rfl),
      ih hruns.tail hbehind]
    rfl

end Substitute

/-- Substitution replaces, of the maximal runs of a text, those that are the identifier and have no
period in front of them. -/
theorem substitute_eq_replaceRuns {identifier : String} (h : IsRun identifier)
    (replacement text : String) :
    AreRunsOf text.toList (runs text.toList) ∧
      (substitute identifier replacement text).toList =
        (replaceRuns identifier.toList replacement.toList none (runs text.toList)).flatten := by
  have hruns := areRunsOf_runs text.toList
  refine ⟨hruns, ?_⟩
  have hflatten : AreRunsOf (runs text.toList).flatten (runs text.toList) := by rwa [hruns.flatten]
  rw [← substituteFrom_flatten h.1 h.2 hflatten (by simp), hruns.flatten]
  exact Text.toList_onString _ text

/-- The first run holds the identifier, which is found in it once and not twice.  Of the two runs
that are the identifier the second one has a period in front of it. -/
theorem substitute_eq_replaceRuns_overlap :
    IsRun "aa" ∧
      runs "aaa<aa.aa>".toList = ["aaa".toList, "<".toList, "aa".toList, ".".toList, "aa".toList,
        ">".toList] ∧
      substitute "aa" "b.C" "aaa<aa.aa>" = "aaa<b.C.aa>" := by
  have hrun : IsRun "aa" := by decide
  have hruns : runs "aaa<aa.aa>".toList = ["aaa".toList, "<".toList, "aa".toList, ".".toList,
      "aa".toList, ">".toList] := by decide +kernel
  obtain ⟨-, hform⟩ := substitute_eq_replaceRuns hrun "b.C" "aaa<aa.aa>"
  rw [hruns] at hform
  refine ⟨hrun, hruns, ?_⟩
  rw [← String.toList_inj, hform]
  decide +kernel

end JavaSignatures.Name
