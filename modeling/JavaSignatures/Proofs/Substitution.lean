import JavaSignatures.Name
import Mathlib.Data.List.TakeWhile

set_option autoImplicit false

/-!
# Replacements in rendered types

What the two replacements of rendered types do to a text that is read as runs: a run of characters
of identifiers is replaced as a whole or not at all (`substituteFrom_run`), every other character
stays (`substituteFrom_other`), and neither replacement looks across a character that its pattern
does not hold (`substituteFrom_append_cons`, `replace_append_cons`).
-/

namespace JavaSignatures.Name

open JavaSignatures.Character

/-! ## Prefixes and runs -/

/-- The next character, if there is one, belongs to no name. -/
def StopsName (rest : List Char) : Prop := ∀ c ∈ rest.head?, isNamePart c = false

theorem stopsName_dropWhile (text : List Char) : StopsName (text.dropWhile isNamePart) := by
  intro c hc
  have hhead := List.head?_dropWhile_not isNamePart text
  rw [Option.mem_def.mp hc] at hhead
  simpa using hhead

/-- A text of name characters reaches no further than the run it begins with. -/
theorem isPrefix_run {text run rest : List Char} (htext : ∀ c ∈ text, isNamePart c = true)
    (hrest : StopsName rest) (h : text <+: run ++ rest) : text <+: run := by
  induction run generalizing text with
  | nil =>
    cases text with
    | nil => exact List.nil_prefix
    | cons c more =>
      obtain ⟨after, hafter⟩ := h
      have hhead : rest.head? = some c := by rw [List.nil_append] at hafter; rw [← hafter]; rfl
      have hfalse : isNamePart c = false := hrest c (by rw [hhead]; rfl)
      rw [htext c (by simp)] at hfalse
      exact absurd hfalse (by simp)
  | cons d run ih =>
    cases text with
    | nil => exact List.nil_prefix
    | cons c more =>
      rw [List.cons_append, List.cons_prefix_cons] at h
      obtain ⟨rfl, hmore⟩ := h
      exact List.cons_prefix_cons.mpr
        ⟨rfl, ih (fun c hc => htext c (List.mem_cons_of_mem _ hc)) hmore⟩

/-- The last character of a run behind a name character. -/
theorem exists_last_of_run {c : Char} {run : List Char} (hc : isNamePart c = true)
    (hrun : ∀ d ∈ run, isNamePart d = true) :
    ∃ d, run.getLast?.or (some c) = some d ∧ isNamePart d = true := by
  cases hd : run.getLast? with
  | none => exact ⟨c, rfl, hc⟩
  | some d => exact ⟨d, rfl, hrun d (List.mem_of_getLast? hd)⟩

theorem getLast?_cons_or (c : Char) (run : List Char) (before : Option Char) :
    (c :: run).getLast?.or before = run.getLast?.or (some c) := by
  cases run <;> simp [List.getLast?_cons]

/-! ## Substitution for whole identifiers -/

section Substitute

variable {identifier replacement : List Char}

/-- With nothing pending it does not matter whether the last occurrence was kept. -/
theorem substituteFrom_shown (before : Option Char) (shown other : Bool) (text : List Char) :
    substituteFrom identifier replacement before shown 0 text =
      substituteFrom identifier replacement before other 0 text := by
  induction text generalizing before with
  | nil => rfl
  | cons c rest ih =>
    unfold substituteFrom
    split
    · rfl
    · rw [ih]

/-- The pending characters are passed over: they are kept if the occurrence is shown. -/
theorem substituteFrom_pending (before : Option Char) (shown : Bool) (done rest : List Char) :
    substituteFrom identifier replacement before shown done.length (done ++ rest) =
      (if shown then done else []) ++
        substituteFrom identifier replacement (done.getLast?.or before) true 0 rest := by
  induction done generalizing before with
  | nil =>
    rw [substituteFrom_shown _ true shown]
    cases shown <;> rfl
  | cons c done ih =>
    rw [getLast?_cons_or, List.length_cons, List.cons_append, substituteFrom, ih]
    cases shown <;> rfl

variable (hidentifier : identifier ≠ []) (hname : ∀ c ∈ identifier, isNamePart c = true)

include hidentifier in
theorem substituteFrom_nil (before : Option Char) (shown : Bool) :
    substituteFrom identifier replacement before shown 0 [] = [] := by
  cases identifier with
  | nil => exact absurd rfl hidentifier
  | cons c rest => rfl

include hidentifier hname in
/-- A character that belongs to no name stays. -/
theorem substituteFrom_other (before : Option Char) {c : Char} (hc : isNamePart c = false)
    (rest : List Char) :
    substituteFrom identifier replacement before true 0 (c :: rest) =
      c :: substituteFrom identifier replacement (some c) true 0 rest := by
  have hstart : identifier.isPrefixOf (c :: rest) = false := by
    cases identifier with
    | nil => exact absurd rfl hidentifier
    | cons d more =>
      have hd : ¬d = c := by
        rintro rfl
        rw [hname d (by simp)] at hc
        exact absurd hc (by simp)
      simp [List.isPrefixOf, hd]
  rw [substituteFrom]
  simp [hstart]

include hidentifier hname in
/-- What stands in front of a run's end does not matter for what follows. -/
theorem substituteFrom_before {rest : List Char} (hrest : StopsName rest)
    (before other : Option Char) :
    substituteFrom identifier replacement before true 0 rest =
      substituteFrom identifier replacement other true 0 rest := by
  cases rest with
  | nil => rw [substituteFrom_nil hidentifier, substituteFrom_nil hidentifier]
  | cons c rest =>
    have hc : isNamePart c = false := hrest c (by simp)
    rw [substituteFrom_other hidentifier hname before hc,
      substituteFrom_other hidentifier hname other hc]

include hname in
/-- An occurrence at the beginning of a run lies inside the run. -/
theorem exists_run_of_isPrefixOf {c : Char} {run rest : List Char} (hrest : StopsName rest)
    (hne : identifier ≠ []) (h : identifier.isPrefixOf (c :: (run ++ rest)) = true) :
    ∃ done after, identifier = c :: done ∧ run = done ++ after := by
  have hbegins : identifier <+: (c :: run) ++ rest := List.isPrefixOf_iff_prefix.mp h
  have hin : identifier <+: c :: run := isPrefix_run hname hrest hbegins
  cases identifier with
  | nil => exact absurd rfl hne
  | cons d done =>
    obtain ⟨rfl, after, rfl⟩ := List.cons_prefix_cons.mp hin
    exact ⟨done, after, rfl, rfl⟩

include hidentifier hname in
/-- Behind a name character or a period no run is replaced. -/
theorem substituteFrom_inside {b : Char} (hb : (isNamePart b || b == '.') = true)
    {run rest : List Char} (hrun : ∀ c ∈ run, isNamePart c = true) (hrest : StopsName rest) :
    substituteFrom identifier replacement (some b) true 0 (run ++ rest) =
      run ++ substituteFrom identifier replacement none true 0 rest := by
  -- an occurrence that is kept takes several characters at once, hence the induction on the length
  induction hlength : run.length using Nat.strongRecOn generalizing b run with
  | ind length ih =>
    subst hlength
    cases run with
    | nil => exact substituteFrom_before hidentifier hname hrest _ _
    | cons c run =>
      have hc : isNamePart c = true := hrun c (by simp)
      have hmore : ∀ d ∈ run, isNamePart d = true := fun d hd => hrun d (by simp [hd])
      rw [List.cons_append, substituteFrom]
      by_cases hstart : identifier.isPrefixOf (c :: (run ++ rest)) = true
      · have halone : ∀ next, standsAlone (some b) next = false := by
          intro next
          simp only [standsAlone, Option.any_some, hb, Bool.not_true, Bool.false_and]
        obtain ⟨done, after, hdone, rfl⟩ :=
          exists_run_of_isPrefixOf hname hrest hidentifier hstart
        have hlen : identifier.length - 1 = done.length := by simp [hdone]
        obtain ⟨e, he, hepart⟩ := exists_last_of_run hc
          (fun d hd => hmore d (List.mem_append_left _ hd))
        simp only [hstart, if_true, halone, Bool.not_false, Bool.true_or]
        rw [hlen, List.append_assoc, substituteFrom_pending, he,
          ih after.length (by simp only [List.length_cons, List.length_append]; omega)
            (by rw [hepart]; rfl)
            (fun d hd => hmore d (List.mem_append_right _ hd)) rfl]
        simp
      · simp only [hstart, Bool.false_eq_true, if_false]
        rw [ih run.length (by simp) (by rw [hc]; rfl) hmore rfl]
        rfl

/-- At the ends of a run only a period in front of it can keep it from standing alone. -/
theorem standsAlone_eq_decide {before next : Option Char}
    (hbefore : ∀ b ∈ before, isNamePart b = false) (hnext : next.any isNamePart = false) :
    standsAlone before next = decide (before ≠ some '.') := by
  cases before with
  | none => simpa [standsAlone] using hnext
  | some b =>
    have hb : isNamePart b = false := hbefore b rfl
    simp only [standsAlone, Option.any_some, hb, hnext]
    by_cases hdot : b = '.' <;> simp [hdot]

include hidentifier hname in
/-- A run is replaced if it is the identifier and no period stands in front of it, and else it
stays. -/
theorem substituteFrom_run {before : Option Char}
    (hbefore : ∀ b ∈ before, isNamePart b = false) {run rest : List Char} (hne : run ≠ [])
    (hrun : ∀ c ∈ run, isNamePart c = true) (hrest : StopsName rest) :
    substituteFrom identifier replacement before true 0 (run ++ rest) =
      (if run = identifier ∧ before ≠ some '.' then replacement else run) ++
        substituteFrom identifier replacement none true 0 rest := by
  cases run with
  | nil => exact absurd rfl hne
  | cons c run =>
    have hc : isNamePart c = true := hrun c (by simp)
    have hmore : ∀ d ∈ run, isNamePart d = true := fun d hd => hrun d (by simp [hd])
    rw [List.cons_append, substituteFrom]
    by_cases hstart : identifier.isPrefixOf (c :: (run ++ rest)) = true
    · obtain ⟨done, after, rfl, rfl⟩ := exists_run_of_isPrefixOf hname hrest hidentifier hstart
      have hlen : (c :: done).length - 1 = done.length := by simp
      have hdrop : ((c :: (done ++ after ++ rest)).drop (c :: done).length).head? =
          (after ++ rest).head? := by simp
      simp only [hstart, if_true, hdrop, hlen]
      rw [List.append_assoc, substituteFrom_pending]
      cases after with
      | nil =>
        -- the run is the identifier
        have hnext : rest.head?.any isNamePart = false := by
          cases rest with
          | nil => rfl
          | cons d rest => simpa using hrest d (by simp)
        have halone := standsAlone_eq_decide hbefore hnext
        rw [List.nil_append, substituteFrom_before hidentifier hname hrest _ none]
        simp only [halone, List.append_nil, true_and]
        by_cases hdot : before = some '.' <;> simp [hdot]
      | cons e after =>
        -- the run goes on behind the occurrence, which therefore does not stand alone
        have he : isNamePart e = true := hmore e (by simp)
        have halone : standsAlone before (some e) = false := by
          simp [standsAlone, he]
        obtain ⟨d, hd, hdpart⟩ := exists_last_of_run hc
          (fun d hd => hmore d (List.mem_append_left _ hd))
        rw [hd, substituteFrom_inside hidentifier hname (by rw [hdpart]; rfl)
          (fun d hd => hmore d (List.mem_append_right _ hd)) hrest]
        simp [halone]
    · simp only [hstart, Bool.false_eq_true, if_false]
      have hrun' : ¬c :: run = identifier := by
        rintro rfl
        exact hstart (List.isPrefixOf_iff_prefix.mpr (by simp))
      rw [substituteFrom_inside hidentifier hname (by rw [hc]; rfl) hmore hrest]
      simp [hrun']

include hidentifier hname in
/-- A character that belongs to no name and is no period separates like the beginning of a text. -/
theorem substituteFrom_behind {c : Char} (hc : isNamePart c = false) (hdot : c ≠ '.')
    (text : List Char) :
    substituteFrom identifier replacement (some c) true 0 text =
      substituteFrom identifier replacement none true 0 text := by
  rw [← List.takeWhile_append_dropWhile (p := isNamePart) (l := text)]
  have hstops : StopsName (text.dropWhile isNamePart) := stopsName_dropWhile text
  by_cases hrun : text.takeWhile isNamePart = []
  · rw [hrun, List.nil_append]
    exact substituteFrom_before hidentifier hname hstops _ _
  · have hall : ∀ d ∈ text.takeWhile isNamePart, isNamePart d = true :=
      fun d hd => List.mem_takeWhile_imp hd
    rw [substituteFrom_run hidentifier hname (by simpa using hc) hrun hall hstops,
      substituteFrom_run hidentifier hname (by simp) hrun hall hstops]
    simp [hdot]

include hidentifier hname in
/-- Both sides of a character that belongs to no name and is no period are read apart. -/
theorem substituteFrom_append_cons {c : Char} (hc : isNamePart c = false) (hdot : c ≠ '.')
    {before : Option Char} (hbefore : ∀ b ∈ before, isNamePart b = false)
    (text rest : List Char) :
    substituteFrom identifier replacement before true 0 (text ++ c :: rest) =
      substituteFrom identifier replacement before true 0 text ++
        c :: substituteFrom identifier replacement none true 0 rest := by
  induction hlength : text.length using Nat.strongRecOn generalizing before text with
  | ind length ih =>
    subst hlength
    cases text with
    | nil =>
      rw [List.nil_append, substituteFrom_nil hidentifier, List.nil_append,
        substituteFrom_other hidentifier hname before hc,
        substituteFrom_behind hidentifier hname hc hdot]
    | cons d text =>
      by_cases hd : isNamePart d = true
      · -- a run comes first, and what follows it is shorter
        have hsplit : d :: text =
            (d :: text.takeWhile isNamePart) ++ text.dropWhile isNamePart := by simp
        have hall : ∀ e ∈ d :: text.takeWhile isNamePart, isNamePart e = true := by
          intro e he
          rcases List.mem_cons.mp he with rfl | he
          · exact hd
          · exact List.mem_takeWhile_imp he
        have hstops : StopsName (text.dropWhile isNamePart) := stopsName_dropWhile text
        have hstops' : StopsName (text.dropWhile isNamePart ++ c :: rest) := by
          intro e he
          cases hdrop : text.dropWhile isNamePart with
          | nil =>
            rw [hdrop, List.nil_append, List.head?_cons, Option.mem_some_iff] at he
            exact he ▸ hc
          | cons f more => exact hstops e (by rw [hdrop] at he ⊢; exact he)
        rw [hsplit, List.append_assoc, substituteFrom_run hidentifier hname hbefore (by simp) hall
            hstops', substituteFrom_run hidentifier hname hbefore (by simp) hall hstops,
          ih (text.dropWhile isNamePart).length
            (by have := (List.dropWhile_suffix isNamePart (l := text)).length_le; simp; omega)
            (by simp) _ rfl]
        simp
      · have hd' : isNamePart d = false := by simpa using hd
        rw [List.cons_append, substituteFrom_other hidentifier hname before hd',
          substituteFrom_other hidentifier hname before hd',
          ih text.length (by simp) (by simpa using hd') _ rfl]
        rfl

theorem mem_substituteFrom {before : Option Char} {shown : Bool} {pending : Nat}
    {text : List Char} {c : Char}
    (h : c ∈ substituteFrom identifier replacement before shown pending text) :
    c ∈ text ∨ c ∈ replacement := by
  induction text generalizing before shown pending with
  | nil =>
    cases pending with
    | zero =>
      unfold substituteFrom at h
      split at h
      · exact Or.inr h
      · exact absurd h (by simp)
    | succ pending => exact absurd h (by simp [substituteFrom])
  | cons d rest ih =>
    have hrest : ∀ {before shown pending},
        c ∈ substituteFrom identifier replacement before shown pending rest →
          c ∈ d :: rest ∨ c ∈ replacement :=
      fun h => (ih h).imp (List.mem_cons_of_mem _) id
    have hhead : c = d → c ∈ d :: rest ∨ c ∈ replacement := fun e => Or.inl (by simp [e])
    cases pending with
    | zero =>
      simp only [substituteFrom] at h
      split at h
      · rcases List.mem_append.mp h with h | h
        · split at h
          · exact Or.inr h
          · exact absurd h (by simp)
        · split at h
          · rcases List.mem_cons.mp h with h | h
            · exact hhead h
            · exact hrest h
          · exact hrest h
      · rcases List.mem_cons.mp h with h | h
        · exact hhead h
        · exact hrest h
    | succ pending =>
      simp only [substituteFrom] at h
      split at h
      · rcases List.mem_cons.mp h with h | h
        · exact hhead h
        · exact hrest h
      · exact hrest h

end Substitute

/-! ## Taking out a text -/

section Replace

variable {old : List Char}

theorem mem_of_mem_replace {text : List Char} {c : Char} (h : c ∈ Text.replace old [] text) :
    c ∈ text := by
  have hfrom : ∀ pending text, c ∈ Text.replaceFrom
      (fun rest => if old.isPrefixOf rest then some ([], old.length) else none) pending text →
        c ∈ text := by
    intro pending text
    induction text generalizing pending with
    | nil => cases pending <;> simp [Text.replaceFrom]
    | cons d rest ih =>
      intro h
      cases pending with
      | succ pending => exact List.mem_cons_of_mem _ (ih pending h)
      | zero =>
        simp only [Text.replaceFrom] at h
        by_cases hstart : old.isPrefixOf (d :: rest) = true
        · simp only [hstart, if_true, List.nil_append] at h
          exact List.mem_cons_of_mem _ (ih _ h)
        · simp only [hstart, Bool.false_eq_true, if_false] at h
          exact (List.mem_cons.mp h).elim (fun e => by simp [e])
            (fun h => List.mem_cons_of_mem _ (ih 0 h))
  exact hfrom 0 text h

theorem length_replaceFrom_le (pending : Nat) (text : List Char) :
    (Text.replaceFrom
      (fun rest => if old.isPrefixOf rest then some ([], old.length) else none) pending text).length ≤
      text.length := by
  induction text generalizing pending with
  | nil => cases pending <;> simp [Text.replaceFrom]
  | cons c rest ih =>
    cases pending with
    | succ pending =>
      have hrest := ih pending
      rw [Text.replaceFrom, List.length_cons]
      omega
    | zero =>
      rw [Text.replaceFrom]
      by_cases hstart : old.isPrefixOf (c :: rest) = true
      · have hrest := ih (old.length - 1)
        simp only [hstart, if_true, List.nil_append, List.length_cons]
        omega
      · have hrest := ih 0
        simp only [hstart, Bool.false_eq_true, if_false, List.length_cons]
        omega

/-- A text with an occurrence gets shorter. -/
theorem length_replace_lt {text : List Char} (hne : old ≠ []) (h : old <:+: text) :
    (Text.replace old [] text).length < text.length := by
  induction text with
  | nil => exact absurd (List.infix_nil.mp h) hne
  | cons c rest ih =>
    rw [Text.replace, Text.replaceBy, Text.replaceFrom]
    by_cases hstart : old.isPrefixOf (c :: rest) = true
    · have hrest := @length_replaceFrom_le old (old.length - 1) rest
      simp only [hstart, if_true, List.nil_append, List.length_cons]
      omega
    · have hinside : old <:+: rest :=
        (List.infix_cons_iff.mp h).resolve_left fun hbegins =>
          hstart (List.isPrefixOf_iff_prefix.mpr hbegins)
      simp only [hstart, Bool.false_eq_true, if_false, List.length_cons]
      exact Nat.succ_lt_succ (ih hinside)

/-- Taking out a text leaves those texts alone that do not hold it, and no others. -/
theorem replace_eq_self_iff {text : List Char} (hne : old ≠ []) :
    Text.replace old [] text = text ↔ ¬old <:+: text := by
  constructor
  · intro hsame hinside
    have hshorter := length_replace_lt hne hinside
    rw [hsame] at hshorter
    exact absurd hshorter (Nat.lt_irrefl _)
  · intro houtside
    induction text with
    | nil => rfl
    | cons c rest ih =>
      have hstart : old.isPrefixOf (c :: rest) = false := by
        rw [Bool.eq_false_iff]
        intro hbegins
        exact houtside (List.isPrefixOf_iff_prefix.mp hbegins).isInfix
      have hrest : ¬old <:+: rest := fun hinside => houtside (List.infix_cons hinside)
      rw [Text.replace, Text.replaceBy, Text.replaceFrom]
      simp only [hstart, Bool.false_eq_true, if_false]
      exact congrArg (c :: ·) (ih hrest)

/-- A text without some character of the pattern holds no occurrence of it. -/
theorem replace_eq_self {c : Char} (hc : c ∈ old) {text : List Char} (h : c ∉ text) :
    Text.replace old [] text = text :=
  (replace_eq_self_iff (List.ne_nil_of_mem hc)).mpr fun hinside => h (hinside.subset hc)

/-- An occurrence that the text begins with is taken out. -/
theorem replace_append (hne : old ≠ []) (rest : List Char) :
    Text.replace old [] (old ++ rest) = Text.replace old [] rest := by
  have hpending : ∀ done : List Char, Text.replaceFrom
      (fun rest => if old.isPrefixOf rest then some ([], old.length) else none) done.length
      (done ++ rest) = Text.replace old [] rest := by
    intro done
    induction done with
    | nil => rfl
    | cons c done ih => exact ih
  cases hold : old with
  | nil => exact absurd hold hne
  | cons c more =>
    have hbegins : (c :: more).isPrefixOf (c :: (more ++ rest)) = true :=
      List.isPrefixOf_iff_prefix.mpr ⟨rest, rfl⟩
    rw [← hold, ← hpending more, Text.replace, Text.replaceBy, hold, List.cons_append,
      Text.replaceFrom]
    simp [hbegins]

/-- An occurrence ends before a character that the pattern does not hold. -/
theorem isPrefix_append_cons_iff {c : Char} (hc : c ∉ old) (text : List Char) {rest : List Char} :
    old <+: text ++ c :: rest ↔ old <+: text := by
  constructor
  · intro h
    rcases Nat.lt_or_ge text.length old.length with hlt | hge
    · have hshort : text ++ [c] <+: old := by
        refine List.prefix_of_prefix_length_le ?_ h (by simp; omega)
        exact ⟨rest, by simp⟩
      exact absurd (hshort.subset (by simp)) hc
    · exact List.prefix_of_prefix_length_le h (List.prefix_append _ _) hge
  · exact fun h => h.trans (List.prefix_append _ _)

/-- Both sides of a character that the pattern does not hold are read apart. -/
theorem replace_append_cons {c : Char} (hne : old ≠ []) (hc : c ∉ old) (text rest : List Char) :
    Text.replace old [] (text ++ c :: rest) =
      Text.replace old [] text ++ c :: Text.replace old [] rest := by
  -- what is pending at any moment is the rest of an occurrence, which ends before `c`
  have hfrom : ∀ pending text, pending ≤ text.length →
      Text.replaceFrom
          (fun rest => if old.isPrefixOf rest then some ([], old.length) else none) pending
          (text ++ c :: rest) =
        Text.replaceFrom
            (fun rest => if old.isPrefixOf rest then some ([], old.length) else none) pending text ++
          c :: Text.replace old [] rest := by
    intro pending text
    induction text generalizing pending with
    | nil =>
      intro hpending
      have hzero : pending = 0 := by simpa using hpending
      subst hzero
      have hstart : old.isPrefixOf (c :: rest) = false := by
        cases old with
        | nil => exact absurd rfl hne
        | cons d more =>
          have hd : ¬d = c := fun e => hc (by simp [e])
          simp [List.isPrefixOf, hd]
      simp only [List.nil_append, Text.replaceFrom, hstart, Bool.false_eq_true, if_false,
        Text.replace, Text.replaceBy]
    | cons d text ih =>
      intro hpending
      cases pending with
      | succ pending => exact ih pending (by simpa using hpending)
      | zero =>
        have hsame : old.isPrefixOf (d :: (text ++ c :: rest)) = old.isPrefixOf (d :: text) := by
          rw [Bool.eq_iff_iff, List.isPrefixOf_iff_prefix, List.isPrefixOf_iff_prefix]
          exact isPrefix_append_cons_iff hc (d :: text)
        simp only [List.cons_append, Text.replaceFrom, hsame]
        by_cases hstart : old.isPrefixOf (d :: text) = true
        · have hlength := (List.isPrefixOf_iff_prefix.mp hstart).length_le
          simp only [hstart, if_true, List.nil_append]
          exact ih _ (by simp at hlength; omega)
        · simp only [hstart, Bool.false_eq_true, if_false, List.cons_append]
          rw [ih 0 (by simp)]
  exact hfrom 0 text (by simp)

theorem replace_append_marks {marks : List Char} (hne : old ≠ []) (hmarks : marks ≠ [])
    (h : ∀ c ∈ marks, c ∉ old) (text rest : List Char) :
    Text.replace old [] (text ++ (marks ++ rest)) =
      Text.replace old [] text ++ (marks ++ Text.replace old [] rest) := by
  induction marks generalizing text with
  | nil => exact absurd rfl hmarks
  | cons c marks ih =>
    obtain ⟨hc, hmore⟩ := List.forall_mem_cons.mp h
    rw [List.cons_append, replace_append_cons hne hc]
    cases marks with
    | nil => rfl
    | cons d marks =>
      have hbehind := ih (by simp) hmore []
      rw [List.nil_append] at hbehind
      rw [hbehind]
      rfl

end Replace

/-- The texts around a mark that has no character of the implicit package are read apart. -/
theorem dropImplicitPackage_append_mark {mark : String} (hne : mark.toList ≠ [])
    (hmark : ∀ c ∈ mark.toList, c ∉ implicitPackage.toList) (text rest : String) :
    dropImplicitPackage (text ++ mark ++ rest) =
      dropImplicitPackage text ++ mark ++ dropImplicitPackage rest := by
  refine String.toList_inj.mp ?_
  simp only [dropImplicitPackage, Text.toList_onString, String.toList_append, List.append_assoc]
  exact replace_append_marks (by decide) hne hmark text.toList rest.toList

end JavaSignatures.Name
