import BoundedScript.CommandLine
import BoundedScript.Proofs.Parser.Completeness
import BoundedScript.Proofs.Token.Segmentation

/-!
# Scripts that look like paths

Contents of the command line are taken for a path if the last component ends in the extension of
scripts. The extension has a dot in it, and comments are the only lexemes with room for one. So a
text that can be scanned is taken for a path exactly if its last line ends in a comment that would
itself be taken for one.
-/

namespace BoundedScript

namespace ScriptPath

/-! ### Components -/

section

variable {cs xs ys first component : List Char} {others : List (List Char)}

theorem components_slash (cs : List Char) : components ('/' :: cs) = [] :: components cs := by
  rw [components]

theorem components_cons {c : Char} (hc : c ≠ '/') (h : components cs = first :: others) :
    components (c :: cs) = (c :: first) :: others := by
  rw [components, h]
  exact hc

theorem exists_components_eq_cons (cs : List Char) :
    ∃ first others, components cs = first :: others := by
  induction cs with
  | nil => exact ⟨[], [], by rw [components]⟩
  | cons c cs ih =>
    obtain ⟨first, others, h⟩ := ih
    by_cases hc : c = '/'
    · subst hc
      exact ⟨[], components cs, components_slash cs⟩
    · exact ⟨c :: first, others, components_cons hc h⟩

/-- The last component of a text goes on with the first one of what follows. -/
theorem exists_components_append (h : components ys = first :: others) (xs : List Char) :
    ∃ before last, components (xs ++ ys) = before ++ (last ++ first) :: others := by
  induction xs with
  | nil => exact ⟨[], [], h⟩
  | cons c xs ih =>
    obtain ⟨before, last, ih⟩ := ih
    by_cases hc : c = '/'
    · subst hc
      exact ⟨[] :: before, last, by rw [List.cons_append, components_slash, ih, List.cons_append]⟩
    · cases before with
      | nil => exact ⟨[], c :: last, components_cons hc ih⟩
      | cons b before => exact ⟨(c :: b) :: before, last, components_cons hc ih⟩

theorem mem_of_mem_components {c : Char} (hcomponent : component ∈ components cs)
    (hc : c ∈ component) : c ∈ cs := by
  induction cs generalizing component with
  | nil =>
    rw [components, List.mem_singleton] at hcomponent
    rw [hcomponent] at hc
    cases hc
  | cons d cs ih =>
    obtain ⟨first, others, h⟩ := exists_components_eq_cons cs
    by_cases hd : d = '/'
    · subst hd
      rw [components_slash, List.mem_cons] at hcomponent
      rcases hcomponent with rfl | hcomponent
      · cases hc
      · exact List.mem_cons_of_mem _ (ih hcomponent hc)
    · rw [components_cons hd h, List.mem_cons] at hcomponent
      rw [h] at ih
      rcases hcomponent with rfl | hcomponent
      · rcases List.mem_cons.mp hc with rfl | hc
        · exact List.mem_cons_self
        · exact List.mem_cons_of_mem _ (ih List.mem_cons_self hc)
      · exact List.mem_cons_of_mem _ (ih (List.mem_cons_of_mem _ hcomponent) hc)

end

/-! ### The last name -/

/-- The name has the extension, and something before it. -/
def isScriptName (name : List Char) : Bool :=
  extension.isSuffixOf name && extension.length < name.length

theorem isScript_eq_any (path : String) : isScript path = (lastName? path).any isScriptName := by
  unfold isScript
  cases lastName? path <;> rfl

theorem dot_mem_of_isScript {path : String} (h : isScript path = true) : '.' ∈ path.toList := by
  rw [isScript_eq_any, Option.any_eq_true] at h
  obtain ⟨name, hname, h⟩ := h
  have hmem : name ∈ components path.toList := by
    have hdrop := List.mem_of_mem_head? hname
    exact List.mem_reverse.mp ((List.dropWhile_sublist _).mem hdrop)
  rw [isScriptName, Bool.and_eq_true, List.isSuffixOf_iff_suffix] at h
  exact mem_of_mem_components hmem (h.1.mem (by decide))

section

variable {k : Char} {text : List Char}

/-- A character that is not in the extension ends the search for it. -/
theorem isScriptName_append (hk : k ∉ extension) (last first : List Char) :
    isScriptName (last ++ k :: first) = isScriptName (k :: first) := by
  have hsuffix : extension <:+ last ++ k :: first ↔ extension <:+ k :: first := by
    constructor
    · intro h
      rcases List.suffix_or_suffix_of_suffix h (List.suffix_append last (k :: first)) with h | h
      · exact h
      · exact absurd (h.mem List.mem_cons_self) hk
    · intro h
      exact h.trans (List.suffix_append _ _)
  have hlength (h : extension <:+ k :: first) : extension.length < (k :: first).length := by
    apply Nat.lt_of_le_of_ne h.length_le
    intro heq
    exact hk (h.eq_of_length heq ▸ List.mem_cons_self)
  rw [Bool.eq_iff_iff]
  simp only [isScriptName, Bool.and_eq_true, List.isSuffixOf_iff_suffix, decide_eq_true_eq]
  rw [hsuffix, List.length_append]
  constructor
  · intro h
    exact ⟨h.1, hlength h.1⟩
  · intro h
    exact ⟨h.1, Nat.lt_add_left _ (hlength h.1)⟩

/-- The search for the last name stops at the latest at a component that counts. -/
theorem lastName?_of_components {cs name : List Char} {before others : List (List Char)}
    (h : components cs = before ++ name :: others) (hname : isIdle name = false) :
    lastName? (.ofList cs) = some ((others.reverse.dropWhile isIdle).head?.getD name) := by
  rw [lastName?, String.toList_ofList, h, List.reverse_append, List.reverse_cons,
    List.append_assoc, List.dropWhile_append]
  cases others.reverse.dropWhile isIdle with
  | nil => simp [hname]
  | cons other rest => simp

theorem isIdle_append_cons (hdot : k ≠ '.') (last first : List Char) :
    isIdle (last ++ k :: first) = false := by
  cases last <;> simp [isIdle, hdot]

/-- What stands before a character that is neither a slash nor in the extension has no part in
whether a text is the path of a script. -/
theorem isScript_append (hslash : k ≠ '/') (hk : k ∉ extension) (before : List Char) :
    isScript (.ofList (before ++ k :: text)) = isScript (.ofList (k :: text)) := by
  have hdot : k ≠ '.' := by
    rintro rfl
    exact hk (by decide)
  obtain ⟨first, others, htext⟩ := exists_components_eq_cons text
  have hpart := components_cons hslash htext
  obtain ⟨init, last, hwhole⟩ := exists_components_append hpart before
  rw [← List.nil_append (_ :: others)] at hpart
  rw [isScript_eq_any, isScript_eq_any,
    lastName?_of_components hwhole (isIdle_append_cons hdot last first),
    lastName?_of_components hpart (isIdle_append_cons hdot [] first)]
  cases (others.reverse.dropWhile isIdle).head? with
  | none => exact isScriptName_append hk last first
  | some name => rfl

end

/-- The dot of the extension is on the last line of a path. -/
theorem exists_dot_of_isScript {path : String} (h : isScript path = true) :
    ∃ before after, path.toList = before ++ '.' :: after ∧ '\n' ∉ after := by
  by_cases hbreak : '\n' ∈ path.toList
  · obtain ⟨line, before, hreverse, hline⟩ :=
      List.eq_append_cons_of_mem (List.mem_reverse.mpr hbreak)
    have hpath : path.toList = before.reverse ++ '\n' :: line.reverse := by
      simpa using congrArg List.reverse hreverse
    rw [← String.ofList_toList (s := path), hpath, isScript_append (by decide) (by decide)] at h
    have hdot := dot_mem_of_isScript h
    rw [String.toList_ofList, List.mem_cons] at hdot
    obtain ⟨xs, ys, hxs⟩ := List.append_of_mem (hdot.resolve_left (by decide))
    refine ⟨before.reverse ++ '\n' :: xs, ys, by simp [hpath, hxs], ?_⟩
    intro hmem
    apply hline
    rw [← List.mem_reverse, hxs]
    simp [hmem]
  · obtain ⟨xs, ys, hxs⟩ := List.append_of_mem (dot_mem_of_isScript h)
    refine ⟨xs, ys, hxs, ?_⟩
    intro hmem
    exact hbreak (by simp [hxs, hmem])

end ScriptPath

/-! ### Dots in scripts -/

namespace Lexeme

theorem dot_notMem_of_isFixed {t : Token} (h : t.isFixed = true) : '.' ∉ t.spelling.toList := by
  have hwords : ∀ t ∈ Token.words, '.' ∉ t.spelling.toList := by decide
  have hsymbols : ∀ t ∈ Token.symbols, '.' ∉ t.spelling.toList := by decide
  rcases isFixed_iff.mp h with ht | ht
  · exact hwords t ht
  · exact hsymbols t ht

theorem isComment_of_dot {lexeme : List Char} (h : Matches lexeme) (hdot : '.' ∈ lexeme) :
    IsComment lexeme := by
  rcases h with hs | hs | hs | ⟨c, rest, rfl, hc, hrest⟩ | ⟨t, ht, rfl⟩
  · exact absurd (hs.2 _ hdot) (by decide)
  · exact hs
  · exact absurd (isDigit_iff.mpr (hs.2 _ hdot)) (by decide)
  · rcases List.mem_cons.mp hdot with rfl | hdot
    · exact absurd (isNameStart_iff.mpr hc) (by decide)
    · exact absurd (isNameChar_iff.mpr (hrest _ hdot)) (by decide)
  · exact absurd hdot (dot_notMem_of_isFixed ht)

end Lexeme

open Lexeme

/-- A dot stands after a lexeme or in a comment. -/
theorem Lexeme.after_or_comment_of_dot {lexeme after before rest : List Char} (h : Matches lexeme)
    (hdot : lexeme ++ after = before ++ '.' :: rest) :
    (∃ xs, before = lexeme ++ xs ∧ after = xs ++ '.' :: rest) ∨
      ∃ ys, before = '#' :: ys ∧ '\n' ∉ ys := by
  rcases List.append_eq_append_iff.mp hdot with ⟨xs, hxs⟩ | ⟨xs, rfl, hxs⟩
  · exact .inl ⟨xs, hxs⟩
  · cases xs with
    | nil => exact .inl ⟨[], by simp, hxs.symm⟩
    | cons c xs =>
      obtain ⟨rfl, -⟩ := List.cons.inj hxs
      obtain ⟨text, htext, hbreak⟩ := isComment_of_dot h (by simp)
      cases before with
      | nil => cases htext
      | cons d ys =>
        obtain ⟨rfl, rfl⟩ := List.cons.inj htext
        exact .inr ⟨ys, rfl, fun hmem => hbreak (List.mem_append_left _ hmem)⟩

/-- Every dot of a text that is cut to its end has the mark of a comment before it on its line. -/
theorem Segmented.comment_of_dot {start text end_ : List Char} {ts : List Located}
    (h : Segmented start text ts end_) (hend : end_ = []) {before rest : List Char}
    (htext : text = before ++ '.' :: rest) :
    ∃ xs ys, before = xs ++ '#' :: ys ∧ '\n' ∉ ys := by
  induction h generalizing before with
  | done =>
    subst hend
    simp at htext
  | @skip _ lexeme _ _ _ hl _ _ ih | @token _ lexeme _ _ _ _ hl _ _ ih =>
    rcases after_or_comment_of_dot hl.1 htext with ⟨as, rfl, hafter⟩ | ⟨ys, hys⟩
    · obtain ⟨xs, ys, rfl, hys⟩ := ih hend hafter
      exact ⟨lexeme ++ xs, ys, by simp, hys⟩
    · exact ⟨[], ys, hys⟩

/-! ### Contents of the command line -/

open ScriptPath

/-- The text ends in a comment that, taken by itself, is the path of a script. -/
def EndsInScriptPath (source : String) : Prop :=
  ∃ before text, source.toList = before ++ '#' :: text ∧ '\n' ∉ text ∧
    isScript (.ofList ('#' :: text)) = true

theorem isScript_iff_of_scan {source : String} {ts : List Located}
    (h : Token.scan source = .ok ts) : isScript source = true ↔ EndsInScriptPath source := by
  constructor
  · intro hscript
    obtain ⟨before, after, hsource, hafter⟩ := exists_dot_of_isScript hscript
    obtain ⟨xs, ys, rfl, hys⟩ := (Token.segmented_of_scan h).comment_of_dot rfl hsource
    rw [List.append_assoc, List.cons_append] at hsource
    rw [← String.ofList_toList (s := source), hsource, isScript_append (by decide) (by decide)]
      at hscript
    exact ⟨xs, ys ++ '.' :: after, hsource, by simp [hys, hafter], hscript⟩
  · rintro ⟨before, text, hsource, -, hscript⟩
    rwa [← String.ofList_toList (s := source), hsource, isScript_append (by decide) (by decide)]

open CommandLine in
theorem load_of_not_isScript {m : Type → Type} [Monad m]
    (read : String → m (Except ReadError String)) {contents : String}
    (h : isScript contents = false) (limit : Nat) :
    Invocation.load read ⟨contents, false, limit⟩ = pure (.ok contents) := by
  simp [Invocation.load, h]

/-- A program is its own script unless it ends in a comment that is the path of a script, and only
then it is taken for a path. -/
theorem program_is_its_own_script {source : String} {tree : Expr}
    (h : Program.parse source = .ok tree) :
    (isScript source = true ↔ EndsInScriptPath source) ∧
    (¬ EndsInScriptPath source → ∀ (m : Type → Type) [Monad m]
      (read : String → m (Except ReadError String)) (limit : Nat),
      CommandLine.Invocation.load read ⟨source, false, limit⟩ = pure (.ok source)) := by
  obtain ⟨ts, es, hscan, -⟩ := Program.parse_eq_ok_iff_derives.mp h
  have hscript := isScript_iff_of_scan hscan
  refine ⟨hscript, ?_⟩
  intro hends m _ read limit
  apply load_of_not_isScript
  rw [← Bool.not_eq_true, hscript]
  exact hends

/-- The path in this comment is not at its end. -/
theorem quotient_with_comment_is_its_own_script :
    let source := "6 / 2 # a.proof?"
    let load := CommandLine.Invocation.load (m := Id) ({} : FileTree).read
    (Program.parse source).isOk = true ∧ isScript source = false ∧
      load ⟨source, false, 10⟩ = .ok source := by
  intro source load
  have hscript : isScript source = false := by decide
  have hok : (Program.parse source).isOk = true := by decide +kernel
  cases h : Program.parse source with
  | error e =>
    rw [h] at hok
    cases hok
  | ok tree =>
    obtain ⟨hiff, hload⟩ := program_is_its_own_script h
    have hends : ¬ EndsInScriptPath source := by
      rw [← hiff, hscript]
      exact Bool.false_ne_true
    exact ⟨rfl, hscript, hload hends Id _ 10⟩

/-- The comment of this program hides it: it is taken for a file, and there is none. -/
theorem program_with_path_in_comment_is_not_found :
    let source := "1 # a.proof"
    let load := CommandLine.Invocation.load (m := Id) ({} : FileTree).read
    Program.parse source =
        .ok (.block [.literal (.integer ⟨1, by decide, by decide⟩) 1] 1) ∧
      isScript source = true ∧
      load ⟨source, false, 10⟩ = .error (.unreadable source .notFound) := by
  have hscan : Token.scan "1 # a.proof" =
      .ok [⟨.integer ⟨1, by decide, by decide⟩, 1⟩] := by decide +kernel
  have hone : Grammar.Expression .disjunction [⟨.integer ⟨1, by decide, by decide⟩, 1⟩]
      (.literal (.integer ⟨1, by decide, by decide⟩) 1) :=
    .disjunction (.conjunction (.negation (.comparison (.sum (.product (.signed .integer))))))
  have hparse := Program.parse_eq_ok_iff_derives.mpr
    ⟨_, _, hscan, .filled .nil (.single (.expression hone)) .nil, rfl⟩
  exact ⟨hparse, by decide, rfl⟩

end BoundedScript
