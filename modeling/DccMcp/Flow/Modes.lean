import DccMcp.Flow.Template
import Mathlib.Data.List.TakeWhile

/-!
# Two Modes of a Template

A string with references is rendered in one of two modes. In the embedded mode
it is cut into text and references and each reference is replaced by the text
of its value. In the whole mode the string is one reference and its value
replaces it, with its type. This file says when the mode that is taken is the
one the parts of the string ask for.

The embedded mode reads from the left, to the next pair of closing braces. The
test for the whole mode looks at both ends of the string without the white
space around it and counts closing pairs. A brace more at the end is not
counted as a pair of its own, white space is lost with the string around it,
and a second opening pair is not seen.

## Main definitions

* `Piece.source`: What a part was in the string.
* `meaning`: What a string is rendered to by its parts.
* `Braced`, `ModeFits`: The strings that are taken whole, and those of them
  that should be.

## Theorems

* `renderString_eq_meaning_iff`: When every context renders by the parts.
-/

namespace DccMcp

namespace Workflow

open Json

/-! ## Pairs of a character -/

/-- There is no pair in the text, and none is made by one more behind it. -/
def Unpaired (c : Char) (s : List Char) : Prop := countPairs c (s ++ [c]) = 0

theorem countPairs_cons (c a : Char) (s : List Char) (h : ¬(a = c ∧ s.head? = some c)) :
    countPairs c (a :: s) = countPairs c s := by
  cases s with
  | nil => rfl
  | cons b s =>
      rw [countPairs, if_neg]
      rintro ⟨ha, hb⟩
      exact h ⟨ha, by rw [hb]; rfl⟩

theorem unpaired_cons (c a : Char) (s : List Char) :
    Unpaired c (a :: s) ↔ ¬(a = c ∧ (s ++ [c]).head? = some c) ∧ Unpaired c s := by
  unfold Unpaired
  rw [List.cons_append]
  constructor
  · intro h
    have hfirst : ¬(a = c ∧ (s ++ [c]).head? = some c) := by
      rintro ⟨rfl, hhead⟩
      cases hs : s ++ [a] with
      | nil => rw [hs] at hhead; cases hhead
      | cons b rest =>
          rw [hs, List.head?_cons, Option.some.injEq] at hhead
          rw [hs, countPairs, if_pos ⟨rfl, hhead⟩] at h
          exact absurd h (Nat.succ_ne_zero _)
    rw [countPairs_cons c a _ hfirst] at h
    exact ⟨hfirst, h⟩
  · rintro ⟨hfirst, h⟩
    rw [countPairs_cons c a _ hfirst]
    exact h

variable (c : Char) (s : List Char)

/-- A text with pairs has a first one. -/
theorem exists_first_pair (h : countPairs c s ≠ 0) :
    ∃ front rest, s = front ++ c :: c :: rest ∧ Unpaired c front := by
  induction s with
  | nil => exact absurd rfl h
  | cons a s ih =>
      by_cases hfirst : a = c ∧ s.head? = some c
      · rcases hfirst with ⟨rfl, hhead⟩
        rcases List.head?_eq_some_iff.mp hhead with ⟨rest, rfl⟩
        exact ⟨[], rest, rfl, rfl⟩
      · rw [countPairs_cons c a s hfirst] at h
        rcases ih h with ⟨front, rest, rfl, hfront⟩
        refine ⟨a :: front, rest, rfl, (unpaired_cons c a front).mpr ⟨?_, hfront⟩⟩
        rintro ⟨ha, hhead⟩
        refine hfirst ⟨ha, ?_⟩
        cases front with
        | nil => rfl
        | cons b front => exact hhead

theorem countPairs_unpaired (front rest : List Char) (h : Unpaired c front) :
    countPairs c (front ++ c :: c :: rest) = countPairs c rest + 1 := by
  induction front with
  | nil => rw [List.nil_append, countPairs, if_pos ⟨rfl, rfl⟩]
  | cons a front ih =>
      rcases (unpaired_cons c a front).mp h with ⟨hfirst, hfront⟩
      rw [List.cons_append, countPairs_cons, ih hfront]
      rintro ⟨ha, hhead⟩
      refine hfirst ⟨ha, ?_⟩
      cases front with
      | nil => rfl
      | cons b front => exact hhead

theorem countPairs_append_pair (s rest : List Char) : countPairs c (s ++ c :: c :: rest) ≠ 0 := by
  induction s with
  | nil =>
      rw [List.nil_append, countPairs, if_pos ⟨rfl, rfl⟩]
      exact Nat.succ_ne_zero _
  | cons a s ih =>
      by_cases hfirst : a = c ∧ (s ++ c :: c :: rest).head? = some c
      · rcases hfirst with ⟨rfl, hhead⟩
        rcases List.head?_eq_some_iff.mp hhead with ⟨r, hr⟩
        rw [List.cons_append, hr, countPairs, if_pos ⟨rfl, rfl⟩]
        exact Nat.succ_ne_zero _
      · rw [List.cons_append, countPairs_cons c a _ hfirst]
        exact ih

/-- Text that ends with its only pair, counted from the left: the pair is the
    first one, or it overlaps with the first one. -/
theorem last_pair (h : countPairs c (s ++ [c, c]) = 1) :
    Unpaired c s ∨ ∃ front, s = front ++ [c] ∧ Unpaired c front := by
  rcases exists_first_pair c (s ++ [c, c]) (by omega) with ⟨front, rest, heq, hfront⟩
  rw [heq, countPairs_unpaired c front rest hfront] at h
  rcases rest.eq_nil_or_concat' with rfl | ⟨init, x, rfl⟩
  · left
    rw [List.append_inj_left' heq rfl]
    exact hfront
  · rcases init.eq_nil_or_concat' with rfl | ⟨init, y, rfl⟩
    · right
      have hsplit : s ++ [c, c] = (front ++ [c]) ++ [c, x] := by
        rw [heq, List.append_assoc]
        rfl
      exact ⟨front, List.append_inj_left' hsplit rfl, hfront⟩
    · -- With two more characters behind the first pair there is a second one.
      exfalso
      have hsplit : s ++ [c, c] = (front ++ c :: c :: init) ++ [y, x] := by
        rw [heq]
        simp
      have hend := List.append_inj_right' hsplit rfl
      simp only [List.cons.injEq, and_true] at hend
      rw [← hend.1, ← hend.2, List.append_assoc, List.cons_append, List.nil_append] at h
      exact countPairs_append_pair c init [] (by omega)

/-! ## White space -/

theorem trim_spec : ∃ front back, s = front ++ (trim s ++ back) ∧
    (∀ c ∈ front, isWhitespace c = true) ∧ ∀ c ∈ back, isWhitespace c = true := by
  refine ⟨s.takeWhile isWhitespace,
    ((s.dropWhile isWhitespace).reverse.takeWhile isWhitespace).reverse, ?_,
    fun c hc => List.mem_takeWhile_imp hc,
    fun c hc => List.mem_takeWhile_imp (List.mem_reverse.mp hc)⟩
  unfold trim
  rw [← List.reverse_append, List.takeWhile_append_dropWhile, List.reverse_reverse,
    List.takeWhile_append_dropWhile]

/-- Trimming a text with a visible end. -/
theorem trim_concat (c : Char) (h : isWhitespace c = false) :
    trim (s ++ [c]) = s.dropWhile isWhitespace ++ [c] := by
  have hc : ∀ r, (c :: r).dropWhile isWhitespace = c :: r := fun r =>
    List.dropWhile_cons_of_neg (by rw [h]; exact Bool.false_ne_true)
  have hfront : (s ++ [c]).dropWhile isWhitespace = s.dropWhile isWhitespace ++ [c] := by
    rw [List.dropWhile_append]
    split
    · next hempty => rw [hc, List.isEmpty_iff.mp hempty, List.nil_append]
    · rfl
  unfold trim
  rw [hfront, List.reverse_append, List.reverse_singleton, List.singleton_append, hc,
    List.reverse_cons, List.reverse_reverse]

theorem trim_braces : trim ('{' :: '{' :: s ++ ['}', '}']) = '{' :: '{' :: s ++ ['}', '}'] := by
  have hsplit : '{' :: '{' :: s ++ ['}', '}'] = ('{' :: '{' :: s ++ ['}']) ++ ['}'] := by simp
  rw [hsplit, trim_concat _ '}' (by decide), List.cons_append, List.cons_append,
    List.dropWhile_cons_of_neg (by decide)]

theorem ne_of_isWhitespace (h : ∀ c ∈ s, isWhitespace c = true) : '{' ∉ s := by
  intro hmem
  exact absurd (h '{' hmem) (by decide)

/-! ## The parts of a string -/

/-- What a part was in the string. -/
def Piece.source : Piece → List Char
  | .text s => s
  | .reference path => '{' :: '{' :: path ++ ['}', '}']
  | .unterminated => []

/-- Nothing of a string is lost between its parts. -/
theorem source_piecesFrom (inside : Bool) (read s : List Char)
    (h : Piece.unterminated ∉ piecesFrom inside read s) :
    (piecesFrom inside read s).flatMap Piece.source =
      (if inside then ['{', '{'] else []) ++ (read.reverse ++ s) := by
  fun_induction piecesFrom inside read s with
  | case1 read => simp [Piece.source]
  | case2 read rest ih =>
      rw [List.flatMap_cons, ih (fun hmem => h (List.mem_cons_of_mem _ hmem))]
      simp [Piece.source]
  | case3 read c rest _ ih =>
      rw [ih h]
      simp
  | case4 => exact absurd List.mem_cons_self h
  | case5 read rest ih =>
      rw [List.flatMap_cons, ih (fun hmem => h (List.mem_cons_of_mem _ hmem))]
      simp [Piece.source]
  | case6 read c rest _ ih =>
      rw [ih h]
      simp

theorem source_pieces (s : List Char) (h : Piece.unterminated ∉ pieces s) :
    (pieces s).flatMap Piece.source = s := by
  unfold pieces at h ⊢
  rw [source_piecesFrom false [] s h]
  rfl

theorem piecesFrom_text (s read rest : List Char) (h : '{' ∉ s) :
    piecesFrom false read (s ++ '{' :: '{' :: rest) =
      .text (read.reverse ++ s) :: piecesFrom true [] rest := by
  induction s generalizing read with
  | nil => rw [List.nil_append, piecesFrom, List.append_nil]
  | cons c s ih =>
      rw [List.mem_cons, not_or] at h
      rw [List.cons_append, piecesFrom, ih (c :: read) h.2, List.reverse_cons, List.append_assoc]
      · rfl
      · rintro r rfl
        exact absurd rfl h.1

theorem piecesFrom_end (s read : List Char) (h : '{' ∉ s) :
    piecesFrom false read s = [.text (read.reverse ++ s)] := by
  induction s generalizing read with
  | nil => rw [piecesFrom, List.append_nil]
  | cons c s ih =>
      rw [List.mem_cons, not_or] at h
      rw [piecesFrom, ih (c :: read) h.2, List.reverse_cons, List.append_assoc]
      · rfl
      · rintro r rfl
        exact absurd rfl h.1

theorem piecesFrom_reference (path read rest : List Char) (h : Unpaired '}' path) :
    piecesFrom true read (path ++ '}' :: '}' :: rest) =
      .reference (read.reverse ++ path) :: piecesFrom false [] rest := by
  induction path generalizing read with
  | nil => rw [List.nil_append, piecesFrom, List.append_nil]
  | cons c path ih =>
      rcases (unpaired_cons '}' c path).mp h with ⟨hfirst, hpath⟩
      rw [List.cons_append, piecesFrom, ih (c :: read) hpath, List.reverse_cons, List.append_assoc]
      · rfl
      · rintro r rfl heq
        refine hfirst ⟨rfl, ?_⟩
        cases path with
        | nil => rfl
        | cons d path =>
            rw [List.cons_append, List.cons.injEq] at heq
            rw [heq.1]
            rfl

/-- The parts of a string with white space around braces. -/
theorem pieces_of_braces (front path rest : List Char)
    (hfront : ∀ c ∈ front, isWhitespace c = true) (hpath : Unpaired '}' path) :
    pieces (front ++ ('{' :: '{' :: (path ++ '}' :: '}' :: rest))) =
      .text front :: .reference path :: piecesFrom false [] rest := by
  unfold pieces
  rw [piecesFrom_text front [] _ (ne_of_isWhitespace front hfront),
    piecesFrom_reference path [] rest hpath]
  rfl

/-- The string is taken whole, with this between its braces. -/
structure Braced (s body : List Char) : Prop where
  braces : trim s = '{' :: '{' :: body ++ ['}', '}']
  closing : countPairs '}' (trim s) = 1
  opening : 2 ^ 64 - 1 - countPairs '{' (trim s) ≠ 1

theorem wholeReference_eq_some (s path : List Char) :
    wholeReference s = some path ↔ ∃ body, Braced s body ∧ trim body = path := by
  unfold wholeReference
  dsimp only
  constructor
  · intro h
    split at h
    · next rest htrim =>
        split at h
        · next hend =>
            split at h
            · cases h
            · next hcount =>
                rw [not_or, not_not] at hcount
                cases h
                refine ⟨(rest.reverse.drop 2).reverse, ⟨?_, hcount.2, hcount.1⟩, rfl⟩
                have hrest : rest = (rest.reverse.drop 2).reverse ++ ['}', '}'] := by
                  have hback := congrArg List.reverse (List.take_append_drop 2 rest.reverse)
                  rw [List.reverse_append, List.reverse_reverse, hend] at hback
                  exact hback.symm
                rw [htrim, List.cons_append, List.cons_append, ← hrest]
        · cases h
    · cases h
  · rintro ⟨body, ⟨hbraces, hclosing, hopening⟩, rfl⟩
    rw [hbraces] at hclosing hopening ⊢
    simp only [List.cons_append, List.reverse_append, List.reverse_cons, List.reverse_nil,
      List.nil_append, List.take_succ_cons, List.take_zero, if_true, List.drop_succ_cons,
      List.drop_zero, List.reverse_reverse] at hclosing hopening ⊢
    rw [if_neg]
    rintro (h | h)
    · exact hopening h
    · exact h hclosing

/-! ## What the parts ask for -/

section Meaning

variable (lookupItem : String → Option Value) (root : Value) (text : Value → String)

/-- The value of a reference, which keeps its type. -/
def whole (template : String) (path : List Char) : Except TemplateError Value :=
  match resolvePath (m := Id) lookupItem root path with
  | none => .error (.unknownPath template (String.ofList path))
  | some value => .ok value

/-- The parts one after the other, each reference as a text. -/
def embedded (template : String) : Except TemplateError Value :=
  match renderPieces (m := Id) lookupItem root text template (pieces template.toList) with
  | .error e => .error e
  | .ok out => .ok (.string out)

/-- The reference a string consists of: it is its only part, and nothing in it
    opens another one. -/
def soleReference (s : List Char) : Option (List Char) :=
  match pieces s with
  | [.text [], .reference path, .text []] => if countPairs '{' s = 1 then some path else none
  | _ => none

theorem soleReference_eq (s front path back : List Char)
    (h : pieces s = [.text front, .reference path, .text back]) :
    soleReference s =
      if front = [] ∧ back = [] ∧ countPairs '{' s = 1 then some path else none := by
  unfold soleReference
  rw [h]
  cases front with
  | cons c front => simp
  | nil =>
      cases back with
      | cons c back => simp
      | nil => simp

/-- What a string is rendered to by its parts. -/
def meaning (template : String) : Except TemplateError Value :=
  match soleReference template.toList with
  | some path => whole lookupItem root template (trim path)
  | none => embedded lookupItem root text template

theorem renderString_eq (template : String) :
    renderString (m := Id) lookupItem root text template =
      match wholeReference template.toList with
      | some path => whole lookupItem root template path
      | none => embedded lookupItem root text template := by
  unfold renderString
  cases wholeReference template.toList <;> rfl

/-- The parts of a string with one reference in it. -/
theorem embedded_of_pieces (template : String) (front path back : List Char)
    (h : pieces template.toList = [.text front, .reference path, .text back]) :
    embedded lookupItem root text template =
      if trim path = [] then .error (.malformed template "empty reference")
      else match resolvePath (m := Id) lookupItem root (trim path) with
        | none => .error (.unknownPath template (String.ofList (trim path)))
        | some value => .ok (.string (String.ofList front ++
            (embeddedText text value ++ (String.ofList back ++ "")))) := by
  unfold embedded
  rw [h]
  unfold renderPieces
  simp only [renderPieces]
  by_cases hempty : trim path = []
  · simp only [if_pos hempty]
    rfl
  · simp only [if_neg hempty]
    cases hvalue : resolvePath (m := Id) lookupItem root (trim path) with
    | none => rfl
    | some value => rfl

end Meaning

/-- The path begins with a name. -/
def Named (path : List Char) : Prop :=
  ∃ first rest, tokenizePath path = some (.ident first :: rest)

theorem resolvePath_unnamed (lookupItem : String → Option Value) (root : Value)
    (path : List Char) (h : ¬Named path) : resolvePath (m := Id) lookupItem root path = none := by
  unfold resolvePath
  cases htokens : tokenizePath path with
  | none => rfl
  | some tokens =>
      cases tokens with
      | nil => rfl
      | cons token rest =>
          cases token with
          | ident first => exact absurd ⟨first, rest, htokens⟩ h
          | index _ => rfl

/-- Where nothing is bound nothing is found. -/
theorem resolvePath_unbound (path : List Char) :
    resolvePath (m := Id) (fun _ => none) .null path = none := by
  by_cases h : Named path
  · rcases h with ⟨first, rest, htokens⟩
    unfold resolvePath
    rw [htokens]
    rfl
  · exact resolvePath_unnamed _ _ path h

theorem walkPath_null (tokens : List PathToken) : walkPath .null tokens = .null := by
  induction tokens with
  | nil => rfl
  | cons token rest ih => cases token <;> exact ih

/-- Where every name is bound to null the paths are null. -/
theorem resolvePath_null (path : List Char) (h : Named path) :
    resolvePath (m := Id) (fun _ => some .null) .null path = some .null := by
  rcases h with ⟨first, rest, htokens⟩
  unfold resolvePath
  rw [htokens]
  exact congrArg some (walkPath_null rest)

theorem countPairs_opening : countPairs '}' ('{' :: '{' :: s) = countPairs '}' s := by
  rw [countPairs_cons _ _ _ (by simp), countPairs_cons _ _ _ (by simp)]

/-- A string that consists of a reference is taken whole. -/
theorem wholeReference_of_sole (s path : List Char) (h : soleReference s = some path) :
    wholeReference s = some (trim path) := by
  have hpieces : pieces s = [.text [], .reference path, .text []] ∧ countPairs '{' s = 1 := by
    unfold soleReference at h
    split at h
    · next path' hparts =>
        split at h
        · next hcount =>
            cases h
            exact ⟨hparts, hcount⟩
        · cases h
    · cases h
  rcases hpieces with ⟨hpieces, hopening⟩
  have hsource := source_pieces s (by rw [hpieces]; simp)
  rw [hpieces] at hsource
  have hs : s = '{' :: '{' :: path ++ ['}', '}'] := by
    rw [← hsource]
    simp [Piece.source]
  -- The scan stops at the first pair, so that is the last one.
  have hunpaired : Unpaired '}' path := by
    rcases exists_first_pair '}' (path ++ ['}', '}']) (countPairs_append_pair '}' path []) with
      ⟨front, rest, heq, hfront⟩
    have hparts := pieces_of_braces [] front rest (fun c hc => absurd hc List.not_mem_nil) hfront
    rw [← heq, List.nil_append] at hparts
    rw [hs, List.cons_append, List.cons_append, hparts] at hpieces
    simp only [List.cons.injEq, Piece.reference.injEq, true_and] at hpieces
    rw [← hpieces.1]
    exact hfront
  refine (wholeReference_eq_some s (trim path)).mpr ⟨path, ⟨?_, ?_, ?_⟩, rfl⟩
  · rw [hs, trim_braces]
  · rw [hs, trim_braces, List.cons_append, List.cons_append, countPairs_opening,
      countPairs_unpaired '}' path [] hunpaired]
    rfl
  · rw [hs, trim_braces, ← hs, hopening]
    decide

/-- No closing brace is left at the end of what is taken whole; and if that is
    a path that can be found, or nothing, then no white space is around it and
    nothing in it opens another reference. -/
def ModeFits (s : List Char) : Prop :=
  ∀ body, Braced s body → body.getLast? ≠ some '}' ∧
    (trim body = [] ∨ Named (trim body) → trim s = s ∧ countPairs '{' s = 1)

/-- The parts of a string that is taken whole: the reference ends where the
    string does, or one brace earlier. -/
theorem pieces_of_braced (s body : List Char) (h : Braced s body) : ∃ front back,
    s = front ++ (trim s ++ back) ∧
    ((body.getLast? ≠ some '}' ∧ pieces s = [.text front, .reference body, .text back]) ∨
      ∃ init, body = init ++ ['}'] ∧
        pieces s = [.text front, .reference init, .text ('}' :: back)]) := by
  rcases trim_spec s with ⟨front, back, hs, hfront, hback⟩
  have hback' := ne_of_isWhitespace back hback
  have hcount := h.closing
  rw [h.braces, List.cons_append, List.cons_append, countPairs_opening] at hcount
  have hs' := hs
  rw [h.braces, List.cons_append, List.cons_append, List.cons_append, List.cons_append,
    List.append_assoc, List.cons_append, List.cons_append, List.nil_append] at hs'
  refine ⟨front, back, hs, ?_⟩
  rcases last_pair '}' body hcount with hbody | ⟨init, rfl, hinit⟩
  · left
    constructor
    · intro hlast
      rcases List.getLast?_eq_some_iff.mp hlast with ⟨init, rfl⟩
      unfold Unpaired at hbody
      rw [List.append_assoc] at hbody
      exact countPairs_append_pair '}' init [] hbody
    · rw [hs', pieces_of_braces front body back hfront hbody, piecesFrom_end back [] hback']
      rfl
  · refine Or.inr ⟨init, rfl, ?_⟩
    have hmem : '{' ∉ '}' :: back := by
      rw [List.mem_cons, not_or]
      exact ⟨by decide, hback'⟩
    rw [hs', List.append_assoc, List.cons_append, List.nil_append,
      pieces_of_braces front init ('}' :: back) hfront hinit, piecesFrom_end _ [] hmem]
    rfl

/-- A brace that is left at the end is in the path of the one mode only. -/
theorem trim_ne_trim_concat : trim (s ++ ['}']) ≠ trim s := by
  intro heq
  have hlength := congrArg List.length heq
  have hle : (trim s).length ≤ (s.dropWhile isWhitespace).length := by
    unfold trim
    rw [List.length_reverse]
    exact (List.dropWhile_sublist _).length_le.trans_eq List.length_reverse
  rw [trim_concat s '}' (by decide), List.length_append, List.length_singleton] at hlength
  omega

/-- Nothing of a string is lost between its parts, and a string is rendered by
    its parts in every context exactly when the mode that is taken fits. -/
theorem renderString_eq_meaning_iff (template : String) :
    (Piece.unterminated ∉ pieces template.toList →
      (pieces template.toList).flatMap Piece.source = template.toList) ∧
    ((∀ (lookupItem : String → Option Value) (root : Value) (text : Value → String),
      renderString (m := Id) lookupItem root text template =
        meaning lookupItem root text template) ↔ ModeFits template.toList) := by
  refine ⟨source_pieces template.toList, ?_⟩
  simp only [renderString_eq]
  unfold meaning
  cases hwhole : wholeReference template.toList with
  | none =>
      -- Then no part is its only one.
      have hsole : soleReference template.toList = none := by
        cases hsole : soleReference template.toList with
        | none => rfl
        | some path =>
            rw [wholeReference_of_sole _ _ hsole] at hwhole
            cases hwhole
      rw [hsole]
      refine ⟨fun _ body hbody => ?_, fun _ _ _ _ => rfl⟩
      rw [(wholeReference_eq_some _ _).mpr ⟨body, hbody, rfl⟩] at hwhole
      cases hwhole
  | some path =>
      rcases (wholeReference_eq_some _ _).mp hwhole with ⟨body, hbody, rfl⟩
      have hunique : ∀ body', Braced template.toList body' → body' = body := by
        intro body' hbody'
        have heq := hbody'.braces.symm.trans hbody.braces
        simp only [List.cons_append, List.cons.injEq, true_and] at heq
        exact List.append_inj_left' heq rfl
      rcases pieces_of_braced _ body hbody with ⟨front, back, hs, ⟨hlast, hparts⟩ | ⟨init, rfl,
        hparts⟩⟩
      · by_cases hplain : trim template.toList = template.toList ∧
          countPairs '{' template.toList = 1
        · have hends : front = [] ∧ back = [] := by
            have hlength := congrArg List.length hs
            rw [hplain.1, List.length_append, List.length_append] at hlength
            exact ⟨List.length_eq_zero_iff.mp (by omega), List.length_eq_zero_iff.mp (by omega)⟩
          have hsole : soleReference template.toList = some body := by
            rw [soleReference_eq _ front body back hparts]
            exact if_pos ⟨hends.1, hends.2, hplain.2⟩
          rw [hsole]
          refine ⟨fun _ body' hbody' => ?_, fun _ _ _ _ => rfl⟩
          rw [hunique body' hbody']
          exact ⟨hlast, fun _ => hplain⟩
        · have hsole : soleReference template.toList = none := by
            rw [soleReference_eq _ front body back hparts]
            refine if_neg ?_
            rintro ⟨rfl, rfl, hcount⟩
            rw [List.nil_append, List.append_nil] at hs
            exact hplain ⟨hs.symm, hcount⟩
          rw [hsole]
          dsimp only
          simp only [embedded_of_pieces _ _ _ template front body back hparts]
          constructor
          · intro h body' hbody'
            rw [hunique body' hbody']
            refine ⟨hlast, fun hpath => ?_⟩
            exfalso
            rcases hpath with hempty | hnamed
            · have hcontext := h (fun _ => none) .null (fun _ => "")
              rw [if_pos hempty, hempty] at hcontext
              cases hcontext
            · have hcontext := h (fun _ => some .null) .null (fun _ => "")
              unfold whole at hcontext
              rw [resolvePath_null _ hnamed] at hcontext
              dsimp only at hcontext
              split_ifs at hcontext
              cases hcontext
          · intro h lookupItem root text
            have hpath : ¬(trim body = [] ∨ Named (trim body)) := fun hpath =>
              hplain ((h body hbody).2 hpath)
            rw [not_or] at hpath
            unfold whole
            rw [if_neg hpath.1, resolvePath_unnamed _ _ _ hpath.2]
      · -- One mode has the brace in its path, the other one behind it.
        have hsole : soleReference template.toList = none := by
          rw [soleReference_eq _ front init _ hparts]
          exact if_neg (fun h => List.cons_ne_nil _ _ h.2.1)
        rw [hsole]
        dsimp only
        simp only [embedded_of_pieces _ _ _ template front init ('}' :: back) hparts]
        constructor
        · intro h
          exfalso
          have hcontext := h (fun _ => none) .null (fun _ => "")
          unfold whole at hcontext
          rw [resolvePath_unbound, resolvePath_unbound] at hcontext
          dsimp only at hcontext
          split_ifs at hcontext
          · cases hcontext
          · have herror := TemplateError.unknownPath.inj (Except.error.inj hcontext)
            exact trim_ne_trim_concat init (String.ofList_injective herror.2)
        · intro h
          exfalso
          exact (h _ hbody).1 List.getLast?_concat

/-- A brace behind a reference: the string is taken whole with a path that ends
    in a brace, and what is found there is null. -/
theorem brace_behind_reference :
    let root : Value := .object [("inputs", .object [("n", .number (.posInt 3))])]
    renderString (m := Id) (fun _ => none) root (fun _ => "3") "\x7b\x7binputs.n\x7d\x7d\x7d" =
        .ok .null ∧
      meaning (fun _ => none) root (fun _ => "3") "\x7b\x7binputs.n\x7d\x7d\x7d" =
        .ok (.string "3\x7d") := ⟨rfl, rfl⟩

end Workflow

end DccMcp
