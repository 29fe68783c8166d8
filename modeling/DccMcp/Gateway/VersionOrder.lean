import DccMcp.Actions.Versions
import DccMcp.Updater.Names

/-!
# Two Orders of Versions

The gateway and the updater both compare versions, each with a reader of its
own. The gateway drops a `v` in front, cuts at the dots and leaves out a piece
that is no number. The updater cuts at the dots and takes the digits each piece
begins with, if any.

On a semantic version the two read the same, except in two places. A piece in
which build metadata follows the patch number is no number for the gateway, and
what is behind it moves up; and a major number behind a `v` is none for the
updater.

## Main definitions

* `Tail`, `Semantic`: Semantic versions, as the grammar makes them.
* `Semantic.PatchRead`, `MajorsAgree`: What may stand in a version.

## Theorems

* `orders_agree_iff`: When the numbers are read and the orders agree.
-/

namespace DccMcp

namespace Gateway

/-! ## Semantic versions -/

/-- A part of a tail: letters, digits and hyphens. -/
abbrev Identifier : Type := { s : List Char // s ≠ [] ∧ ∀ c ∈ s, c.isAlphanum ∨ c = '-' }

/-- Identifiers with dots between them, of which there is one at least. -/
structure Tail where
  first : Identifier
  rest : List Identifier

def Tail.text (mark : Char) (t : Tail) : List Char :=
  mark :: t.first.1 ++ t.rest.flatMap (fun i => '.' :: i.1)

/-- A semantic version whose numbers fit, with a `v` in front or without. No
    number in its pre-release is padded with a zero. -/
structure Semantic where
  v : Bool
  major : UInt64
  minor : UInt64
  patch : UInt64
  preRelease : Option Tail
  build : Option Tail
  unpadded : ∀ t ∈ preRelease, ∀ i ∈ t.first :: t.rest,
    i.1.all Char.isDigit → i.1.head? = some '0' → i.1 = ['0']

namespace Semantic

variable (w : Semantic)

def tail : List Char := w.preRelease.elim [] (Tail.text '-') ++ w.build.elim [] (Tail.text '+')

def text : String :=
  .ofList ((if w.v then ['v'] else []) ++ (Nat.toDigits 10 w.major.toNat ++
    '.' :: (Nat.toDigits 10 w.minor.toNat ++ '.' :: (Nat.toDigits 10 w.patch.toNat ++ w.tail))))

def triple : Version := toLex (w.major.toNat, toLex (w.minor.toNat, w.patch.toNat))

/-- The major number, if nothing is in front of it. -/
def bareMajor : Nat := if w.v then 0 else w.major.toNat

/-- What stands in the place of the patch number when build metadata follows
    it: the first number behind a dot there. -/
def movedUp (t : Tail) : Nat :=
  ((t.rest.filterMap (fun i => parseU64 (i.1.takeWhile (· != '-')))).head?).getD 0

/-- Build metadata does not follow the patch number, or it moves the same
    number up. -/
def PatchRead : Prop :=
  ∀ t, w.preRelease = none → w.build = some t → movedUp t = w.patch.toNat

end Semantic

/-- The major numbers decide the same with those behind a `v` read as zero. Of a
    candidate that is ahead in the other numbers it has to be the same whether
    its major number is less, of any other whether it is greater. -/
def MajorsAgree (a b : Semantic) : Prop :=
  if toLex (b.minor.toNat, b.patch.toNat) < toLex (a.minor.toNat, a.patch.toNat) then
    (a.bareMajor < b.bareMajor ↔ a.major < b.major)
  else (b.bareMajor < a.bareMajor ↔ b.major < a.major)

/-! ## Cutting at the dots -/

/-- A front without separators goes into the first piece. -/
theorem splitOn_append (sep : Char → Bool) (front text : List Char)
    (h : ∀ c ∈ front, sep c = false) :
    Text.splitOn sep (front ++ text) = (Text.splitOn sep text).modifyHead (front ++ ·) := by
  induction front with
  | nil =>
      rw [List.nil_append]
      cases Text.splitOn sep text <;> rfl
  | cons c front ih =>
      rw [List.cons_append, Text.splitOn, if_neg (by simp [h c List.mem_cons_self]),
        ih (fun c hc => h c (List.mem_cons_of_mem _ hc))]
      cases hpieces : Text.splitOn sep text with
      | nil =>
          -- There is a first piece.
          exfalso
          revert hpieces
          unfold Text.splitOn
          split
          · exact List.cons_ne_nil _ _
          · split
            · exact List.cons_ne_nil _ _
            · split <;> exact List.cons_ne_nil _ _
      | cons piece pieces => rfl

theorem splitOn_append_sep (sep : Char → Bool) (front text : List Char) (c : Char)
    (h : ∀ c ∈ front, sep c = false) (hc : sep c = true) :
    Text.splitOn sep (front ++ c :: text) = front :: Text.splitOn sep text := by
  rw [splitOn_append sep front _ h, Text.splitOn, if_pos hc, List.modifyHead_cons, List.append_nil]

/-- Pieces that are joined by dots are found again. -/
theorem splitOn_flatMap (front : List Char) (is : List Identifier)
    (h : ∀ c ∈ front, (c == '.') = false) :
    Text.splitOn (· == '.') (front ++ is.flatMap (fun i => '.' :: i.1)) =
      front :: is.map Subtype.val := by
  induction is generalizing front with
  | nil =>
      rw [List.flatMap_nil, splitOn_append _ front _ h]
      exact congrArg (· :: []) (List.append_nil front)
  | cons i is ih =>
      have hi : ∀ c ∈ i.1, (c == '.') = false := by
        intro c hc
        rw [beq_eq_false_iff_ne]
        rintro rfl
        rcases i.2.2 '.' hc with h | h <;> exact absurd h (by decide)
      rw [List.flatMap_cons, List.cons_append, splitOn_append_sep _ front _ '.' h rfl, ih i.1 hi,
        List.map_cons]

theorem digits_of_toDigits (n : UInt64) (c : Char) (hc : c ∈ Nat.toDigits 10 n.toNat) :
    c.isDigit = true := Nat.isDigit_of_mem_toDigits (by decide) (by decide) hc

theorem ne_of_isDigit (c d : Char) (hc : c.isDigit = true) (hd : d.isDigit = false) : c ≠ d := by
  rintro rfl
  rw [hc] at hd
  cases hd

theorem toDigits_dotless (n : UInt64) : ∀ c ∈ Nat.toDigits 10 n.toNat, (c == '.') = false :=
  fun c hc => beq_eq_false_iff_ne.mpr (ne_of_isDigit c '.' (digits_of_toDigits n c hc) (by decide))

variable (w : Semantic)

/-- The piece with the patch number. What is behind the number is empty or a
    pre-release, or it is build metadata with its parts in the next pieces. -/
theorem splitOn_patch : ∃ mark more,
    Text.splitOn (· == '.') (Nat.toDigits 10 w.patch.toNat ++ w.tail) =
      (Nat.toDigits 10 w.patch.toNat ++ mark) :: more ∧
    (((∀ t, w.preRelease = none → w.build ≠ some t) ∧ (mark = [] ∨ ∃ r, mark = '-' :: r)) ∨
      ∃ t, w.preRelease = none ∧ w.build = some t ∧ mark = '+' :: t.first.1 ∧
        more = t.rest.map Subtype.val) := by
  have hdots := toDigits_dotless w.patch
  unfold Semantic.tail
  cases hpre : w.preRelease with
  | some t =>
      rw [splitOn_append _ _ _ hdots]
      -- The hyphen is in the piece of the number, whatever follows.
      have hhyphen : ∀ r : List Char, ∃ piece more,
          Text.splitOn (· == '.') ('-' :: r) = ('-' :: piece) :: more := by
        intro r
        rw [Text.splitOn, if_neg (by decide)]
        split
        · exact ⟨[], [], rfl⟩
        · exact ⟨_, _, rfl⟩
      rcases hhyphen (t.first.1 ++ t.rest.flatMap (fun i => '.' :: i.1) ++
        w.build.elim [] (Tail.text '+')) with ⟨piece, more, hpieces⟩
      refine ⟨'-' :: piece, more, ?_, Or.inl ⟨fun _ h => (nomatch h), Or.inr ⟨piece, rfl⟩⟩⟩
      rw [Option.elim_some, Tail.text, List.cons_append, List.cons_append, hpieces,
        List.modifyHead_cons]
  | none =>
      rw [Option.elim_none, List.nil_append]
      cases hbuild : w.build with
      | none =>
          refine ⟨[], [], ?_, Or.inl ⟨fun _ _ h => (nomatch h), Or.inl rfl⟩⟩
          rw [Option.elim_none, splitOn_append _ _ _ hdots]
          rfl
      | some t =>
          refine ⟨_, _, ?_, Or.inr ⟨t, rfl, rfl, rfl, rfl⟩⟩
          rw [Option.elim_some, Tail.text, ← List.append_assoc]
          refine splitOn_flatMap _ t.rest (fun c hc => ?_)
          rcases List.mem_append.mp hc with hc | hc
          · exact hdots c hc
          · rw [beq_eq_false_iff_ne]
            rintro rfl
            rcases List.mem_cons.mp hc with hc | hc
            · exact absurd hc (by decide)
            · rcases t.first.2.2 '.' hc with h | h <;> exact absurd h (by decide)

/-- The pieces of a version behind what stands in front of it. -/
theorem splitOn_numbers (front : List Char) (h : ∀ c ∈ front, (c == '.') = false) :
    Text.splitOn (· == '.') (front ++ (Nat.toDigits 10 w.major.toNat ++
      '.' :: (Nat.toDigits 10 w.minor.toNat ++ '.' :: (Nat.toDigits 10 w.patch.toNat ++ w.tail)))) =
      (front ++ Nat.toDigits 10 w.major.toNat) :: Nat.toDigits 10 w.minor.toNat ::
        Text.splitOn (· == '.') (Nat.toDigits 10 w.patch.toNat ++ w.tail) := by
  rw [← List.append_assoc, splitOn_append_sep _ _ _ '.' ?_ rfl,
    splitOn_append_sep _ _ _ '.' (toDigits_dotless w.minor) rfl]
  intro c hc
  rcases List.mem_append.mp hc with hc | hc
  · exact h c hc
  · exact toDigits_dotless w.major c hc

/-! ## The two readers -/

theorem takeWhile_toDigits (p : Char → Bool) (n : UInt64) (mark : List Char)
    (h : ∀ c, c.isDigit = true → p c = true) :
    (Nat.toDigits 10 n.toNat ++ mark).takeWhile p = Nat.toDigits 10 n.toNat ++ mark.takeWhile p :=
  List.takeWhile_append_of_pos (fun c hc => h c (digits_of_toDigits n c hc))

theorem ne_hyphen (c : Char) (h : c.isDigit = true) : (c != '-') = true :=
  bne_iff_ne.mpr (ne_of_isDigit c '-' h (by decide))

/-- A number with a plus sign behind it is none. -/
theorem parseU64_plus (n : UInt64) (s : List Char) :
    parseU64 (Nat.toDigits 10 n.toNat ++ '+' :: s) = none := by
  have hhead : (Nat.toDigits 10 n.toNat ++ '+' :: s).head? ≠ some '+' := by
    cases hdigits : Nat.toDigits 10 n.toNat with
    | nil => exact absurd hdigits Nat.toDigits_ne_nil
    | cons c rest =>
        have hc := digits_of_toDigits n c (hdigits ▸ List.mem_cons_self)
        rw [List.cons_append, List.head?_cons, ne_eq, Option.some.injEq]
        exact ne_of_isDigit c '+' hc (by decide)
  have hall : ¬ ((Nat.toDigits 10 n.toNat ++ '+' :: s).all Char.isDigit = true) := by
    intro h
    rw [List.all_eq_true] at h
    exact absurd (h '+' (List.mem_append_right _ List.mem_cons_self)) (by decide)
  unfold parseU64
  dsimp only
  rw [if_neg hhead, if_neg (fun h => hall h.2)]

/-- The pieces of the text, for a reader that drops a `v` or one that does not. -/
theorem toList_text :
    w.text.toList = (if w.v then ['v'] else []) ++ (Nat.toDigits 10 w.major.toNat ++
      '.' :: (Nat.toDigits 10 w.minor.toNat ++
        '.' :: (Nat.toDigits 10 w.patch.toNat ++ w.tail))) := String.toList_ofList

theorem dropWhile_text : w.text.toList.dropWhile (· == 'v') = Nat.toDigits 10 w.major.toNat ++
      '.' :: (Nat.toDigits 10 w.minor.toNat ++
        '.' :: (Nat.toDigits 10 w.patch.toNat ++ w.tail)) := by
  have hfront : ∀ s : List Char, (Nat.toDigits 10 w.major.toNat ++ s).dropWhile (· == 'v') =
      Nat.toDigits 10 w.major.toNat ++ s := by
    intro s
    cases hdigits : Nat.toDigits 10 w.major.toNat with
    | nil => exact absurd hdigits Nat.toDigits_ne_nil
    | cons c rest =>
        have hc := digits_of_toDigits w.major c (hdigits ▸ List.mem_cons_self)
        have hne := beq_eq_false_iff_ne.mpr (ne_of_isDigit c 'v' hc (by decide))
        rw [List.cons_append, List.dropWhile_cons, hne, if_neg Bool.false_ne_true]
  rw [toList_text]
  cases w.v with
  | false => exact hfront _
  | true => exact hfront _

/-- The third number the gateway reads. -/
def Semantic.patchSlot (w : Semantic) : Nat :=
  match w.preRelease, w.build with
  | none, some t => movedUp t
  | _, _ => w.patch.toNat

theorem patchRead_iff : w.PatchRead ↔ w.patchSlot = w.patch.toNat := by
  unfold Semantic.PatchRead Semantic.patchSlot
  cases w.preRelease with
  | some _ => exact ⟨fun _ => rfl, fun _ _ h => nomatch h⟩
  | none =>
      cases w.build with
      | none => exact ⟨fun _ => rfl, fun _ _ _ h => nomatch h⟩
      | some t =>
          constructor
          · intro h
            exact h t rfl rfl
          · intro h t' _ heq
            cases heq
            exact h

/-- What the gateway reads. -/
theorem parseSemver_text :
    parseSemver w.text = toLex (w.major.toNat, toLex (w.minor.toNat, w.patchSlot)) := by
  have hnumber : ∀ n : UInt64,
      parseU64 ((Nat.toDigits 10 n.toNat).takeWhile (· != '-')) = some n.toNat := by
    intro n
    have htake := takeWhile_toDigits (· != '-') n [] ne_hyphen
    rw [List.append_nil, List.takeWhile_nil, List.append_nil] at htake
    rw [htake, Versioned.parseU64_toDigits]
  have hpieces := splitOn_numbers w [] (fun c hc => absurd hc List.not_mem_nil)
  rw [List.nil_append, List.nil_append] at hpieces
  rcases splitOn_patch w with ⟨mark, more, hpatch, ⟨hno, hmark⟩ | ⟨t, hpre, hbuild, hmark, hmore⟩⟩
  · -- The third piece is the patch number.
    have hslot : w.patchSlot = w.patch.toNat :=
      (patchRead_iff w).mp (fun t hpre hbuild => absurd hbuild (hno t hpre))
    have hthird : parseU64 ((Nat.toDigits 10 w.patch.toNat ++ mark).takeWhile (· != '-')) =
        some w.patch.toNat := by
      rw [takeWhile_toDigits _ w.patch mark ne_hyphen]
      rcases hmark with rfl | ⟨r, rfl⟩
      · rw [List.takeWhile_nil, List.append_nil, Versioned.parseU64_toDigits]
      · rw [List.takeWhile_cons_of_neg (by decide), List.append_nil, Versioned.parseU64_toDigits]
    unfold parseSemver
    rw [dropWhile_text, hpieces, hpatch, hslot]
    simp only [List.filterMap_cons, hnumber, hthird]
    rfl
  · -- It is left out.
    have hslot : w.patchSlot = Semantic.movedUp t := by
      unfold Semantic.patchSlot
      rw [hpre, hbuild]
    have hthird : parseU64 ((Nat.toDigits 10 w.patch.toNat ++ mark).takeWhile (· != '-')) =
        none := by
      rw [takeWhile_toDigits _ w.patch mark ne_hyphen, hmark,
        List.takeWhile_cons_of_pos (by decide), parseU64_plus]
    unfold parseSemver
    rw [dropWhile_text, hpieces, hpatch, hslot, hmore]
    simp only [List.filterMap_cons, hnumber, hthird, List.filterMap_map]
    refine congrArg (fun x => toLex (w.major.toNat, toLex (w.minor.toNat, x))) ?_
    unfold Semantic.movedUp
    rw [List.getElem?_cons_succ, List.getElem?_cons_succ, ← List.head?_eq_getElem?]
    rfl

theorem parseSegment_toDigits (n : UInt64) (mark : List Char)
    (h : mark.takeWhile Char.isDigit = []) :
    Updater.parseSegment (Nat.toDigits 10 n.toNat ++ mark) = n.toNat := by
  unfold Updater.parseSegment
  dsimp only
  rw [takeWhile_toDigits _ n mark (fun c hc => hc), h, List.append_nil,
    Nat.ofDigitChars_ten_toDigits, if_pos n.toNat_lt]

/-- What the updater reads. -/
theorem updaterParts_text : ∃ more, Updater.versionParts w.text =
      w.bareMajor :: w.minor.toNat :: w.patch.toNat :: more := by
  have hfront : ∀ c ∈ (if w.v then ['v'] else []), (c == '.') = false := by
    intro c hc
    split at hc
    · rw [List.mem_singleton] at hc
      rw [hc]
      decide
    · exact absurd hc List.not_mem_nil
  rcases splitOn_patch w with ⟨mark, more, hpatch, hmark⟩
  have hstop : mark.takeWhile Char.isDigit = [] := by
    rcases hmark with ⟨_, rfl | ⟨r, rfl⟩⟩ | ⟨t, _, _, rfl, _⟩
    · rfl
    · exact List.takeWhile_cons_of_neg (by decide)
    · exact List.takeWhile_cons_of_neg (by decide)
  have hmajor : Updater.parseSegment
      ((if w.v then ['v'] else []) ++ Nat.toDigits 10 w.major.toNat) = w.bareMajor := by
    unfold Semantic.bareMajor
    cases w.v with
    | false =>
        have h := parseSegment_toDigits w.major [] rfl
        rw [List.append_nil] at h
        exact h
    | true =>
        unfold Updater.parseSegment
        rw [if_pos rfl, if_pos rfl, List.cons_append, List.takeWhile_cons_of_neg (by decide)]
        rfl
  have hminor := parseSegment_toDigits w.minor [] rfl
  rw [List.append_nil] at hminor
  refine ⟨more.map Updater.parseSegment, ?_⟩
  unfold Updater.versionParts
  rw [toList_text, splitOn_numbers w _ hfront, hpatch, List.map_cons, List.map_cons,
    List.map_cons, hmajor, hminor, parseSegment_toDigits w.patch mark hstop]

/-- The updater compares three numbers from the left. -/
theorem isNewerIn_eq (a b c a' b' c' : Nat) (more more' : List Nat) :
    Updater.isNewerIn (a :: b :: c :: more) (a' :: b' :: c' :: more') 3 =
      decide ((toLex (a', toLex (b', c')) : Version) < toLex (a, toLex (b, c))) := by
  rw [Bool.eq_iff_iff, decide_eq_true_eq, Prod.Lex.toLex_lt_toLex, Prod.Lex.toLex_lt_toLex]
  simp only [Updater.isNewerIn, List.headD_cons, List.tail_cons]
  grind

/-- The gateway reads the three numbers of two versions, and both programs
    order the two alike, exactly when no build metadata gets in the way of a
    patch number and no `v` in the way of a major number that decides. -/
theorem orders_agree_iff (a b : Semantic) :
    (parseSemver a.text = a.triple ∧ parseSemver b.text = b.triple ∧
      isNewerVersion a.text b.text = Updater.isNewerVersion a.text b.text) ↔
    a.PatchRead ∧ b.PatchRead ∧ MajorsAgree a b := by
  have hread : ∀ w : Semantic, parseSemver w.text = w.triple ↔ w.PatchRead := by
    intro w
    rw [parseSemver_text, patchRead_iff]
    constructor
    · intro h
      exact congrArg (fun v : Version => (ofLex (ofLex v).2).2) h
    · intro h
      rw [h]
      rfl
  rw [hread, hread]
  refine and_congr_right (fun ha => and_congr_right (fun hb => ?_))
  rcases updaterParts_text a with ⟨more, hparts⟩
  rcases updaterParts_text b with ⟨more', hparts'⟩
  unfold isNewerVersion Updater.isNewerVersion
  rw [hparts, hparts', isNewerIn_eq, (hread a).mpr ha, (hread b).mpr hb, decide_eq_decide]
  unfold Semantic.triple MajorsAgree
  simp only [Prod.Lex.toLex_lt_toLex, UInt64.lt_iff_toNat_lt]
  split_ifs <;> omega

/-- A version without tails. -/
def plain (v : Bool) (major minor patch : UInt64) : Semantic :=
  ⟨v, major, minor, patch, none, none, fun _ h => nomatch h⟩

/-- Build metadata behind a patch number moves a number of its own up, and a
    `v` hides the major number from the updater. -/
theorem orders_disagree :
    (∃ w : Semantic, w.text = "1.2.3+exp.5" ∧ w.triple = toLex (1, toLex (2, 3)) ∧
      parseSemver "1.2.3+exp.5" = toLex (1, toLex (2, 5))) ∧
    (∃ a b : Semantic, a.text = "v2.0.0" ∧ b.text = "1.0.0" ∧
      isNewerVersion "v2.0.0" "1.0.0" = true ∧
      Updater.isNewerVersion "v2.0.0" "1.0.0" = false) := by
  refine ⟨⟨⟨false, 1, 2, 3, none, some ⟨⟨['e', 'x', 'p'], by simp⟩, [⟨['5'], by simp⟩]⟩,
    fun _ h => nomatch h⟩, ?_, rfl, ?_⟩, plain true 2 0 0, plain false 1 0 0, ?_, ?_, ?_, ?_⟩ <;>
    decide +kernel

end Gateway

end DccMcp
