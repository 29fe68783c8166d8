import DccMcp.Gateway.Election
import Mathlib.Data.List.TakeWhile

/-!
# Semantic Versions and Constraints

The version texts of the versioned registry. A version is read leniently: a
`v` in front, missing components and a pre-release tail are all tolerated. It
is printed in one form only. A constraint is an operator in front of a version,
and the operators are tried in a fixed order, the two of two characters before
the two of one character they begin with.

Printing and reading back is the identity, for every version and for every
constraint. For a constraint this is because a printed version begins with a
digit: it begins none of the longer operators.

## Main definitions

* `SemVer`, `SemVer.parse`, `SemVer.display`: Versions, read and printed.
* `VersionConstraint`, `VersionMatcher`: The constraints, and what each does.
* `VersionConstraint.fromStr`, `VersionConstraint.display`: Constraints, read
  and printed.

## Theorems

* `version_text_round_trip`: Both, with what the constraints match.
-/

namespace DccMcp

namespace Versioned

open Text

/-- A semantic version. -/
structure SemVer where
  major : UInt64
  minor : UInt64
  patch : UInt64
  deriving DecidableEq

namespace SemVer

/-- The components, compared from the left. -/
def components (v : SemVer) : Gateway.Version :=
  toLex (v.major.toNat, toLex (v.minor.toNat, v.patch.toNat))

theorem components_injective : Function.Injective components := by
  intro v w h
  have hmajor := congrArg (fun triple => (ofLex triple).1) h
  have hrest := congrArg (fun triple => ofLex (ofLex triple).2) h
  have hminor := congrArg Prod.fst hrest
  have hpatch := congrArg Prod.snd hrest
  cases v
  cases w
  rw [mk.injEq]
  exact ⟨UInt64.toNat_inj.mp hmajor, UInt64.toNat_inj.mp hminor, UInt64.toNat_inj.mp hpatch⟩

instance : LinearOrder SemVer := LinearOrder.lift' components components_injective

end SemVer

inductive VersionParseError where
  | emptyString
  | invalidComponent (component : String)
  | unknownOperator (operator : String)
  deriving DecidableEq

/-- `str::splitn`: at most so many pieces, the last with whatever is left. -/
def splitn (sep : Char) : Nat → List Char → List (List Char)
  | 0, _ => []
  | 1, s => [s]
  | n + 2, s =>
    match cutAt sep s with
    | none => [s]
    | some (before, after) => before :: splitn sep (n + 1) after

/-- The closure `parse_component` of `SemVer::parse`. -/
def parseComponent : Option (List Char) → Except VersionParseError UInt64
  | none => .ok 0
  | some text =>
    match Gateway.parseU64 text with
    | some n => .ok (.ofNat n)
    | none => .error (.invalidComponent (.ofList text))

namespace SemVer

def parse (s : String) : Except VersionParseError SemVer :=
  let s := (trim (.ofList (s.toList.dropWhile (· == 'v')))).toList
  if s = [] then .error .emptyString
  else do
    -- Everything from the first hyphen on is a pre-release label.
    let parts := splitn '.' 3 (s.takeWhile (· != '-'))
    let major ← parseComponent parts[0]?
    let minor ← parseComponent parts[1]?
    let patch ← parseComponent parts[2]?
    return ⟨major, minor, patch⟩

/-- The characters `Display` writes for a version. -/
def text (v : SemVer) : List Char :=
  Nat.toDigits 10 v.major.toNat ++ '.' :: (Nat.toDigits 10 v.minor.toNat ++
    '.' :: Nat.toDigits 10 v.patch.toNat)

def display (v : SemVer) : String := .ofList v.text

end SemVer

/-- A constraint on versions. -/
inductive VersionConstraint where
  | any
  | exact (v : SemVer)
  | atLeast (v : SemVer)
  | greaterThan (v : SemVer)
  | atMost (v : SemVer)
  | lessThan (v : SemVer)
  | caret (v : SemVer)
  | tilde (v : SemVer)
  deriving DecidableEq

/-- The behaviour of one shape of constraint: what it prints, and what it
    matches. -/
structure VersionMatcher where
  text : List Char
  matchesVersion : SemVer → Bool

def anyMatcher : VersionMatcher := ⟨['*'], fun _ => true⟩

def exactMatcher (self : SemVer) : VersionMatcher :=
  ⟨'=' :: self.text, fun v => decide (v = self)⟩

def atLeastMatcher (self : SemVer) : VersionMatcher :=
  ⟨'>' :: '=' :: self.text, fun v => decide (self ≤ v)⟩

def greaterThanMatcher (self : SemVer) : VersionMatcher :=
  ⟨'>' :: self.text, fun v => decide (self < v)⟩

def atMostMatcher (self : SemVer) : VersionMatcher :=
  ⟨'<' :: '=' :: self.text, fun v => decide (v ≤ self)⟩

def lessThanMatcher (self : SemVer) : VersionMatcher :=
  ⟨'<' :: self.text, fun v => decide (v < self)⟩

def caretMatcher (self : SemVer) : VersionMatcher :=
  ⟨'^' :: self.text, fun v => decide (v.major = self.major) && decide (self ≤ v)⟩

def tildeMatcher (self : SemVer) : VersionMatcher :=
  ⟨'~' :: self.text, fun v => decide (v.major = self.major) && decide (v.minor = self.minor) &&
    decide (self.patch ≤ v.patch)⟩

namespace VersionConstraint

/-- `with_matcher`. -/
def matcher : VersionConstraint → VersionMatcher
  | any => anyMatcher
  | exact v => exactMatcher v
  | atLeast v => atLeastMatcher v
  | greaterThan v => greaterThanMatcher v
  | atMost v => atMostMatcher v
  | lessThan v => lessThanMatcher v
  | caret v => caretMatcher v
  | tilde v => tildeMatcher v

/-- `VersionConstraint::matches`. -/
def matchesVersion (c : VersionConstraint) (v : SemVer) : Bool := c.matcher.matchesVersion v

def display (c : VersionConstraint) : String := .ofList c.matcher.text

/-- The body of `from_str`. The prefixes are tried from the top. -/
def fromChars : List Char → Except VersionParseError VersionConstraint
  | ['*'] => .ok any
  | '>' :: '=' :: rest => atLeast <$> SemVer.parse (.ofList rest)
  | '>' :: rest => greaterThan <$> SemVer.parse (.ofList rest)
  | '<' :: '=' :: rest => atMost <$> SemVer.parse (.ofList rest)
  | '<' :: rest => lessThan <$> SemVer.parse (.ofList rest)
  | '^' :: rest => caret <$> SemVer.parse (.ofList rest)
  | '~' :: rest => tilde <$> SemVer.parse (.ofList rest)
  | '=' :: rest => exact <$> SemVer.parse (.ofList rest)
  -- A version without an operator is exact.
  | s => exact <$> SemVer.parse (.ofList s)

def fromStr (s : String) : Except VersionParseError VersionConstraint := fromChars (trim s).toList

end VersionConstraint

/-! ## Versions -/

/-- A printed number is read back. -/
theorem parseU64_toDigits (n : UInt64) :
    Gateway.parseU64 (Nat.toDigits 10 n.toNat) = some n.toNat := by
  have hdigit : ∀ c ∈ Nat.toDigits 10 n.toNat, c.isDigit := fun c hc =>
    Nat.isDigit_of_mem_toDigits (by decide) (by decide) hc
  -- There is no sign in front of the digits.
  have hplus : (Nat.toDigits 10 n.toNat).head? ≠ some '+' := by
    intro hhead
    exact absurd (hdigit '+' (List.mem_of_mem_head? hhead)) (by decide)
  have hvalue : (Nat.toDigits 10 n.toNat).foldl (fun n c => 10 * n + (c.toNat - '0'.toNat)) 0 =
      n.toNat := by
    rw [← Nat.ofDigitChars_eq_foldl, Nat.ofDigitChars_ten_toDigits]
  unfold Gateway.parseU64
  dsimp only
  rw [if_neg hplus, if_pos ⟨Nat.toDigits_ne_nil, List.all_eq_true.mpr hdigit⟩, hvalue,
    if_pos n.toNat_lt]

theorem parseComponent_toDigits (n : UInt64) :
    parseComponent (some (Nat.toDigits 10 n.toNat)) = .ok n := by
  unfold parseComponent
  dsimp only
  rw [parseU64_toDigits]
  exact congrArg Except.ok (UInt64.ofNat_toNat)

/-- A text without white space has none to trim. -/
theorem trim_ofList (s : List Char) (h : ∀ c ∈ s, isWhitespace c = false) :
    trim (.ofList s) = .ofList s := by
  have hfront : s.dropWhile isWhitespace = s := by
    rw [List.dropWhile_eq_self_iff]
    intro hpos hspace
    rw [h _ (List.getElem_mem hpos)] at hspace
    cases hspace
  have hback : s.reverse.dropWhile isWhitespace = s.reverse := by
    rw [List.dropWhile_eq_self_iff]
    intro hpos hspace
    rw [h _ (List.mem_reverse.mp (List.getElem_mem hpos))] at hspace
    cases hspace
  rw [trim, String.toList_ofList, hfront, hback, List.reverse_reverse]

namespace SemVer

/-- What a version is printed with. -/
theorem mem_text (v : SemVer) (c : Char) (h : c ∈ v.text) : c.isDigit ∨ c = '.' := by
  have hdigit : ∀ n : Nat, c ∈ Nat.toDigits 10 n → c.isDigit := fun n hc =>
    Nat.isDigit_of_mem_toDigits (by decide) (by decide) hc
  unfold text at h
  rw [List.mem_append, List.mem_cons, List.mem_append, List.mem_cons] at h
  rcases h with h | h | h | h | h
  · exact .inl (hdigit _ h)
  · exact .inr h
  · exact .inl (hdigit _ h)
  · exact .inr h
  · exact .inl (hdigit _ h)

/-- Every other character is not in the text. -/
theorem text_ne (v : SemVer) (d : Char) (hdigit : d.isDigit = false) (hdot : d ≠ '.') (c : Char)
    (h : c ∈ v.text) : c ≠ d := by
  rintro rfl
  rcases mem_text v c h with hc | hc
  · rw [hdigit] at hc
    cases hc
  · exact hdot hc

theorem isWhitespace_text (v : SemVer) (c : Char) (h : c ∈ v.text) : isWhitespace c = false := by
  rcases mem_text v c h with hc | rfl
  · have hrange : 48 ≤ c.toNat ∧ c.toNat ≤ 57 := Char.isDigit_iff_toNat.mp hc
    unfold isWhitespace
    generalize c.toNat = n at hrange
    rcases hrange with ⟨hlow, hhigh⟩
    interval_cases n <;> rfl
  · decide

/-- A printed version is cut into its components. -/
theorem splitn_text (v : SemVer) :
    splitn '.' 3 v.text =
      [Nat.toDigits 10 v.major.toNat, Nat.toDigits 10 v.minor.toNat,
        Nat.toDigits 10 v.patch.toNat] := by
  have hdot : ∀ n : Nat, '.' ∉ Nat.toDigits 10 n := by
    intro n hmem
    exact absurd (Nat.isDigit_of_mem_toDigits (by decide) (by decide) hmem) (by decide)
  unfold text splitn
  rw [cutAt_append _ _ _ (hdot _)]
  dsimp only
  unfold splitn
  rw [cutAt_append _ _ _ (hdot _)]
  rfl

/-- A printed version is read back. -/
theorem parse_display (v : SemVer) : parse v.display = .ok v := by
  have hletter : v.text.dropWhile (· == 'v') = v.text := by
    rw [List.dropWhile_eq_self_iff]
    intro hpos hv
    exact text_ne v 'v' (by decide) (by decide) _ (List.getElem_mem hpos) (beq_iff_eq.mp hv)
  have hlabel : v.text.takeWhile (· != '-') = v.text := by
    rw [List.takeWhile_eq_self_iff]
    intro c hc
    exact bne_iff_ne.mpr (text_ne v '-' (by decide) (by decide) c hc)
  have hne : v.text ≠ [] := List.append_ne_nil_of_left_ne_nil Nat.toDigits_ne_nil _
  unfold parse display
  dsimp only
  rw [String.toList_ofList, hletter, trim_ofList _ (isWhitespace_text v), String.toList_ofList,
    hlabel, if_neg hne, splitn_text]
  show (do
    let major ← parseComponent (some (Nat.toDigits 10 v.major.toNat))
    let minor ← parseComponent (some (Nat.toDigits 10 v.minor.toNat))
    let patch ← parseComponent (some (Nat.toDigits 10 v.patch.toNat))
    return (⟨major, minor, patch⟩ : SemVer)) = .ok v
  rw [parseComponent_toDigits, parseComponent_toDigits, parseComponent_toDigits]
  rfl

end SemVer

/-! ## Constraints -/

/-- No printed version begins with what makes an operator longer. -/
theorem text_head (v : SemVer) (rest : List Char) : v.text ≠ '=' :: rest := by
  intro htext
  have hmem : '=' ∈ v.text := by
    rw [htext]
    exact List.mem_cons_self
  exact v.text_ne '=' (by decide) (by decide) '=' hmem rfl

/-- Neither the operators nor the versions have white space. -/
theorem isWhitespace_matcher (c : VersionConstraint) :
    ∀ ch ∈ c.matcher.text, isWhitespace ch = false := by
  have hone : ∀ (op : Char) (v : SemVer), isWhitespace op = false →
      ∀ ch ∈ op :: v.text, isWhitespace ch = false := fun op v hop =>
    List.forall_mem_cons.mpr ⟨hop, v.isWhitespace_text⟩
  cases c with
  | any => exact List.forall_mem_singleton.mpr (by decide)
  | exact v => exact hone '=' v (by decide)
  | atLeast v => exact List.forall_mem_cons.mpr ⟨by decide, hone '=' v (by decide)⟩
  | greaterThan v => exact hone '>' v (by decide)
  | atMost v => exact List.forall_mem_cons.mpr ⟨by decide, hone '=' v (by decide)⟩
  | lessThan v => exact hone '<' v (by decide)
  | caret v => exact hone '^' v (by decide)
  | tilde v => exact hone '~' v (by decide)

/-- An operator that what follows does not make longer. -/
theorem fromChars_greaterThan (s : List Char) (h : ∀ rest, s ≠ '=' :: rest) :
    VersionConstraint.fromChars ('>' :: s) = .greaterThan <$> SemVer.parse (.ofList s) := by
  cases s with
  | nil => rfl
  | cons c rest =>
      have hne : c ≠ '=' := fun hc => h rest (congrArg (· :: rest) hc)
      unfold VersionConstraint.fromChars
      split
      all_goals simp_all

theorem fromChars_lessThan (s : List Char) (h : ∀ rest, s ≠ '=' :: rest) :
    VersionConstraint.fromChars ('<' :: s) = .lessThan <$> SemVer.parse (.ofList s) := by
  cases s with
  | nil => rfl
  | cons c rest =>
      have hne : c ≠ '=' := fun hc => h rest (congrArg (· :: rest) hc)
      unfold VersionConstraint.fromChars
      split
      all_goals simp_all

/-- A printed constraint is read back. -/
theorem fromStr_display (c : VersionConstraint) : VersionConstraint.fromStr c.display = .ok c := by
  have hread : ∀ (make : SemVer → VersionConstraint) (v : SemVer),
      make <$> SemVer.parse (.ofList v.text) = .ok (make v) := by
    intro make v
    exact congrArg (make <$> ·) v.parse_display
  unfold VersionConstraint.fromStr VersionConstraint.display
  rw [trim_ofList _ (isWhitespace_matcher c), String.toList_ofList]
  cases c with
  | any => rfl
  | exact v => exact hread .exact v
  | atLeast v => exact hread .atLeast v
  | atMost v => exact hread .atMost v
  | caret v => exact hread .caret v
  | tilde v => exact hread .tilde v
  | greaterThan v => exact (fromChars_greaterThan _ (text_head v)).trans (hread .greaterThan v)
  | lessThan v => exact (fromChars_lessThan _ (text_head v)).trans (hread .lessThan v)

/-- Version texts round-trip: a version is the version of its text, and the text of a
    constraint is read as a constraint that matches the same versions. -/
theorem version_text_round_trip :
    (∀ v : SemVer, SemVer.parse v.display = .ok v) ∧
      ∀ c : VersionConstraint, ∃ parsed, VersionConstraint.fromStr c.display = .ok parsed ∧
        ∀ v, parsed.matchesVersion v = c.matchesVersion v :=
  ⟨SemVer.parse_display, fun c => ⟨c, fromStr_display c, fun _ => rfl⟩⟩

end Versioned

end DccMcp
