import DccMcp.Lib.Digits

/-!
# Points in Time and Their RFC 3339 Text

A point in time as a date and a time of the day, both in UTC, and the text it
is written as: with as many digits behind the second as it takes, in groups
of three.

The text of a point in time within a round second has no fraction at all. It
goes on with the offset there, which starts with a plus sign, where others
have a full stop or another digit. Both come after the plus sign, so a text
that ends earlier is the smaller one, and it also stands for the earlier time.

A leap second is a time of the day whose fraction is a second or more. It is
written as the next second, and at the end of a minute this is second 60,
which nothing else is written as. Elsewhere two times would have one text, so
`Timestamp.Plain` leaves these out. It also leaves out the years that are not
written with four digits.

## Main definitions

* `NaiveDate`, `NaiveDate.monthDay`: A day of a year, and its month.
* `Timestamp`: A date and a time of the day.
* `Timestamp.toRfc3339`: The text.
* `Timestamp.Plain`: What the text is in the order of.

## Theorems

* `monthDayFrom_lt`: A later day of the year is a later day of its month, or
  in a later month.
* `tail_lt_iff`: The order of the fractions, with the offset behind them.
* `toRfc3339_lt_iff`: The texts are ordered as the points in time are.
-/

namespace DccMcp

/-! ## Dates -/

def isLeapYear (year : Int) : Bool := year % 4 = 0 ∧ (year % 100 ≠ 0 ∨ year % 400 = 0)

def monthLengths (year : Int) : List Nat :=
  [31, if isLeapYear year then 29 else 28, 31, 30, 31, 30, 31, 31, 30, 31, 30, 31]

/-- A day, as the year and the number of the day in it, from 1. -/
structure NaiveDate where
  year : Int
  ordinal : Nat
  ordinal_pos : 0 < ordinal
  ordinal_le : ordinal ≤ (monthLengths year).sum
  deriving DecidableEq

instance : LT NaiveDate where
  lt a b := a.year < b.year ∨ a.year = b.year ∧ a.ordinal < b.ordinal

theorem NaiveDate.lt_iff (a b : NaiveDate) :
    a < b ↔ a.year < b.year ∨ a.year = b.year ∧ a.ordinal < b.ordinal := Iff.rfl

instance (a b : NaiveDate) : Decidable (a < b) := decidable_of_iff _ (NaiveDate.lt_iff a b).symm

/-- The month and the day in it, from the first of some months on. -/
def monthDayFrom (month : Nat) : List Nat → Nat → Nat × Nat
  | [], day => (month, day)
  | length :: rest, day =>
    if day ≤ length then (month, day) else monthDayFrom (month + 1) rest (day - length)

def NaiveDate.monthDay (d : NaiveDate) : Nat × Nat :=
  monthDayFrom 1 (monthLengths d.year) d.ordinal

theorem month_le (month : Nat) (lengths : List Nat) (day : Nat) :
    month ≤ (monthDayFrom month lengths day).1 := by
  induction lengths generalizing month day with
  | nil => exact Nat.le_refl month
  | cons length rest ih =>
      unfold monthDayFrom
      split
      · exact Nat.le_refl month
      · exact Nat.le_trans (Nat.le_succ month) (ih (month + 1) (day - length))

/-- The months and days stay in their bounds. -/
theorem monthDayFrom_le (bound month : Nat) (lengths : List Nat) (day : Nat)
    (hday : day ≤ lengths.sum) (hbound : ∀ length ∈ lengths, length ≤ bound) :
    (monthDayFrom month lengths day).1 ≤ month + lengths.length ∧
      (monthDayFrom month lengths day).2 ≤ bound := by
  induction lengths generalizing month day with
  | nil =>
      rw [List.sum_nil] at hday
      exact ⟨Nat.le_refl month, Nat.le_trans hday (Nat.zero_le bound)⟩
  | cons length rest ih =>
      unfold monthDayFrom
      split
      next hle => exact ⟨Nat.le_add_right _ _, Nat.le_trans hle (hbound length List.mem_cons_self)⟩
      next hgt =>
        rw [List.sum_cons] at hday
        have hrest := ih (month + 1) (day - length) (by omega)
          (fun length' h => hbound length' (List.mem_cons_of_mem length h))
        rw [List.length_cons]
        exact ⟨by omega, hrest.2⟩

/-- A later day of the year is a later day of its month, or in a later month. -/
theorem monthDayFrom_lt (month : Nat) (lengths : List Nat) (day day' : Nat) (h : day < day') :
    (monthDayFrom month lengths day).1 < (monthDayFrom month lengths day').1 ∨
      (monthDayFrom month lengths day).1 = (monthDayFrom month lengths day').1 ∧
        (monthDayFrom month lengths day).2 < (monthDayFrom month lengths day').2 := by
  induction lengths generalizing month day day' with
  | nil => exact .inr ⟨rfl, h⟩
  | cons length rest ih =>
      unfold monthDayFrom
      by_cases hday' : day' ≤ length
      · have hday : day ≤ length := by omega
        rw [if_pos hday, if_pos hday']
        exact .inr ⟨rfl, h⟩
      · rw [if_neg hday']
        by_cases hday : day ≤ length
        · -- The earlier day is in the first month, the later one is not.
          rw [if_pos hday]
          exact .inl (month_le (month + 1) rest (day' - length))
        · rw [if_neg hday]
          exact ih (month + 1) (day - length) (day' - length) (by omega)

theorem monthLengths_le (year : Int) (length : Nat) (h : length ∈ monthLengths year) :
    length ≤ 31 := by
  unfold monthLengths at h
  simp only [List.mem_cons, List.not_mem_nil, or_false] at h
  split at h <;> omega

theorem NaiveDate.monthDay_lt (d : NaiveDate) : d.monthDay.1 < 10 ^ 2 ∧ d.monthDay.2 < 10 ^ 2 := by
  have hbounds := monthDayFrom_le 31 1 (monthLengths d.year) d.ordinal d.ordinal_le
    (monthLengths_le d.year)
  have hlength : (monthLengths d.year).length = 12 := rfl
  rw [hlength] at hbounds
  unfold monthDay
  omega

/-- In a year, the months and days are in the order of the days. -/
theorem NaiveDate.monthDay_lt_iff (a b : NaiveDate) (hyear : a.year = b.year) :
    (a.monthDay.1 < b.monthDay.1 ∨ a.monthDay.1 = b.monthDay.1 ∧ a.monthDay.2 < b.monthDay.2) ↔
      a.ordinal < b.ordinal := by
  unfold monthDay
  rw [hyear]
  have hlt := monthDayFrom_lt 1 (monthLengths b.year) a.ordinal b.ordinal
  have hgt := monthDayFrom_lt 1 (monthLengths b.year) b.ordinal a.ordinal
  rcases Nat.lt_trichotomy a.ordinal b.ordinal with h | h | h
  · exact iff_of_true (hlt h) h
  · rw [h]
    omega
  · have hgt := hgt h
    omega

theorem NaiveDate.monthDay_inj (a b : NaiveDate) (hyear : a.year = b.year)
    (hmonth : a.monthDay.1 = b.monthDay.1) (hday : a.monthDay.2 = b.monthDay.2) : a = b := by
  have hlt := a.monthDay_lt_iff b hyear
  have hgt := b.monthDay_lt_iff a hyear.symm
  have hordinal : a.ordinal = b.ordinal := by omega
  cases a
  cases b
  simp only at hyear hordinal
  subst hyear hordinal
  rfl

/-! ## Points in time -/

/-- A date and a time of the day: the seconds since midnight and the
    nanoseconds behind them, a second or more of them in a leap second. -/
structure Timestamp where
  date : NaiveDate
  secs : Nat
  frac : Nat
  secs_lt : secs < 86400
  frac_lt : frac < 2 * 10 ^ 9
  deriving DecidableEq

namespace Timestamp

instance : LT Timestamp where
  lt a b := a.date < b.date ∨
    a.date = b.date ∧ (a.secs < b.secs ∨ a.secs = b.secs ∧ a.frac < b.frac)

variable (a b : Timestamp)

theorem lt_iff : a < b ↔ a.date < b.date ∨
      a.date = b.date ∧ (a.secs < b.secs ∨ a.secs = b.secs ∧ a.frac < b.frac) := Iff.rfl

instance (a b : Timestamp) : Decidable (a < b) := decidable_of_iff _ (lt_iff a b).symm

def hour (t : Timestamp) : Nat := t.secs / 3600

def minute (t : Timestamp) : Nat := t.secs / 60 % 60

/-- The second that is written: one more than it is in a leap second. -/
def second (t : Timestamp) : Nat :=
  if 10 ^ 9 ≤ t.frac then t.secs % 60 + 1 else t.secs % 60

/-- The nanoseconds that are written. -/
def nano (t : Timestamp) : Nat := if 10 ^ 9 ≤ t.frac then t.frac - 10 ^ 9 else t.frac

/-- The year: four digits where they suffice, or else a sign and at least as
    many. -/
def yearText (year : Int) : List Char :=
  if 0 ≤ year ∧ year ≤ 9999 then numeral 10 4 year.toNat
  else (if year < 0 then '-' else '+') :: (Nat.toDigits 10 year.natAbs).leftpad 4 '0'

/-- The fraction of a second: no digits, or as many groups of three as it
    takes. -/
def fractionText (nano : Nat) : List Char :=
  if nano = 0 then []
  else if nano % 10 ^ 6 = 0 then '.' :: numeral 10 3 (nano / 10 ^ 6)
  else if nano % 10 ^ 3 = 0 then '.' :: numeral 10 6 (nano / 10 ^ 3)
  else '.' :: numeral 10 9 nano

/-- The offset of UTC. -/
def offsetText : List Char := ['+', '0', '0', ':', '0', '0']

def text (t : Timestamp) : List Char :=
  yearText t.date.year ++ ('-' :: (numeral 10 2 t.date.monthDay.1 ++
    ('-' :: (numeral 10 2 t.date.monthDay.2 ++ ('T' :: (numeral 10 2 t.hour ++
      (':' :: (numeral 10 2 t.minute ++ (':' :: (numeral 10 2 t.second ++
        (fractionText t.nano ++ offsetText)))))))))))

def toRfc3339 (t : Timestamp) : String := String.ofList t.text

/-- The year has four digits, and a leap second is at the end of a minute. -/
structure Plain (t : Timestamp) : Prop where
  year_nonneg : 0 ≤ t.date.year
  year_le : t.date.year ≤ 9999
  leap : 10 ^ 9 ≤ t.frac → t.secs % 60 = 59

/-! ## The order of the texts -/

/-- The groups of three digits that are written. -/
def groups (nano : Nat) : List Nat :=
  if nano % 10 ^ 6 = 0 then [nano / 10 ^ 6]
  else if nano % 10 ^ 3 = 0 then [nano / 10 ^ 6, nano / 10 ^ 3 % 10 ^ 3]
  else [nano / 10 ^ 6, nano / 10 ^ 3 % 10 ^ 3, nano % 10 ^ 3]

/-- Groups of digits with the offset behind them. -/
def grouped : List Nat → List Char
  | [] => offsetText
  | group :: rest => numeral 10 3 group ++ grouped rest

theorem fractionText_eq (nano : Nat) :
    fractionText nano ++ offsetText =
      if nano = 0 then offsetText else '.' :: grouped (groups nano) := by
  have hsix : ∀ n, numeral 10 6 n = numeral 10 3 (n / 10 ^ 3) ++ numeral 10 3 (n % 10 ^ 3) :=
    numeral_add 10 3 3
  have hnine : ∀ n, numeral 10 9 n = numeral 10 3 (n / 10 ^ 6) ++ numeral 10 6 (n % 10 ^ 6) :=
    numeral_add 10 3 6
  have hdiv : nano / 10 ^ 3 / 10 ^ 3 = nano / 10 ^ 6 := by omega
  have hmod : nano % 10 ^ 6 / 10 ^ 3 = nano / 10 ^ 3 % 10 ^ 3 := by omega
  have hmod' : nano % 10 ^ 6 % 10 ^ 3 = nano % 10 ^ 3 := by omega
  unfold fractionText groups
  split
  · rfl
  · split
    · simp [grouped]
    · split
      · simp only [grouped, List.cons_append, List.append_assoc, hsix, hdiv]
      · simp only [grouped, List.cons_append, List.append_assoc, hnine, hsix, hmod, hmod']

/-- The offset comes before any digit. -/
theorem offset_lt_numeral (group : Nat) (x : List Char) :
    offsetText < numeral 10 3 group ++ x ∧ ¬ numeral 10 3 group ++ x < offsetText := by
  have hdigit : ∀ i : Fin 10, '+' < Nat.digitChar i ∧ ¬ Nat.digitChar i < '+' ∧
      Nat.digitChar i ≠ '+' := by decide
  have hfirst := hdigit ⟨group / 10 / 10 % 10, Nat.mod_lt _ (by decide)⟩
  unfold offsetText
  simp only [numeral, List.nil_append, List.cons_append, List.cons_lt_cons_iff]
  exact ⟨.inl hfirst.1, not_or.mpr ⟨hfirst.2.1, fun h => hfirst.2.2 h.1⟩⟩

/-- Groups are compared one after the other, and where one text ends it is the
    smaller one. -/
theorem grouped_lt_iff (gs gs' : List Nat) (h : ∀ g ∈ gs, g < 10 ^ 3) (h' : ∀ g ∈ gs', g < 10 ^ 3) :
    grouped gs < grouped gs' ↔ gs < gs' := by
  induction gs generalizing gs' with
  | nil =>
      cases gs' with
      | nil => exact iff_of_false (List.lt_irrefl _) (List.lt_irrefl _)
      | cons g' rest' =>
          exact iff_of_true (offset_lt_numeral g' (grouped rest')).1 (List.nil_lt_cons g' rest')
  | cons g rest ih =>
      cases gs' with
      | nil => exact iff_of_false (offset_lt_numeral g (grouped rest)).2 (List.not_lt_nil _)
      | cons g' rest' =>
          rw [grouped, grouped, field_lt_iff 10 (by decide) (by decide) 3 g g' _ _
            (h g List.mem_cons_self) (h' g' List.mem_cons_self), List.cons_lt_cons_iff,
            ih rest' (fun n hn => h n (List.mem_cons_of_mem g hn))
              (fun n hn => h' n (List.mem_cons_of_mem g' hn))]

theorem groups_lt (nano : Nat) (hnano : nano < 10 ^ 9) : ∀ g ∈ groups nano, g < 10 ^ 3 := by
  intro g hg
  unfold groups at hg
  split at hg
  · rw [List.mem_singleton.mp hg]
    omega
  · split at hg <;> simp only [List.mem_cons, List.not_mem_nil, or_false] at hg <;> omega

/-- The groups that are left out are zero. -/
theorem groups_lt_iff (m n : Nat) : groups m < groups n ↔ m < n := by
  unfold groups
  split <;> split <;> (try split) <;> (try split) <;>
    simp only [List.cons_lt_cons_iff, List.not_lt_nil, List.nil_lt_cons, and_false, and_true,
      or_false] <;> omega

/-- The order of the fractions, with the offset behind them. -/
theorem tail_lt_iff (m n : Nat) (hm : m < 10 ^ 9) (hn : n < 10 ^ 9) :
    fractionText m ++ offsetText < fractionText n ++ offsetText ↔ m < n := by
  rw [fractionText_eq, fractionText_eq]
  by_cases hm0 : m = 0
  · rw [if_pos hm0]
    by_cases hn0 : n = 0
    · rw [if_pos hn0, hm0, hn0]
      exact iff_of_false (List.lt_irrefl _) (Nat.lt_irrefl 0)
    · -- The plus sign comes before the full stop.
      rw [if_neg hn0]
      refine iff_of_true ?_ (by omega)
      exact List.cons_lt_cons_iff.mpr (.inl (by decide))
  · rw [if_neg hm0]
    by_cases hn0 : n = 0
    · rw [if_pos hn0]
      refine iff_of_false ?_ (by omega)
      unfold offsetText
      rw [List.cons_lt_cons_iff]
      exact not_or.mpr ⟨by decide, fun h => absurd h.1 (by decide)⟩
    · rw [if_neg hn0, List.cons_lt_cons_iff, grouped_lt_iff _ _ (groups_lt m hm) (groups_lt n hn),
        groups_lt_iff]
      simp [Char.lt_irrefl]

theorem nano_lt (t : Timestamp) : t.nano < 10 ^ 9 := by
  have hfrac := t.frac_lt
  unfold nano
  split <;> omega

/-- The time of the day, field by field. -/
theorem clock_lt_iff (ha : a.Plain) (hb : b.Plain) :
    (a.hour < b.hour ∨ a.hour = b.hour ∧ (a.minute < b.minute ∨ a.minute = b.minute ∧
        (a.second < b.second ∨ a.second = b.second ∧ a.nano < b.nano))) ↔
      a.secs < b.secs ∨ a.secs = b.secs ∧ a.frac < b.frac := by
  have hleap := ha.leap
  have hleap' := hb.leap
  unfold hour minute second nano
  split
  · split <;> omega
  · split <;> omega

/-- The date, field by field. -/
theorem date_lt_iff (ha : a.Plain) (hb : b.Plain) :
    a.date < b.date ↔ a.date.year.toNat < b.date.year.toNat ∨
      a.date.year.toNat = b.date.year.toNat ∧ (a.date.monthDay.1 < b.date.monthDay.1 ∨
        a.date.monthDay.1 = b.date.monthDay.1 ∧ a.date.monthDay.2 < b.date.monthDay.2) := by
  have hnonneg := ha.year_nonneg
  have hnonneg' := hb.year_nonneg
  rw [NaiveDate.lt_iff]
  by_cases hyear : a.date.year = b.date.year
  · rw [a.date.monthDay_lt_iff b.date hyear, hyear]
    simp
  · have hne : a.date.year.toNat ≠ b.date.year.toNat := by omega
    simp only [hyear, hne, false_and, or_false]
    omega

theorem date_eq_iff (ha : a.Plain) (hb : b.Plain) :
    a.date = b.date ↔ a.date.year.toNat = b.date.year.toNat ∧
      a.date.monthDay.1 = b.date.monthDay.1 ∧ a.date.monthDay.2 = b.date.monthDay.2 := by
  have hnonneg := ha.year_nonneg
  have hnonneg' := hb.year_nonneg
  constructor
  · intro h
    rw [h]
    exact ⟨rfl, rfl, rfl⟩
  · rintro ⟨hyear, hmonth, hday⟩
    exact a.date.monthDay_inj b.date (by omega) hmonth hday

/-- The fields of a text. -/
theorem text_lt_iff (ha : a.Plain) (hb : b.Plain) :
    a.text < b.text ↔ a.date.year.toNat < b.date.year.toNat ∨
      a.date.year.toNat = b.date.year.toNat ∧ (a.date.monthDay.1 < b.date.monthDay.1 ∨
        a.date.monthDay.1 = b.date.monthDay.1 ∧ (a.date.monthDay.2 < b.date.monthDay.2 ∨
          a.date.monthDay.2 = b.date.monthDay.2 ∧ (a.hour < b.hour ∨
            a.hour = b.hour ∧ (a.minute < b.minute ∨ a.minute = b.minute ∧
              (a.second < b.second ∨ a.second = b.second ∧ a.nano < b.nano)))))  := by
  have hbounds : ∀ t : Timestamp, t.Plain → yearText t.date.year = numeral 10 4 t.date.year.toNat ∧
      t.date.year.toNat < 10 ^ 4 ∧ t.hour < 10 ^ 2 ∧ t.minute < 10 ^ 2 ∧ t.second < 10 ^ 2 := by
    intro t ht
    have hnonneg := ht.year_nonneg
    have hle := ht.year_le
    have hsecs := t.secs_lt
    have hleap := ht.leap
    refine ⟨if_pos ⟨hnonneg, hle⟩, by omega, ?_, ?_, ?_⟩
    · unfold hour
      omega
    · unfold minute
      omega
    · unfold second
      split <;> omega
  rcases hbounds a ha with ⟨hyear, hyear_lt, hhour, hminute, hsecond⟩
  rcases hbounds b hb with ⟨hyear', hyear_lt', hhour', hminute', hsecond'⟩
  have hfield := fun w m n x y => field_lt_iff 10 (by decide) (by decide) w m n x y
  have hsame : ∀ (c : Char) (x y : List Char), c :: x < c :: y ↔ x < y := by
    intro c x y
    rw [List.cons_lt_cons_iff]
    simp [Char.lt_irrefl]
  unfold text
  rw [hyear, hyear', hfield 4 _ _ _ _ hyear_lt hyear_lt', hsame,
    hfield 2 _ _ _ _ a.date.monthDay_lt.1 b.date.monthDay_lt.1, hsame,
    hfield 2 _ _ _ _ a.date.monthDay_lt.2 b.date.monthDay_lt.2, hsame,
    hfield 2 _ _ _ _ hhour hhour', hsame, hfield 2 _ _ _ _ hminute hminute', hsame,
    hfield 2 _ _ _ _ hsecond hsecond', tail_lt_iff _ _ a.nano_lt b.nano_lt]

/-- The texts are ordered as the points in time are. -/
theorem toRfc3339_lt_iff (ha : a.Plain) (hb : b.Plain) : a.toRfc3339 < b.toRfc3339 ↔ a < b := by
  have htext : a.toRfc3339 < b.toRfc3339 ↔ a.text < b.text := by
    change (String.ofList a.text).toList < (String.ofList b.text).toList ↔ a.text < b.text
    rw [String.toList_ofList, String.toList_ofList]
  rw [htext, text_lt_iff a b ha hb, clock_lt_iff a b ha hb, lt_iff, date_lt_iff a b ha hb,
    date_eq_iff a b ha hb]
  -- Up to the day it is the date that decides, and then the clock.
  constructor
  · rintro (hyear | ⟨hyear, hmonth | ⟨hmonth, hday | ⟨hday, hclock⟩⟩⟩)
    · exact .inl (.inl hyear)
    · exact .inl (.inr ⟨hyear, .inl hmonth⟩)
    · exact .inl (.inr ⟨hyear, .inr ⟨hmonth, hday⟩⟩)
    · exact .inr ⟨⟨hyear, hmonth, hday⟩, hclock⟩
  · rintro ((hyear | ⟨hyear, hmonth | ⟨hmonth, hday⟩⟩) | ⟨⟨hyear, hmonth, hday⟩, hclock⟩)
    · exact .inl hyear
    · exact .inr ⟨hyear, .inl hmonth⟩
    · exact .inr ⟨hyear, .inr ⟨hmonth, .inl hday⟩⟩
    · exact .inr ⟨hyear, .inr ⟨hmonth, .inr ⟨hday, hclock⟩⟩⟩

/-- A leap second at the end of a minute. -/
example : toRfc3339 ⟨⟨2016, 366, by decide, by decide⟩, 86399, 10 ^ 9 + 500000000, by decide,
    by decide⟩ = "2016-12-31T23:59:60.500+00:00" := by decide +kernel

end Timestamp

end DccMcp
