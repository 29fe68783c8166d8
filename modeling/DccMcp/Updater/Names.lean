import DccMcp.Lib.Text

/-!
# Names of an Update

A component of an update replaces the executable or a file beside it. For the
time of the transaction each component has two more files in the same
directory, one with the new bytes and one with the old ones, and their names
are made from the component's own name.

Two rules look at names. Staging compares what a component is for, with letter
case folded, and the executable stands for itself there, whatever it is called.
Applying compares the paths. The names of the additional files are compared
nowhere, and a component may well be called what the other's additional file
will be called.

An additional file with the old bytes that is still there from an earlier
transaction is left alone, and a name with the process and the time is taken
for the new one. These names do not contain a second dot, so the part before
them can be told from them.

## Main definitions

* `UpdateTarget`, `validateTarget`, `targetKey`: What a component is for.
* `preparedName`, `backupName`, `datedBackupName`: Names of additional files.
* `pathKey`: How paths are compared.
* `isNewerVersion`: How builds are compared.

## Theorems

* `preparedName_ne_backupName`, `datedBackupName_inj` and the lemmas beside
  them: No two additional names are the same unless they are made from the
  same name in the same way.
* `isNewerVersion_self`: No build is newer than itself.
-/

namespace DccMcp

namespace Updater

inductive UpdateTarget
  | currentExecutable
  | sibling (fileName : String)
  deriving DecidableEq

def isPortableChar (c : Char) : Bool := c.isAlphanum || c == '-' || c == '_' || c == '.'

/-- The texts that are accepted are file names as they stand, so what the source
    asks besides (no separator, the name is its own file name) holds of them. -/
def validateSiblingName (fileName : String) : Bool :=
  fileName ≠ "" && fileName.toList.all isPortableChar && fileName.toList.getLast? ≠ some '.'

def validateTarget : UpdateTarget → Bool
  | .currentExecutable => true
  | .sibling fileName => validateSiblingName fileName

def targetKey : UpdateTarget → String
  | .currentExecutable => "current"
  | .sibling fileName => "sibling:" ++ Text.toAsciiLowercase fileName

def pathKey (windows : Bool) (path : String) : String :=
  if windows then Text.toAsciiLowercase path else path

/-- A digest is given by 64 hexadecimal digits. -/
def validateExpectedSha (value : String) : Bool :=
  value.utf8ByteSize == 64 && value.toList.all Text.isAsciiHexdigit

def preparedName (fileName : String) : String := fileName ++ ".dcc-mcp-new"

def backupName (fileName : String) : String := fileName ++ ".dcc-mcp-backup"

/-- The process and the time in nanoseconds. -/
def uniqueNonce (process nanos : Nat) : String := Nat.repr process ++ "-" ++ Nat.repr nanos

def datedBackupName (fileName : String) (process nanos : Nat) : String :=
  fileName ++ ".dcc-mcp-backup-" ++ uniqueNonce process nanos

/-- The number a segment begins with, zero if it begins with none or does not
    fit into 64 bits. -/
def parseSegment (segment : List Char) : Nat :=
  let digits := segment.takeWhile Char.isDigit
  let n := Nat.ofDigitChars 10 digits 0
  if n < 2 ^ 64 then n else 0

def versionParts (version : String) : List Nat :=
  (Text.splitOn (· == '.') version.toList).map parseSegment

def isNewerIn : List Nat → List Nat → Nat → Bool
  | _, _, 0 => false
  | candidate, current, parts + 1 =>
    let n := candidate.headD 0
    let c := current.headD 0
    if n > c then true
    else if n < c then false
    else isNewerIn candidate.tail current.tail parts

def isNewerVersion (candidate current : String) : Bool :=
  isNewerIn (versionParts candidate) (versionParts current) 3

theorem isNewerIn_self (parts : List Nat) (n : Nat) : isNewerIn parts parts n = false := by
  induction n generalizing parts with
  | zero => rfl
  | succ n ih =>
      unfold isNewerIn
      simp only [gt_iff_lt, Nat.lt_irrefl, if_false]
      exact ih parts.tail

/-- No build is newer than itself. -/
theorem isNewerVersion_self (version : String) : isNewerVersion version version = false :=
  isNewerIn_self (versionParts version) 3

theorem getLast?_preparedName (n : String) : (preparedName n).toList.getLast? = some 'w' := by
  have hlast : ".dcc-mcp-new".toList.getLast? = some 'w' := by decide
  rw [preparedName, String.toList_append, List.getLast?_append, hlast]
  rfl

theorem getLast?_backupName (n : String) : (backupName n).toList.getLast? = some 'p' := by
  have hlast : ".dcc-mcp-backup".toList.getLast? = some 'p' := by decide
  rw [backupName, String.toList_append, List.getLast?_append, hlast]
  rfl

variable (m n : String) (process nanos : Nat)

/-- The two kinds of additional files end in different letters. -/
theorem preparedName_ne_backupName : preparedName m ≠ backupName n := by
  intro h
  have hlast := getLast?_preparedName m
  rw [h, getLast?_backupName, Option.some.injEq] at hlast
  exact absurd hlast (by decide)

theorem preparedName_inj : preparedName m = preparedName n ↔ m = n := by
  constructor
  · intro h
    have hlist := congrArg String.toList h
    simp only [preparedName, String.toList_append, List.append_cancel_right_eq] at hlist
    exact String.toList_inj.mp hlist
  · rintro rfl
    rfl

theorem backupName_inj : backupName m = backupName n ↔ m = n := by
  constructor
  · intro h
    have hlist := congrArg String.toList h
    simp only [backupName, String.toList_append, List.append_cancel_right_eq] at hlist
    exact String.toList_inj.mp hlist
  · rintro rfl
    rfl

theorem preparedName_ne_self (n : String) : n ≠ preparedName n := by
  intro h
  have hlength := congrArg String.length h
  simp only [preparedName, String.length_append] at hlength
  exact absurd hlength (by have : ".dcc-mcp-new".length = 12 := by decide
                           omega)

theorem backupName_ne_self (n : String) : n ≠ backupName n := by
  intro h
  have hlength := congrArg String.length h
  simp only [backupName, String.length_append] at hlength
  exact absurd hlength (by have : ".dcc-mcp-backup".length = 15 := by decide
                           omega)

theorem datedBackupName_ne_self (n : String) (process nanos : Nat) :
    n ≠ datedBackupName n process nanos := by
  intro h
  have hlength := congrArg String.length h
  simp only [datedBackupName, String.length_append] at hlength
  exact absurd hlength (by have : ".dcc-mcp-backup-".length = 16 := by decide
                           omega)

/-- A nonce ends in a digit. -/
theorem getLast?_uniqueNonce :
    ∃ c : Char, c.isDigit = true ∧ (uniqueNonce process nanos).toList.getLast? = some c := by
  have hne : Nat.toDigits 10 nanos ≠ [] := Nat.toDigits_ne_nil
  refine ⟨(Nat.toDigits 10 nanos).getLast hne, ?_, ?_⟩
  · exact Nat.isDigit_of_mem_toDigits (by decide) (by decide) (List.getLast_mem hne)
  · simp only [uniqueNonce, String.toList_append, Nat.toList_repr]
    rw [List.getLast?_append, List.getLast?_eq_some_getLast hne]
    rfl

theorem datedBackupName_ne_of_letter (s : String) (c : Char) (hc : c.isDigit = false)
    (hs : s.toList.getLast? = some c) (n : String) (process nanos : Nat) :
    s ≠ datedBackupName n process nanos := by
  rintro rfl
  rcases getLast?_uniqueNonce process nanos with ⟨d, hd, hlast⟩
  simp only [datedBackupName, String.toList_append] at hs
  rw [List.getLast?_append, hlast] at hs
  simp only [Option.some_or, Option.some.injEq] at hs
  rw [hs, hc] at hd
  cases hd

theorem preparedName_ne_datedBackupName : preparedName m ≠ datedBackupName n process nanos :=
  datedBackupName_ne_of_letter _ 'w' (by decide) (getLast?_preparedName m) n process nanos

theorem backupName_ne_datedBackupName : backupName m ≠ datedBackupName n process nanos :=
  datedBackupName_ne_of_letter _ 'p' (by decide) (getLast?_backupName m) n process nanos

theorem notMem_toDigits (c : Char) (hc : c.isDigit = false) (n : Nat) :
    c ∉ Nat.toDigits 10 n := by
  intro hmem
  rw [Nat.isDigit_of_mem_toDigits (by decide) (by decide) hmem] at hc
  cases hc

/-- There is no dot in a nonce. -/
theorem dot_notMem_uniqueNonce : '.' ∉ (uniqueNonce process nanos).toList := by
  simp only [uniqueNonce, String.toList_append, Nat.toList_repr, List.mem_append, not_or]
  exact ⟨⟨notMem_toDigits '.' (by decide) process, by decide⟩,
    notMem_toDigits '.' (by decide) nanos⟩

/-- Of two texts with the last separator at the same place the parts agree. -/
theorem append_separator_inj (sep : Char) (x y v w : List Char) (hv : sep ∉ v) (hw : sep ∉ w)
    (h : x ++ sep :: v = y ++ sep :: w) : x = y ∧ v = w := by
  induction x generalizing y with
  | nil =>
      cases y with
      | nil =>
          simp only [List.nil_append, List.cons.injEq, true_and] at h
          exact ⟨rfl, h⟩
      | cons c y =>
          simp only [List.nil_append, List.cons_append, List.cons.injEq] at h
          exact absurd (h.2 ▸ List.mem_append_right y List.mem_cons_self) hv
  | cons c x ih =>
      cases y with
      | nil =>
          simp only [List.nil_append, List.cons_append, List.cons.injEq] at h
          exact absurd (h.2 ▸ List.mem_append_right x List.mem_cons_self) hw
      | cons d y =>
          simp only [List.cons_append, List.cons.injEq] at h
          rcases ih y h.2 with ⟨hxy, hvw⟩
          exact ⟨by rw [h.1, hxy], hvw⟩

/-- Nonces of different times are different. -/
theorem uniqueNonce_inj (process process' nanos nanos' : Nat)
    (h : uniqueNonce process nanos = uniqueNonce process' nanos') : nanos = nanos' := by
  have hlist := congrArg String.toList h
  simp only [uniqueNonce, String.toList_append, Nat.toList_repr] at hlist
  have hparts := append_separator_inj '-' _ _ _ _ (notMem_toDigits '-' (by decide) nanos)
    (notMem_toDigits '-' (by decide) nanos') (by simpa using hlist)
  have hvalue := congrArg (fun digits => Nat.ofDigitChars 10 digits 0) hparts.2
  simpa only [Nat.ofDigitChars_ten_toDigits] using hvalue

/-- The part before a dated name can be told, and so can its time. -/
theorem datedBackupName_inj (process process' nanos nanos' : Nat)
    (h : datedBackupName m process nanos = datedBackupName n process' nanos') :
    m = n ∧ nanos = nanos' := by
  have hsplit : ∀ (s : String) (p t : Nat), (datedBackupName s p t).toList =
      s.toList ++ '.' :: ("dcc-mcp-backup-".toList ++ (uniqueNonce p t).toList) := by
    intro s p t
    simp only [datedBackupName, String.toList_append, List.append_assoc]
    rfl
  have hdot : ∀ p t, '.' ∉ "dcc-mcp-backup-".toList ++ (uniqueNonce p t).toList := by
    intro p t
    rw [List.mem_append, not_or]
    exact ⟨by decide, dot_notMem_uniqueNonce p t⟩
  have hlist := congrArg String.toList h
  rw [hsplit, hsplit] at hlist
  rcases append_separator_inj '.' _ _ _ _ (hdot _ _) (hdot _ _) hlist with ⟨hm, hnonce⟩
  have hnonces := String.toList_inj.mp (List.append_cancel_left hnonce)
  exact ⟨String.toList_inj.mp hm, uniqueNonce_inj process process' nanos nanos' hnonces⟩

end Updater

end DccMcp
