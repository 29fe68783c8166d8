import DccMcp.Lib.Json
import Mathlib.Data.List.Sort

/-!
# The Artefact Store

The content-addressed store on local disk. The bytes of an artefact are in
one file named by their digest, and beside it there is a sidecar file for
each of its references: the primary one, and one for every combination of
options the same bytes were stored with. A body without a sidecar is not an
artefact.

The files are found by name. A client sends a URI, and what follows its
scheme is joined to the root as it is, sometimes after the root has been
listed for a file of that name and sometimes not. So the names are kept as
text, and what the system makes of a name is a parameter of the store, of
which only this is known: a name that is one component stands for the child
of the root of that name.

Everything an operation reads, writes or removes is noted in `touched`.

## Main definitions

* `FileRef`, `PutOptions`: References, and what they are stored with.
* `Disk`, `Store`: The files, and what a store is opened with.
* `cleanupExpired`, `readSidecar`, `putInner`, `get`, `head`, `delete`,
  `list`: The operations.

## Theorems

* `readFile_files`, `readRefs_files`, `firstRef_files`, `readSidecar_files`:
  Reading changes no file.
-/

namespace DccMcp

namespace Artefact

open Json (Value)

/-- The name of a file, and the names on the way from the top to a file. -/
abbrev Name := List Char

abbrev Location := List Name

/-- Times are nanoseconds since the epoch. -/
structure FileRef where
  uri : Name
  mime : Option String
  sizeBytes : Option Nat
  displayName : Option String
  digest : Option Name
  producerJobId : Option String
  toolCallId : Option String
  sessionId : Option String
  correlationId : Option String
  createdAt : Int
  expiresAt : Option Int
  metadata : Value
  deriving DecidableEq

structure PutOptions where
  mime : Option String
  displayName : Option String
  producerJobId : Option String
  toolCallId : Option String
  sessionId : Option String
  correlationId : Option String
  ttlSecs : Option UInt64
  metadata : Value
  deriving DecidableEq

def PutOptions.default : PutOptions := ⟨none, none, none, none, none, none, none, .null⟩

structure Filter where
  producerJobId : Option String
  mime : Option String
  createdSince : Option Int
  sessionId : Option String
  toolCallId : Option String
  correlationId : Option String

def Filter.default : Filter := ⟨none, none, none, none, none, none⟩

/-- What a file holds: a serialized reference, or bytes that are none. -/
inductive Content
  | raw (bytes : List UInt8)
  | sidecar (fr : FileRef)
  deriving DecidableEq

inductive Access
  | read
  | write
  | remove
  deriving DecidableEq

/-- The files that are there, and what has been done to them. -/
structure Disk where
  files : List (Location × Content)
  touched : List (Access × Location)

inductive Failure
  | invalidUri (uri : Name)
  | serde
  | io
  | panic
  deriving DecidableEq

/-- The order in which names are sorted. -/
def nameLe : Name → Name → Bool
  | [], _ => true
  | _ :: _, [] => false
  | a :: as, b :: bs => a.toNat < b.toNat || (a.toNat == b.toNat && nameLe as bs)

/-- The text of a SHA-256 digest. -/
def isDigest (hex : Name) : Bool :=
  hex.length == 64 && hex.all fun c => c.isDigit || ('a' ≤ c && c ≤ 'f')

/-- What a store is opened with, and what it takes from elsewhere: the hash
    function, the serialization of options and references, and the path
    resolution of the system for names joined to the root. -/
structure Store where
  root : Location
  defaultTtl : Option UInt64
  hash : List UInt8 → Name
  hash_digest : ∀ bytes, isDigest (hash bytes) = true
  encode : PutOptions → List UInt8
  serialize : FileRef → List UInt8
  resolve : Name → Option Location
  resolve_name : ∀ name, '/' ∉ name → name ≠ [] → name ≠ ['.'] → name ≠ ['.', '.'] →
    resolve name = some (root ++ [name])

def jsonExt : Name := ['.', 'j', 's', 'o', 'n']

def binExt : Name := ['.', 'b', 'i', 'n']

def scheme : Name := "artefact://sha256/".toList

def makeUriSha256 (hex : Name) : Name := scheme ++ hex

def parseSha256Uri (uri : Name) : Option Name :=
  if scheme.isPrefixOf uri then some (uri.drop scheme.length) else none

def digestScheme : Name := "sha256:".toList

def FileRef.sha256Hex (fr : FileRef) : Option Name :=
  fr.digest.bind fun digest =>
    if digestScheme.isPrefixOf digest then some (digest.drop digestScheme.length) else none

def FileRef.isExpiredAt (fr : FileRef) (now : Int) : Bool :=
  match fr.expiresAt with
  | some expiresAt => decide (expiresAt ≤ now)
  | none => false

def PutOptions.hasLogicalMetadata (o : PutOptions) : Bool :=
  o.mime.isSome || o.displayName.isSome || o.producerJobId.isSome || o.toolCallId.isSome ||
    o.sessionId.isSome || o.correlationId.isSome || o.ttlSecs.isSome || o.metadata != .null

/-- Whether the extension of a file name is `json`. -/
def isJson (name : Name) : Bool := jsonExt.isSuffixOf name && name != jsonExt

namespace Store

variable (store : Store)

def logicalSidecarKey (o : PutOptions) : Option Name :=
  if o.hasLogicalMetadata then some ((store.hash (store.encode o)).take 16) else none

def bodyName (hex : Name) : Name := hex ++ binExt

def sidecarName (hex : Name) : Option Name → Name
  | some key => hex ++ '.' :: key ++ jsonExt
  | none => hex ++ jsonExt

/-- The file a name leads to. -/
def find (name : Name) (d : Disk) : Option (Location × Content) :=
  (store.resolve name).bind fun loc => (d.files.lookup loc).map fun content => (loc, content)

def readFile (name : Name) (d : Disk) : Option Content × Disk :=
  match store.find name d with
  | some (loc, content) => (some content, { d with touched := d.touched ++ [(.read, loc)] })
  | none => (none, d)

def removeFile (name : Name) (d : Disk) : Disk :=
  match store.find name d with
  | some (loc, _) =>
    { files := d.files.filter (·.1 != loc), touched := d.touched ++ [(.remove, loc)] }
  | none => d

/-- A file is written under a temporary name and then renamed. -/
def writeFile (name : Name) (content : Content) (d : Disk) : Disk :=
  match store.resolve name with
  | some loc =>
    { files := d.files.filter (·.1 != loc) ++ [(loc, content)]
      touched := d.touched ++ [(.write, loc)] }
  | none => d

/-- The name of a file that is directly in the root. -/
def childName (loc : Location) : Option Name :=
  if loc.dropLast = store.root then loc.getLast? else none

/-- The JSON files of a listing of the root. -/
def jsonNames (d : Disk) : List Name :=
  (d.files.filterMap fun file => store.childName file.1).filter isJson

/-- Whether a file name is that of a sidecar. -/
def isSidecarOf (hex name : Name) : Bool :=
  name == hex ++ jsonExt || (hex ++ ['.']).isPrefixOf name

/-- `sidecar_paths_for_hex`. -/
def sidecarPaths (hex : Name) (d : Disk) : List Name :=
  ((store.jsonNames d).filter (isSidecarOf hex)).insertionSort (fun a b => nameLe a b = true)

/-- One file of `cleanup_expired`. -/
def cleanupFile (now : Int) (d : Disk) (name : Name) : Disk :=
  match store.readFile name d with
  | (some (.sidecar fr), d) =>
    if fr.isExpiredAt now then
      let d := store.removeFile name d
      match fr.sha256Hex with
      | some hex =>
        if (store.sidecarPaths hex d).isEmpty then store.removeFile (bodyName hex) d else d
      | none => d
    else d
  | (_, d) => d

def cleanupExpired (now : Int) (d : Disk) : Disk :=
  (store.jsonNames d).foldl (store.cleanupFile now) d

/-- The references among some files, each of which is read. -/
def readRefs : List Name → Disk → List FileRef × Disk
  | [], d => ([], d)
  | name :: rest, d =>
    match store.readFile name d with
    | (some (.sidecar fr), d) =>
      let (refs, d) := readRefs rest d
      (fr :: refs, d)
    | (_, d) => readRefs rest d

/-- The first reference among some files. -/
def firstRef : List Name → Disk → Option FileRef × Disk
  | [], d => (none, d)
  | name :: rest, d =>
    match store.readFile name d with
    | (some (.sidecar fr), d) => (some fr, d)
    | (_, d) => firstRef rest d

def readSidecar (hex : Name) (d : Disk) : Except Failure (Option FileRef) × Disk :=
  match store.readFile (sidecarName hex none) d with
  | (some (.sidecar fr), d) => (.ok (some fr), d)
  | (some (.raw _), d) => (.error .serde, d)
  | (none, d) =>
    let (fr, d) := store.firstRef (store.sidecarPaths hex d) d
    (.ok fr, d)

def readAllSidecars (d : Disk) : List FileRef × Disk := store.readRefs (store.jsonNames d) d

/-- The last time a `DateTime<Utc>` can be. -/
def maxUtc : Int := 8210266876799999999999

/-- `expires_at_from_ttl`. `Duration::seconds` panics beyond its range. -/
def expiresAtFromTtl (now : Int) (ttl : UInt64) : Except Failure (Option Int) :=
  if 9223372036854775807 < ttl.toNat then .ok none
  else if 9223372036854775 < ttl.toNat then .error .panic
  else if now + ttl.toNat * 1000000000 ≤ maxUtc then .ok (some (now + ttl.toNat * 1000000000))
  else .ok none

/-- `make_file_ref`, with `apply_to`. -/
def makeFileRef (uri hex : Name) (size : Nat) (o : PutOptions) (now : Int) :
    Except Failure FileRef :=
  let fr := fun expiresAt : Option Int =>
    { uri, mime := o.mime, sizeBytes := some size, displayName := o.displayName,
      digest := some (digestScheme ++ hex), producerJobId := o.producerJobId,
      toolCallId := o.toolCallId, sessionId := o.sessionId, correlationId := o.correlationId,
      createdAt := now, expiresAt, metadata := o.metadata : FileRef }
  match o.ttlSecs <|> store.defaultTtl with
  | some ttl => (expiresAtFromTtl now ttl).map fr
  | none => .ok (fr none)

/-- The instants at which a put looks at the clock. -/
structure Instants where
  cleanup : Int
  check : Int
  create : Int
  finish : Int

/-- The second half of `put_inner`: the body, the sidecar, the retention. A
    store without limits only cleans up at the end. -/
def putNew (bytes : List UInt8) (o : PutOptions) (at_ : Instants) (d : Disk) :
    Except Failure FileRef × Disk :=
  let hex := store.hash bytes
  let d := if (store.find (bodyName hex) d).isSome then d
    else store.writeFile (bodyName hex) (.raw bytes) d
  match store.makeFileRef (makeUriSha256 hex) hex bytes.length o at_.create with
  | .error failure => (.error failure, d)
  | .ok fr =>
    let d := store.writeFile (sidecarName hex (store.logicalSidecarKey o)) (.sidecar fr) d
    (.ok fr, store.cleanupExpired at_.finish d)

def putInner (body : Option (List UInt8)) (o : PutOptions) (at_ : Instants) (d : Disk) :
    Except Failure FileRef × Disk :=
  let d := store.cleanupExpired at_.cleanup d
  match body with
  | none => (.error .io, d)
  | some bytes =>
    let name := sidecarName (store.hash bytes) (store.logicalSidecarKey o)
    match store.readFile name d with
    | (some (.sidecar existing), d) =>
      if existing.isExpiredAt at_.check then store.putNew bytes o at_ (store.removeFile name d)
      else (.ok existing, d)
    | (some (.raw _), d) => (.error .serde, d)
    | (none, d) => store.putNew bytes o at_ d

def get (uri : Name) (now : Int) (d : Disk) : Except Failure (Option (List UInt8)) × Disk :=
  match parseSha256Uri uri with
  | none => (.error (.invalidUri uri), d)
  | some hex =>
    let d := store.cleanupExpired now d
    if (store.sidecarPaths hex d).isEmpty then (.ok none, d)
    else
      match store.readFile (bodyName hex) d with
      | (some (.raw bytes), d) => (.ok (some bytes), d)
      | (some (.sidecar fr), d) => (.ok (some (store.serialize fr)), d)
      | (none, d) => (.ok none, d)

/-- The removals of `delete`. -/
def deleteHex (hex : Name) (d : Disk) : Disk :=
  let d := store.removeFile (bodyName hex) d
  (store.sidecarPaths hex d).foldl (fun d name => store.removeFile name d) d

def delete (uri : Name) (d : Disk) : Except Failure Unit × Disk :=
  match parseSha256Uri uri with
  | none => (.error (.invalidUri uri), d)
  | some hex => (.ok (), store.deleteHex hex d)

def head (uri : Name) (now : Int) (d : Disk) : Except Failure (Option FileRef) × Disk :=
  match parseSha256Uri uri with
  | none => (.error (.invalidUri uri), d)
  | some hex =>
    match store.readSidecar hex d with
    | (.error failure, d) => (.error failure, d)
    | (.ok (some fr), d) =>
      if fr.isExpiredAt now then (.ok none, (store.delete uri d).2) else store.readSidecar hex d
    | (.ok none, d) => store.readSidecar hex d

end Store

/-- One criterion of a filter. -/
def admits {α : Type} [DecidableEq α] (wanted : Option α) (value : Option α) : Bool :=
  wanted.isNone || wanted == value

def applyFilter (fr : FileRef) (f : Filter) : Bool :=
  admits f.producerJobId fr.producerJobId && admits f.mime fr.mime &&
    (match f.createdSince with
      | some since => decide (since ≤ fr.createdAt)
      | none => true) &&
    admits f.sessionId fr.sessionId && admits f.toolCallId fr.toolCallId &&
    admits f.correlationId fr.correlationId

def Store.list (store : Store) (f : Filter) (now : Int) (d : Disk) : List FileRef × Disk :=
  let (refs, d) := store.readAllSidecars (store.cleanupExpired now d)
  (refs.filter fun fr => applyFilter fr f, d)

namespace Store

variable (store : Store)

variable (name : Name) (d : Disk)

theorem readFile_files : (store.readFile name d).2.files = d.files := by
  unfold readFile
  split <;> rfl

theorem readFile_content : (store.readFile name d).1 = (store.find name d).map (·.2) := by
  unfold readFile
  split
  next h => rw [h]; rfl
  next h => rw [h]; rfl

/-- Where a name leads depends on the files alone. -/
theorem find_congr (d d' : Disk) (h : d.files = d'.files) :
    store.find name d = store.find name d' := by
  unfold find
  rw [h]

theorem jsonNames_congr (d d' : Disk) (h : d.files = d'.files) :
    store.jsonNames d = store.jsonNames d' := by
  unfold jsonNames
  rw [h]

theorem readRefs_files (names : List Name) (d : Disk) :
    (store.readRefs names d).2.files = d.files := by
  induction names generalizing d with
  | nil => rfl
  | cons name rest ih =>
      have hread := store.readFile_files name d
      rw [readRefs]
      split
      next fr d' hd =>
        rw [hd] at hread
        exact (ih d').trans hread
      next d' _ hd =>
        rw [hd] at hread
        exact (ih d').trans hread

theorem firstRef_files (names : List Name) (d : Disk) :
    (store.firstRef names d).2.files = d.files := by
  induction names generalizing d with
  | nil => rfl
  | cons name rest ih =>
      have hread := store.readFile_files name d
      rw [firstRef]
      split
      next fr d' hd =>
        rw [hd] at hread
        exact hread
      next d' _ hd =>
        rw [hd] at hread
        exact (ih d').trans hread

theorem readSidecar_files (hex : Name) (d : Disk) :
    (store.readSidecar hex d).2.files = d.files := by
  have hread := store.readFile_files (sidecarName hex none) d
  unfold readSidecar
  split
  next hd =>
    rw [hd] at hread
    exact hread
  next hd =>
    rw [hd] at hread
    exact hread
  next hd =>
    rw [hd] at hread
    exact (store.firstRef_files _ _).trans hread

/-- The file a name leads to is there. -/
theorem mem_of_find (loc : Location) (content : Content)
    (h : store.find name d = some (loc, content)) :
    store.resolve name = some loc ∧ (loc, content) ∈ d.files := by
  obtain ⟨loc', hresolve, hlookup⟩ := Option.bind_eq_some_iff.mp h
  obtain ⟨content', hcontent, heq⟩ := Option.map_eq_some_iff.mp hlookup
  cases heq
  obtain ⟨front, back, hfiles, -⟩ := List.lookup_eq_some_iff.mp hcontent
  refine ⟨hresolve, ?_⟩
  rw [hfiles]
  exact List.mem_append_right _ List.mem_cons_self

theorem find_isSome_of_mem (loc : Location) (content : Content)
    (hresolve : store.resolve name = some loc) (h : (loc, content) ∈ d.files) :
    ∃ content', store.find name d = some (loc, content') := by
  unfold find
  rw [hresolve, Option.bind_some]
  cases hlookup : d.files.lookup loc with
  | some content' => exact ⟨content', rfl⟩
  | none =>
      have hne := List.lookup_eq_none_iff.mp hlookup (loc, content) h
      simp at hne

theorem childName_eq_some (loc : Location) (name : Name) :
    store.childName loc = some name ↔ loc = store.root ++ [name] := by
  unfold childName
  constructor
  · intro h
    split at h
    next hroot =>
      have hsplit := List.dropLast_append_getLast? name h
      rw [hroot] at hsplit
      exact hsplit.symm
    next => cases h
  · rintro rfl
    rw [List.dropLast_concat, if_pos rfl, List.getLast?_concat]

theorem mem_jsonNames : name ∈ store.jsonNames d ↔
      isJson name = true ∧ ∃ content, (store.root ++ [name], content) ∈ d.files := by
  unfold jsonNames
  rw [List.mem_filter, List.mem_filterMap]
  constructor
  · rintro ⟨⟨⟨loc, content⟩, hmem, hname⟩, hjson⟩
    obtain rfl : loc = store.root ++ [name] := (store.childName_eq_some loc name).mp hname
    exact ⟨hjson, content, hmem⟩
  · rintro ⟨hjson, content, hmem⟩
    exact ⟨⟨(store.root ++ [name], content), hmem, (store.childName_eq_some _ _).mpr rfl⟩, hjson⟩

theorem mem_sidecarPaths (hex name : Name) (d : Disk) :
    name ∈ store.sidecarPaths hex d ↔ name ∈ store.jsonNames d ∧ isSidecarOf hex name = true := by
  unfold sidecarPaths
  rw [List.mem_insertionSort, List.mem_filter]

theorem mem_removeFile (file : Location × Content) : file ∈ (store.removeFile name d).files ↔
      file ∈ d.files ∧ ∀ loc content, store.find name d = some (loc, content) → file.1 ≠ loc := by
  unfold removeFile
  split
  next loc content hfind =>
    simp only [hfind, List.mem_filter, bne_iff_ne, ne_eq, Option.some.injEq, Prod.mk.injEq,
      and_imp]
    constructor
    · rintro ⟨hmem, hne⟩
      exact ⟨hmem, fun loc' _ hloc _ => hloc ▸ hne⟩
    · rintro ⟨hmem, hne⟩
      exact ⟨hmem, hne loc content rfl rfl⟩
  next hfind =>
    simp [hfind]

end Store

/-- What a client may ask of a store. -/
inductive Op
  | put (body : Option (List UInt8)) (o : PutOptions) (at_ : Store.Instants)
  | get (uri : Name) (now : Int)
  | head (uri : Name) (now : Int)
  | list (f : Filter) (now : Int)
  | delete (uri : Name)

inductive Response
  | ref (r : Except Failure FileRef)
  | body (r : Except Failure (Option (List UInt8)))
  | head (r : Except Failure (Option FileRef))
  | refs (refs : List FileRef)
  | deleted (r : Except Failure Unit)
  deriving DecidableEq

def Store.apply (store : Store) (d : Disk) : Op → Response × Disk
  | .put body o at_ => let r := store.putInner body o at_ d; (.ref r.1, r.2)
  | .get uri now => let r := store.get uri now d; (.body r.1, r.2)
  | .head uri now => let r := store.head uri now d; (.head r.1, r.2)
  | .list f now => let r := store.list f now d; (.refs r.1, r.2)
  | .delete uri => let r := store.delete uri d; (.deleted r.1, r.2)

/-- The disk after some operations. -/
def Store.run (store : Store) (d : Disk) (ops : List Op) : Disk :=
  ops.foldl (fun d op => (store.apply d op).2) d

end Artefact

end DccMcp
