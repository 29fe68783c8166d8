import DccMcp.Naming.CursorSafe

/-!
# Gateway Resource URIs

The gateway aggregates the resources of many backends. It publishes a
backend's `scheme://rest` as `scheme://<id8>/rest`, and cuts the id out again
when a client reads the resource.

The encoder trims the slashes the rest starts with, and the decoder cannot put
them back: `scene:///current` is published under the name of
`scene://current`. What the two functions are a bijection for are the URIs
without such slashes. `trimmed` is the URI the encoder publishes, and
everything here is stated through it. The round trip gives `trimmed`, and two
URIs share a gateway URI exactly when `trimmed` joins them.

The scheme is whatever stands before the first `://`, so it may be empty or
hold slashes and colons of its own. The decoder has to find the same place
again in a text whose rest is another one, which is `splitOnce_replace`: no
earlier `://` can come from what was put behind the first.

## Main definitions

* `encodeResourceUri`, `decodeResourceUri`: The codec.
* `trimmed`: A URI without the slashes behind its first `://`.

## Theorems

* `resource_uri_codec`: The codec is a bijection up to trimming.
-/

namespace DccMcp

namespace Naming

open Bytes

/-- The separator of a scheme. -/
def schemeSep : Bytes := ascii "://"

/-- `str::trim_start_matches('/')`. -/
def trimSlashes (s : Bytes) : Bytes := s.dropWhile (fun b => b == byte '/')

def isInstanceId8 (s : Bytes) : Bool := s.length == idPrefixLen && s.all isAsciiHexdigit

def encodeResourceUri (id : Uuid) (backendUri : Bytes) : Option Bytes :=
  match splitOnce schemeSep backendUri with
  | none => none
  | some (scheme, rest) =>
    some (scheme ++ schemeSep ++ instanceShort id ++ ascii "/" ++ trimSlashes rest)

def decodeResourceUri (prefixed : Bytes) : Option (Bytes × Bytes) :=
  match splitOnce schemeSep prefixed with
  | none => none
  | some (scheme, rest) =>
    let cut := (splitOnce (ascii "/") rest).getD (rest, [])
    if isInstanceId8 cut.1 then some (cut.1, scheme ++ schemeSep ++ cut.2) else none

/-- The URI the encoder publishes: without the slashes its rest starts with. -/
def trimmed (uri : Bytes) : Bytes :=
  match splitOnce schemeSep uri with
  | none => uri
  | some (scheme, rest) => scheme ++ schemeSep ++ trimSlashes rest

/-- The parts of a gateway URI. -/
theorem encodeResourceUri_eq_some (id : Uuid) (uri encoded : Bytes)
    (h : encodeResourceUri id uri = some encoded) :
    ∃ scheme rest, splitOnce schemeSep uri = some (scheme, rest) ∧
      encoded = scheme ++ (schemeSep ++ (instanceShort id ++ (ascii "/" ++ trimSlashes rest))) := by
  unfold encodeResourceUri at h
  split at h
  · simp at h
  · next scheme rest hcut =>
      simp only [Option.some.injEq, List.append_assoc] at h
      exact ⟨scheme, rest, hcut, h.symm⟩

/-- The first slash behind the id is the one the encoder wrote. -/
theorem slash_not_mem (id : Uuid) : byte '/' ∉ instanceShort id := by
  have hfront := instanceShort_isInstancePrefix id
  simp only [isInstancePrefix, Bool.and_eq_true, List.all_eq_true] at hfront
  intro hmem
  exact absurd (hfront.2 _ hmem) (by decide)

/-- Decoding what stands behind a scheme, an id and a slash. -/
theorem decodeResourceUri_wire (id : Uuid) (uri scheme rest remainder : Bytes)
    (hcut : splitOnce schemeSep uri = some (scheme, rest)) :
    decodeResourceUri (scheme ++ (schemeSep ++ (instanceShort id ++ (ascii "/" ++ remainder))))
      = some (instanceShort id, scheme ++ schemeSep ++ remainder) := by
  have hscheme := splitOnce_replace schemeSep uri scheme rest
    (instanceShort id ++ (ascii "/" ++ remainder)) hcut
  have hslash : splitOnce (ascii "/") (instanceShort id ++ (ascii "/" ++ remainder))
      = some (instanceShort id, remainder) :=
    splitOnce_append_of_not_mem (byte '/') [] (instanceShort id) remainder (slash_not_mem id)
  have hid : isInstanceId8 (instanceShort id) = true := instanceShort_isInstancePrefix id
  simp [decodeResourceUri, hscheme, hslash, if_pos hid]

/-- Nothing is trimmed from a rest that does not start with a slash. -/
theorem trimSlashes_eq_self (rest : Bytes) :
    trimSlashes rest = rest ↔ ∀ tail, rest ≠ byte '/' :: tail := by
  cases rest with
  | nil => simp only [trimSlashes, List.dropWhile_nil, ne_eq, reduceCtorEq, not_false_eq_true,
      implies_true]
  | cons b rest =>
      by_cases hb : b = byte '/'
      · subst hb
        simp only [trimSlashes, List.dropWhile_cons, beq_self_eq_true, if_true, ne_eq,
          List.cons.injEq, true_and]
        constructor
        · intro h
          -- What is left after trimming is no longer than the rest without its slash.
          have hlength := (List.dropWhile_suffix (fun b => b == byte '/') : _ <:+ rest).length_le
          rw [h, List.length_cons] at hlength
          omega
        · intro h
          exact absurd rfl (h rest)
      · have hne : (b == byte '/') = false := beq_eq_false_iff_ne.mpr hb
        simp [trimSlashes, hne, hb]

/-- Nothing is trimmed from a URI whose rest does not start with a slash. -/
theorem trimmed_eq_self (uri scheme rest : Bytes)
    (hcut : splitOnce schemeSep uri = some (scheme, rest)) :
    trimmed uri = uri ↔ ∀ tail, rest ≠ byte '/' :: tail := by
  rw [← trimSlashes_eq_self, trimmed, hcut]
  conv => lhs; rhs; rw [splitOnce_eq_some schemeSep uri scheme rest hcut]
  simp [List.append_cancel_left_eq]

/-- A gateway URI is the published URI with the id cut in, so the published
    URI decides it. -/
theorem encodeResourceUri_eq_iff (id : Uuid) (u v x y : Bytes)
    (hu : encodeResourceUri id u = some x) (hv : encodeResourceUri id v = some y) :
    x = y ↔ trimmed u = trimmed v := by
  rcases encodeResourceUri_eq_some id u x hu with ⟨scheme, rest, hcut, rfl⟩
  rcases encodeResourceUri_eq_some id v y hv with ⟨scheme', rest', hcut', rfl⟩
  have htrim : trimmed u = scheme ++ (schemeSep ++ trimSlashes rest) := by
    simp [trimmed, hcut]
  have htrim' : trimmed v = scheme' ++ (schemeSep ++ trimSlashes rest') := by
    simp [trimmed, hcut']
  constructor
  · intro h
    have hdecode := congrArg decodeResourceUri h
    rw [decodeResourceUri_wire id u scheme rest _ hcut,
      decodeResourceUri_wire id v scheme' rest' _ hcut', Option.some.injEq,
      Prod.mk.injEq] at hdecode
    rw [htrim, htrim', ← List.append_assoc, ← List.append_assoc]
    exact hdecode.2
  · intro h
    -- The first separator of the published URI gives the scheme and the rest back.
    have hparts := splitOnce_replace schemeSep u scheme rest (trimSlashes rest) hcut
    have hparts' := splitOnce_replace schemeSep v scheme' rest' (trimSlashes rest') hcut'
    rw [← htrim, h, htrim', hparts', Option.some.injEq, Prod.mk.injEq] at hparts
    rw [hparts.1, hparts.2]

/-- Gateway resource URIs are a codec up to the slashes the rest of a URI
    starts with. An accepted URI comes back with the first eight digits of its
    instance id and without those slashes, which is the URI itself exactly
    when it has none; and two URIs of one instance have the same gateway URI
    exactly when they differ in those slashes only. -/
theorem resource_uri_codec (id : Uuid) :
    (∀ uri encoded, encodeResourceUri id uri = some encoded →
      decodeResourceUri encoded = some (id.simple.take 8, trimmed uri)) ∧
    (∀ uri scheme rest, splitOnce schemeSep uri = some (scheme, rest) →
      (trimmed uri = uri ↔ ∀ tail, rest ≠ byte '/' :: tail)) ∧
    (∀ u v x y, encodeResourceUri id u = some x → encodeResourceUri id v = some y →
      (x = y ↔ trimmed u = trimmed v)) := by
  refine ⟨?_, trimmed_eq_self, encodeResourceUri_eq_iff id⟩
  intro uri encoded h
  rcases encodeResourceUri_eq_some id uri encoded h with ⟨scheme, rest, hcut, rfl⟩
  rw [decodeResourceUri_wire id uri scheme rest _ hcut]
  simp only [instanceShort, idPrefixLen, trimmed, hcut]

/-- The tests' instance. -/
def fixedId : Uuid := ⟨0xabcdef01000000000000000000000000#128⟩

/-- A path comes back under the short id. -/
theorem resource_uri_codec_output :
    decodeResourceUri (ascii "output://abcdef01/job_42/stdout.log")
      = some (ascii "abcdef01", ascii "output://job_42/stdout.log") := by
  have hencode : encodeResourceUri fixedId (ascii "output://job_42/stdout.log")
      = some (ascii "output://abcdef01/job_42/stdout.log") := by
    decide +kernel
  have hshort : fixedId.simple.take 8 = ascii "abcdef01" := by
    decide +kernel
  have htrim : trimmed (ascii "output://job_42/stdout.log")
      = ascii "output://job_42/stdout.log" := by
    decide +kernel
  have h := (resource_uri_codec fixedId).1 _ _ hencode
  rw [hshort, htrim] at h
  exact h

/-- A URI without authority is published under the name of another URI, and
    decodes to that one. -/
theorem authority_less_uri_not_round_trip :
    encodeResourceUri fixedId (ascii "scene:///current")
      = encodeResourceUri fixedId (ascii "scene://current") ∧
    (encodeResourceUri fixedId (ascii "scene:///current")).bind decodeResourceUri
      = some (fixedId.simple.take 8, ascii "scene://current") ∧
    ascii "scene:///current" ≠ ascii "scene://current" := by
  decide +kernel

end Naming

end DccMcp
