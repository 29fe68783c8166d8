import Mathlib.Data.List.TakeWhile
import DccMcp.Lib.Text

/-!
# The Address of a Client

Which address the gateway counts the requests of a client under.

Behind `depth` trusted proxies, each of which puts one field at the end of
`X-Forwarded-For`, the address of the client is in the field left of the `depth`
rightmost ones. The gateway first drops the fields in which it finds no address, and
then counts from the right among the fields that are left. So a field without an
address among the last `depth + 1` lets the count go on to fields that the client has
written.

## Main definitions

* `IpAddr`, `Ipv6Syntax`: Addresses, and the texts of those of the sixth version.
* `normaliseForwardedForValue`: The address in a field.
* `effectiveClientIp`: The address of a client.
* `claimed`, `Counted`: The rule, and the headers for which the gateway follows it.

## Theorems

* `effectiveClientIp_iff`: When the gateway follows the rule, and when a client cannot
  choose the address.
-/

namespace DccMcp

namespace Gateway

namespace ClientAddress

open Text

/-! ## Addresses -/

abbrev Ipv4Addr := Fin 256 × Fin 256 × Fin 256 × Fin 256

/-- A number of an address: up to three digits, and no zero in front. -/
def parseOctet (part : List Char) : Option (Fin 256) :=
  if part.isEmpty || 3 < part.length || !part.all Char.isDigit ||
      (part.head? == some '0' && part.length ≠ 1) then none
  else
    let n := part.foldl (fun n c => 10 * n + (c.toNat - '0'.toNat)) 0
    if h : n < 256 then some ⟨n, h⟩ else none

def parseIpv4 (text : List Char) : Option Ipv4Addr :=
  match (text.splitOn '.').map parseOctet with
  | [some a, some b, some c, some d] => some (a, b, c, d)
  | _ => none

def octet (n : Fin 256) : List Char := Nat.toDigits 10 n

def displayIpv4 (ip : Ipv4Addr) : List Char :=
  ['.'].intercalate [octet ip.1, octet ip.2.1, octet ip.2.2.1, octet ip.2.2.2]

/-- `Ipv6Addr`, and how it is read and written. What is written is read back, and is not
    the text of an address of the fourth version. -/
structure Ipv6Syntax where
  Ipv6Addr : Type
  parse : List Char → Option Ipv6Addr
  display : Ipv6Addr → List Char
  parse_display : ∀ ip, parse (display ip) = some ip
  parseIpv4_display : ∀ ip, parseIpv4 (display ip) = none

variable (S : Ipv6Syntax)

inductive IpAddr
  | v4 (ip : Ipv4Addr)
  | v6 (ip : S.Ipv6Addr)

def parseIp (text : List Char) : Option (IpAddr S) :=
  match parseIpv4 text with
  | some ip => some (.v4 ip)
  | none => (S.parse text).map .v6

def displayIp : IpAddr S → List Char
  | .v4 ip => displayIpv4 ip
  | .v6 ip => S.display ip

theorem parseOctet_octet (n : Fin 256) : parseOctet (octet n) = some n := by
  revert n
  decide +kernel

theorem dot_notMem_octet (n : Fin 256) : '.' ∉ octet n := by
  revert n
  decide +kernel

theorem parseIpv4_displayIpv4 (ip : Ipv4Addr) : parseIpv4 (displayIpv4 ip) = some ip := by
  unfold parseIpv4 displayIpv4
  rw [List.splitOn_intercalate '.' ?_ (List.cons_ne_nil _ _)]
  · simp [parseOctet_octet]
  · simp [forall_eq_or_imp, dot_notMem_octet]

/-- An address that is written is read back. -/
theorem parseIp_displayIp (ip : IpAddr S) : parseIp S (displayIp S ip) = some ip := by
  unfold parseIp
  cases ip with
  | v4 ip =>
      show (match parseIpv4 (displayIpv4 ip) with
        | some ip => some (IpAddr.v4 ip)
        | none => (S.parse (displayIpv4 ip)).map .v6) = _
      rw [parseIpv4_displayIpv4]
  | v6 ip =>
      show (match parseIpv4 (S.display ip) with
        | some ip => some (IpAddr.v4 ip)
        | none => (S.parse (S.display ip)).map .v6) = _
      rw [S.parseIpv4_display, S.parse_display]
      rfl

/-! ## The fields -/

/-- A text without the characters of a class around it. -/
def trimMatches (p : Char → Bool) (s : List Char) : List Char :=
  ((s.dropWhile p).reverse.dropWhile p).reverse

def eqIgnoreCase (s : List Char) (t : String) : Bool := eqIgnoreAsciiCase (.ofList s) t

/-- What stands before and after the last occurrence of a character. -/
def rsplitOnce (sep : Char) (s : List Char) : Option (List Char × List Char) :=
  (cutAt sep s.reverse).map (fun cut => (cut.2.reverse, cut.1.reverse))

/-- Without its brackets, or its port. -/
def bareAddress (value : List Char) : List Char :=
  match value with
  | '[' :: rest =>
    match cutAt ']' rest with
    | some (ip, _) => ip
    | none => rest
  | value =>
    match rsplitOnce ':' value with
    | some (host, _) => if (parseIp S host).isSome then host else value
    | none => value

/-- The address that is found in a field. -/
def forwardedIp (raw : List Char) : Option (IpAddr S) :=
  let value := trimMatches isWhitespace (trimMatches (· == '"') raw)
  if value.isEmpty || eqIgnoreCase value "unknown" then none else parseIp S (bareAddress S value)

def normaliseForwardedForValue (raw : List Char) : Option (List Char) :=
  (forwardedIp S raw).map (displayIp S)

def parseIpList (raw : List Char) : List (List Char) :=
  (raw.splitOn ',').filterMap (fun segment =>
    normaliseForwardedForValue S (trimMatches isWhitespace segment))

def parseForwardedHeader (raw : List Char) : List (List Char) :=
  (raw.splitOn ',').filterMap (fun entry =>
    (entry.splitOn ';').findSome? (fun pair =>
      match cutAt '=' pair with
      | some (key, value) =>
        if eqIgnoreCase (trimMatches isWhitespace key) "for" then
          normaliseForwardedForValue S (trimMatches isWhitespace value)
        else none
      | none => none))

/-! ## The headers -/

/-- The bytes of a header, each as the character with its number. -/
abbrev HeaderValue := List Char

/-- The first value of a header, by its name. -/
abbrev HeaderMap := String → Option HeaderValue

def isVisibleAscii (c : Char) : Bool := (' ' ≤ c && c.toNat < 127) || c == '\t'

def toStr (value : HeaderValue) : Option (List Char) :=
  if value.all isVisibleAscii then some value else none

def headerStr (headers : HeaderMap) (name : String) : Option (List Char) :=
  (((headers name).bind toStr).map (trimMatches isWhitespace)).filter (fun value => !value.isEmpty)

def forwardedForChain (headers : HeaderMap) : List (List Char) :=
  let forwarded := (((headers "forwarded").bind toStr).map (parseForwardedHeader S)).getD []
  match headerStr headers "x-forwarded-for" with
  | some raw =>
    let parsed := parseIpList S raw
    if parsed.isEmpty then forwarded else parsed
  | none => forwarded

def effectiveClientIpFromChain (peerIp : IpAddr S) (forwardedFor : List (List Char))
    (trustedDepth : Nat) : IpAddr S :=
  if trustedDepth = 0 ∨ forwardedFor.length ≤ trustedDepth then peerIp
  else
    let idx := forwardedFor.length - 1 - trustedDepth
    ((forwardedFor[idx]?).bind (parseIp S)).getD peerIp

structure ClientNetworkAttribution where
  sourceIp : Option (List Char)
  forwardedFor : List (List Char)

def deriveClientNetworkAttributionWithDepth (connect : IpAddr S) (headers : HeaderMap)
    (trustedDepth : Nat) : ClientNetworkAttribution where
  sourceIp :=
    let source := effectiveClientIpFromChain S connect (forwardedForChain S headers) trustedDepth
    some (displayIp S source)
  forwardedFor := if 0 < trustedDepth then forwardedForChain S headers else []

def effectiveClientIp (connect : IpAddr S) (headers : HeaderMap) (trustedDepth : Nat) : IpAddr S :=
  let attribution := deriveClientNetworkAttributionWithDepth S connect headers trustedDepth
  (attribution.sourceIp.bind (parseIp S)).getD connect

/-! ## What is kept of a list -/

/-- An item among the kept ones is the image of an item with that many kept items before it. -/
theorem getElem?_filterMap_iff {α β : Type} (f : α → Option β) (l : List α) (n : Nat) (b : β) :
    (l.filterMap f)[n]? = some b ↔
      ∃ i a, l[i]? = some a ∧ f a = some b ∧ (l.take i).countP (fun a => (f a).isSome) = n := by
  induction l generalizing n with
  | nil =>
      rw [List.filterMap_nil, List.getElem?_nil]
      exact iff_of_false (fun h => by cases h) (fun ⟨_, _, h, _⟩ => by cases h)
  | cons a l ih =>
      have hlater : (∃ i a', (a :: l)[i]? = some a' ∧ f a' = some b ∧
            ((a :: l).take i).countP (fun a => (f a).isSome) = n) ↔
          (f a = some b ∧ n = 0) ∨ ∃ i a', l[i]? = some a' ∧ f a' = some b ∧
            (a :: l.take i).countP (fun a => (f a).isSome) = n := by
        constructor
        · rintro ⟨i, a', hat, hb, hcount⟩
          cases i with
          | zero =>
              rw [List.getElem?_cons_zero, Option.some.injEq] at hat
              exact .inl ⟨hat ▸ hb, hcount.symm⟩
          | succ i => exact .inr ⟨i, a', hat, hb, hcount⟩
        · rintro (⟨hb, hn⟩ | ⟨i, a', hat, hb, hcount⟩)
          · exact ⟨0, a, rfl, hb, hn.symm⟩
          · exact ⟨i + 1, a', hat, hb, hcount⟩
      rw [hlater]
      cases hfa : f a with
      | none =>
          rw [List.filterMap_cons_none hfa, ih]
          simp [hfa]
      | some b' =>
          rw [List.filterMap_cons_some hfa]
          simp only [List.countP_cons, hfa, Option.isSome_some, if_true, Option.some.injEq]
          cases n with
          | zero =>
              rw [List.getElem?_cons_zero, Option.some.injEq]
              exact ⟨fun h => .inl ⟨h, rfl⟩,
                fun h => h.elim (·.1) (fun ⟨_, _, _, _, h⟩ => absurd h (Nat.succ_ne_zero _))⟩
          | succ n =>
              rw [List.getElem?_cons_succ, ih]
              simp [Nat.add_right_cancel_iff]

/-! ## Trimming -/

theorem trimMatches_cons (p : Char → Bool) (c : Char) (s : List Char) (hc : p c = true) :
    trimMatches p (c :: s) = trimMatches p s := by
  unfold trimMatches
  rw [List.dropWhile_cons_of_pos hc]

theorem trimMatches_append (p : Char → Bool) (c : Char) (s : List Char) (hc : p c = true) :
    trimMatches p (s ++ [c]) = trimMatches p s := by
  unfold trimMatches
  rw [List.dropWhile_append]
  split
  next hempty =>
    rw [List.isEmpty_iff.mp hempty, List.dropWhile_cons_of_pos hc]
    rfl
  next => rw [List.reverse_append, List.reverse_singleton, List.singleton_append,
      List.dropWhile_cons_of_pos hc]

/-- What a text is trimmed of stands around it. -/
theorem exists_trimMatches (p : Char → Bool) (s : List Char) :
    ∃ before after, s = before ++ trimMatches p s ++ after ∧
      (∀ c ∈ before, p c = true) ∧ ∀ c ∈ after, p c = true := by
  refine ⟨s.takeWhile p, ((s.dropWhile p).reverse.takeWhile p).reverse, ?_, ?_, ?_⟩
  · unfold trimMatches
    rw [List.append_assoc, ← List.reverse_append, List.takeWhile_append_dropWhile,
      List.reverse_reverse, List.takeWhile_append_dropWhile]
  · exact fun c hc => List.mem_takeWhile_imp hc
  · exact fun c hc => List.mem_takeWhile_imp (List.mem_reverse.mp hc)

/-- The fields, trimmed. -/
def trimmedFields (value : List Char) : List (List Char) :=
  (value.splitOn ',').map (trimMatches isWhitespace)

theorem trimmedFields_cons (c : Char) (s : List Char) (hc : isWhitespace c = true) :
    trimmedFields (c :: s) = trimmedFields s := by
  have hne : (c == ',') = false := by
    rw [beq_eq_false_iff_ne]
    rintro rfl
    revert hc
    decide
  unfold trimmedFields
  rw [List.splitOn_cons_eq_if_modifyHead, hne, if_neg Bool.false_ne_true]
  cases s.splitOn ',' with
  | nil => rfl
  | cons field rest =>
      show trimMatches isWhitespace (c :: field) :: _ = _
      rw [trimMatches_cons _ _ _ hc]
      rfl

/-- What is put at the end of a text is put at the end of its last field. -/
theorem splitOn_append_singleton (sep c : Char) (s : List Char) (hc : c ≠ sep) :
    ∃ init last, s.splitOn sep = init ++ [last] ∧
      (s ++ [c]).splitOn sep = init ++ [last ++ [c]] := by
  induction s with
  | nil =>
      refine ⟨[], [], rfl, ?_⟩
      show [c].splitOn sep = _
      rw [List.splitOn_cons_eq_if_modifyHead, if_neg (fun h => hc (beq_iff_eq.mp h))]
      rfl
  | cons x s ih =>
      rcases ih with ⟨init, last, hinit, hlast⟩
      rw [List.cons_append, List.splitOn_cons_eq_if_modifyHead,
        List.splitOn_cons_eq_if_modifyHead, hinit, hlast]
      by_cases hx : (x == sep) = true
      · rw [if_pos hx, if_pos hx]
        exact ⟨[] :: init, last, rfl, rfl⟩
      · rw [if_neg hx, if_neg hx]
        cases init with
        | nil => exact ⟨[], x :: last, rfl, rfl⟩
        | cons field init => exact ⟨(x :: field) :: init, last, rfl, rfl⟩

theorem trimmedFields_append (c : Char) (s : List Char) (hc : isWhitespace c = true) :
    trimmedFields (s ++ [c]) = trimmedFields s := by
  have hne : c ≠ ',' := by
    rintro rfl
    revert hc
    decide
  rcases splitOn_append_singleton ',' c s hne with ⟨init, last, hinit, hlast⟩
  unfold trimmedFields
  rw [hinit, hlast, List.map_append, List.map_append, List.map_singleton, List.map_singleton,
    trimMatches_append _ _ _ hc]

/-- White space around the header is white space around its fields. -/
theorem trimmedFields_trimMatches (s : List Char) :
    trimmedFields (trimMatches isWhitespace s) = trimmedFields s := by
  rcases exists_trimMatches isWhitespace s with ⟨before, after, hs, hbefore, hafter⟩
  have hfront : ∀ (front t : List Char), (∀ c ∈ front, isWhitespace c = true) →
      trimmedFields (front ++ t) = trimmedFields t := by
    intro front t hfront
    induction front with
    | nil => rfl
    | cons c front ih =>
        rw [List.cons_append, trimmedFields_cons _ _ (hfront c List.mem_cons_self)]
        exact ih (fun c' hc' => hfront c' (List.mem_cons_of_mem _ hc'))
  have hback : ∀ (back t : List Char), (∀ c ∈ back, isWhitespace c = true) →
      trimmedFields (t ++ back) = trimmedFields t := by
    intro back t hback
    induction back generalizing t with
    | nil => rw [List.append_nil]
    | cons c back ih =>
        rw [List.append_cons, ih _ (fun c' hc' => hback c' (List.mem_cons_of_mem _ hc'))]
        exact trimmedFields_append c t (hback c List.mem_cons_self)
  have h := (hback after _ hafter).trans (hfront before (trimMatches isWhitespace s) hbefore)
  rw [← hs] at h
  exact h.symm

/-! ## The rule -/

/-- What the gateway finds in a field. -/
def read (field : List Char) : Option (IpAddr S) := forwardedIp S (trimMatches isWhitespace field)

/-- The address that a field denotes: the address that the field is, or else the one that is
    found in it, in brackets or with a port. -/
def denoted (field : List Char) : Option (IpAddr S) :=
  (parseIp S (trimMatches isWhitespace field)).or (read S field)

/-- The fields, from the right. -/
def fieldsFromRight (value : HeaderValue) : List (List Char) := (value.splitOn ',').reverse

/-- The address in the field left of the `trustedDepth` rightmost ones. -/
def leftOf (trustedDepth : Nat) (value : HeaderValue) : Option (IpAddr S) :=
  ((fieldsFromRight value)[trustedDepth]?).bind (denoted S)

/-- The rule: that address, or else the address of the peer. -/
def claimed (peer : IpAddr S) (trustedDepth : Nat) (value : HeaderValue) : IpAddr S :=
  (leftOf S trustedDepth value).getD peer

/-- The headers for which the gateway follows the rule. If the field that counts denotes an
    address, a field in which that address is found has as many fields with an address to
    its right as there are trusted proxies. If not, there are at most that many fields with
    an address in all. -/
def Counted (trustedDepth : Nat) (value : HeaderValue) : Prop :=
  match leftOf S trustedDepth value with
  | some ip => value.all isVisibleAscii = true ∧
      ∃ i field, (fieldsFromRight value)[i]? = some field ∧ read S field = some ip ∧
        ((fieldsFromRight value).take i).countP (fun field => (read S field).isSome) = trustedDepth
  | none => value.all isVisibleAscii = true →
      (fieldsFromRight value).countP (fun field => (read S field).isSome) ≤ trustedDepth

/-- What the gateway picks. -/
def picked (trustedDepth : Nat) (value : HeaderValue) : Option (IpAddr S) :=
  if value.all isVisibleAscii then ((fieldsFromRight value).filterMap (read S))[trustedDepth]?
  else none

theorem parseIpList_eq (raw : List Char) :
    parseIpList S raw = ((trimmedFields raw).filterMap (forwardedIp S)).map (displayIp S) := by
  unfold parseIpList trimmedFields normaliseForwardedForValue
  rw [List.filterMap_map, List.map_filterMap]
  rfl

theorem forwardedForChain_eq (headers : HeaderMap) (value : HeaderValue)
    (hvalue : headers "x-forwarded-for" = some value) (hnone : headers "forwarded" = none) :
    forwardedForChain S headers =
      if value.all isVisibleAscii then
        ((value.splitOn ',').filterMap (read S)).map (displayIp S)
      else [] := by
  unfold forwardedForChain headerStr toStr
  rw [hvalue, hnone, Option.bind_some]
  by_cases hvisible : value.all isVisibleAscii = true
  · have hread : ((value.splitOn ',').filterMap (read S)).map (displayIp S) =
        parseIpList S (trimMatches isWhitespace value) := by
      rw [parseIpList_eq, trimmedFields_trimMatches, trimmedFields, List.filterMap_map]
      rfl
    rw [if_pos hvisible, if_pos hvisible, hread, Option.map_some, Option.filter_some]
    cases hempty : (trimMatches isWhitespace value).isEmpty with
    | true =>
        rw [List.isEmpty_iff.mp hempty]
        rfl
    | false =>
        cases hparsed : parseIpList S (trimMatches isWhitespace value) with
        | nil =>
            rw [if_pos (by rfl)]
            dsimp only
            rw [hparsed]
            rfl
        | cons ip rest =>
            rw [if_pos (by rfl)]
            dsimp only
            rw [hparsed]
            rfl
  · rw [if_neg hvisible, if_neg hvisible]
    rfl

/-- What the gateway answers, among the addresses that it has found. -/
theorem effectiveClientIp_eq (peer : IpAddr S) (headers : HeaderMap) (trustedDepth : Nat)
    (hdepth : 0 < trustedDepth) (value : HeaderValue)
    (hvalue : headers "x-forwarded-for" = some value) (hnone : headers "forwarded" = none) :
    effectiveClientIp S peer headers trustedDepth = (picked S trustedDepth value).getD peer := by
  unfold effectiveClientIp deriveClientNetworkAttributionWithDepth
  dsimp only
  rw [Option.bind_some, parseIp_displayIp, Option.getD_some,
    forwardedForChain_eq S headers value hvalue hnone]
  unfold effectiveClientIpFromChain picked fieldsFromRight
  split
  next hvisible =>
    rw [List.filterMap_reverse, List.length_map]
    generalize (value.splitOn ',').filterMap (read S) = found
    by_cases hshort : found.length ≤ trustedDepth
    · rw [if_pos (.inr hshort), List.getElem?_eq_none (by rw [List.length_reverse]; exact hshort)]
      rfl
    · have hlt : trustedDepth < found.length := by omega
      rw [if_neg (by omega), List.getElem?_reverse hlt]
      dsimp only
      rw [List.getElem?_map]
      cases found[found.length - 1 - trustedDepth]? with
      | none => rfl
      | some ip =>
          rw [Option.map_some, Option.bind_some, parseIp_displayIp]
  next =>
    rw [if_pos (.inr (Nat.zero_le _))]
    rfl

/-- There is always an address that is not a given one. -/
theorem exists_ne (ip : IpAddr S) : ∃ ip', ip' ≠ ip := by
  by_cases h : ip = .v4 (1, 1, 1, 1)
  · refine ⟨.v4 (2, 2, 2, 2), ?_⟩
    rw [h]
    intro heq
    cases heq
  · exact ⟨.v4 (1, 1, 1, 1), fun heq => h heq.symm⟩

theorem forall_getD_eq_iff (o o' : Option (IpAddr S)) :
    (∀ peer, o.getD peer = o'.getD peer) ↔ o = o' := by
  constructor
  · intro h
    cases o with
    | none =>
        cases o' with
        | none => rfl
        | some ip =>
            rcases exists_ne S ip with ⟨peer, hpeer⟩
            exact absurd (h peer) hpeer
    | some ip =>
        cases o' with
        | none =>
            rcases exists_ne S ip with ⟨peer, hpeer⟩
            exact absurd (h peer).symm hpeer
        | some ip' => exact congrArg some (h ip)
  · intro h peer
    rw [h]

theorem picked_eq_iff (trustedDepth : Nat) (value : HeaderValue) :
    picked S trustedDepth value = leftOf S trustedDepth value ↔ Counted S trustedDepth value := by
  unfold Counted picked
  cases leftOf S trustedDepth value with
  | some ip =>
      dsimp only
      rw [← getElem?_filterMap_iff]
      split
      next hvisible => rw [and_iff_right hvisible]
      next hhidden => exact iff_of_false (fun h => by cases h) (fun h => hhidden h.1)
  | none =>
      dsimp only
      split
      next hvisible =>
        rw [List.getElem?_eq_none_iff, List.length_filterMap_eq_countP]
        exact ⟨fun h _ => h, fun h => h hvisible⟩
      next hhidden => exact iff_of_true rfl (fun h => absurd h hhidden)

/-! ## A header that a client has written in -/

/-- A header with the last fields of another, and before them the same text over and over. -/
def written (text : List Char) (count : Nat) (fromRight : List (List Char)) : HeaderValue :=
  [','].intercalate (List.replicate count text ++ fromRight.reverse)

theorem fieldsFromRight_written (text : List Char) (count : Nat) (hcount : 0 < count)
    (htext : ',' ∉ text) (fromRight : List (List Char)) (h : ∀ field ∈ fromRight, ',' ∉ field) :
    fieldsFromRight (written text count fromRight) =
      fromRight ++ List.replicate count text := by
  unfold fieldsFromRight written
  rw [List.splitOn_intercalate]
  · rw [List.reverse_append, List.reverse_reverse, List.reverse_replicate]
  · intro field hfield
    rcases List.mem_append.mp hfield with hmem | hmem
    · rw [List.eq_of_mem_replicate hmem]
      exact htext
    · exact h field (List.mem_reverse.mp hmem)
  · intro hnil
    have hlength := congrArg List.length hnil
    rw [List.length_append, List.length_replicate, List.length_nil] at hlength
    omega

/-- The headers of a request with one line of `X-Forwarded-For`, and no `Forwarded`. -/
def Sends (headers : HeaderMap) (value : HeaderValue) : Prop :=
  headers "x-forwarded-for" = some value ∧ headers "forwarded" = none

/-- The last fields that the rule looks at: those of the proxies, and that of the client. -/
def lastFields (trustedDepth : Nat) (value : HeaderValue) : List (List Char) :=
  (fieldsFromRight value).take (trustedDepth + 1)

theorem picked_eq_of_read (trustedDepth : Nat) (value : HeaderValue)
    (hvisible : value.all isVisibleAscii = true)
    (hlength : trustedDepth < (fieldsFromRight value).length)
    (hread : ∀ field ∈ lastFields trustedDepth value, (read S field).isSome = true) :
    picked S trustedDepth value =
      ((lastFields trustedDepth value).filterMap (read S))[trustedDepth]? := by
  unfold picked
  rw [if_pos hvisible]
  have hsplit := List.take_append_drop (trustedDepth + 1) (fieldsFromRight value)
  have hcount : ((lastFields trustedDepth value).filterMap (read S)).length = trustedDepth + 1 := by
    rw [List.length_filterMap_eq_countP, List.countP_eq_length.mpr hread]
    unfold lastFields
    rw [List.length_take]
    omega
  rw [← hsplit, List.filterMap_append, List.getElem?_append_left]
  · rfl
  · show trustedDepth < ((lastFields trustedDepth value).filterMap (read S)).length
    omega

/-- Where a field without an address is among the last ones, a client can write a header
    for which the gateway picks an address of his choice. -/
theorem picked_written (trustedDepth : Nat) (text : List Char) (ip : IpAddr S)
    (htext : ',' ∉ text) (hvisible : text.all isVisibleAscii = true) (hread : read S text = some ip)
    (value : HeaderValue) (hvalue : value.all isVisibleAscii = true)
    (hunread : ∃ field ∈ lastFields trustedDepth value, (read S field).isSome = false) :
    (written text (trustedDepth + 1) (lastFields trustedDepth value)).all isVisibleAscii = true ∧
      fieldsFromRight (written text (trustedDepth + 1) (lastFields trustedDepth value)) =
        lastFields trustedDepth value ++ List.replicate (trustedDepth + 1) text ∧
      picked S trustedDepth (written text (trustedDepth + 1) (lastFields trustedDepth value)) =
        some ip := by
  have hfield : ∀ field ∈ lastFields trustedDepth value,
      ',' ∉ field ∧ field.all isVisibleAscii = true := by
    intro field hmem
    have hpiece := Text.mem_splitOn ',' value field
      (List.mem_reverse.mp (List.mem_of_mem_take hmem))
    exact ⟨hpiece.1,
      List.all_eq_true.mpr (fun c hc => List.all_eq_true.mp hvalue c (hpiece.2 c hc))⟩
  have hall : (written text (trustedDepth + 1) (lastFields trustedDepth value)).all
      isVisibleAscii = true := by
    refine List.all_eq_true.mpr (fun c hc => ?_)
    rcases Text.mem_intercalate ',' c _ hc with rfl | ⟨field, hmem, hc⟩
    · decide
    · rcases List.mem_append.mp hmem with hmem | hmem
      · rw [List.eq_of_mem_replicate hmem] at hc
        exact List.all_eq_true.mp hvisible c hc
      · exact List.all_eq_true.mp (hfield field (List.mem_reverse.mp hmem)).2 c hc
  have hfields := fieldsFromRight_written text (trustedDepth + 1) (Nat.succ_pos _) htext
    (lastFields trustedDepth value) (fun field hmem => (hfield field hmem).1)
  refine ⟨hall, hfields, ?_⟩
  -- At most `trustedDepth` of the last fields have an address, so the next are his.
  have hshort : ((lastFields trustedDepth value).filterMap (read S)).length ≤ trustedDepth := by
    rcases hunread with ⟨field, hmem, hnone⟩
    have hle := List.countP_le_length (p := fun field => (read S field).isSome)
      (l := lastFields trustedDepth value)
    have hne : (lastFields trustedDepth value).countP (fun field => (read S field).isSome) ≠
        (lastFields trustedDepth value).length := by
      intro heq
      have hsome := List.countP_eq_length.mp heq field hmem
      rw [hnone] at hsome
      cases hsome
    have htake : (lastFields trustedDepth value).length ≤ trustedDepth + 1 :=
      List.length_take_le _ _
    rw [List.length_filterMap_eq_countP]
    omega
  unfold picked
  rw [if_pos hall, hfields, List.filterMap_append, List.getElem?_append_right hshort,
    List.filterMap_replicate_of_some hread, List.getElem?_replicate, if_pos (by omega)]

/-! ## When the gateway follows the rule -/

theorem read_ones : read S ("1.1.1.1").toList = some (.v4 (1, 1, 1, 1)) := rfl

theorem read_twos : read S ("2.2.2.2").toList = some (.v4 (2, 2, 2, 2)) := rfl

/-- For a header the gateway follows the rule, whoever the peer is, exactly if the header is
    counted rightly. And what the client has written does not change the address exactly
    if each of the last fields has an address. -/
theorem effectiveClientIp_iff (trustedDepth : Nat) (hdepth : 0 < trustedDepth)
    (headers : HeaderMap) (value : HeaderValue) (hsends : Sends headers value) :
    ((∀ peer, effectiveClientIp S peer headers trustedDepth = claimed S peer trustedDepth value) ↔
      Counted S trustedDepth value) ∧
    (value.all isVisibleAscii = true → trustedDepth < (fieldsFromRight value).length →
      ((∀ headers' value' peer, Sends headers' value' → value'.all isVisibleAscii = true →
          lastFields trustedDepth value' = lastFields trustedDepth value →
          effectiveClientIp S peer headers' trustedDepth =
            effectiveClientIp S peer headers trustedDepth) ↔
        ∀ field ∈ lastFields trustedDepth value, (read S field).isSome = true)) := by
  have heffective : ∀ peer, effectiveClientIp S peer headers trustedDepth =
      (picked S trustedDepth value).getD peer :=
    fun peer => effectiveClientIp_eq S peer headers trustedDepth hdepth value hsends.1 hsends.2
  refine ⟨?_, fun hvisible hlength => ⟨fun hsame => ?_, fun hread headers' value' peer hsends'
    hvisible' hlast => ?_⟩⟩
  · unfold claimed
    simp only [heffective]
    rw [forall_getD_eq_iff, picked_eq_iff]
  · by_contra hnot
    have hunread : ∃ field ∈ lastFields trustedDepth value, (read S field).isSome = false := by
      simp only [not_forall, Bool.not_eq_true] at hnot
      rcases hnot with ⟨field, hmem, hnone⟩
      exact ⟨field, hmem, hnone⟩
    -- Whatever address the client puts in front, it becomes the address of the client.
    have hchosen : ∀ (text : List Char) (ip : IpAddr S), ',' ∉ text →
        text.all isVisibleAscii = true → read S text = some ip →
        ∀ peer, effectiveClientIp S peer headers trustedDepth = ip := by
      intro text ip htext htextVisible htextRead peer
      have hwritten := picked_written S trustedDepth text ip htext htextVisible htextRead value
        hvisible hunread
      have hlast : lastFields trustedDepth
          (written text (trustedDepth + 1) (lastFields trustedDepth value)) =
          lastFields trustedDepth value := by
        have hcount : (lastFields trustedDepth value).length = trustedDepth + 1 := by
          unfold lastFields
          rw [List.length_take]
          omega
        unfold lastFields at hwritten hcount ⊢
        rw [hwritten.2.1, List.take_append_of_le_length (by omega),
          List.take_of_length_le (by omega)]
      have hsends' : Sends (fun name => if name = "x-forwarded-for" then
          some (written text (trustedDepth + 1) (lastFields trustedDepth value)) else none)
          (written text (trustedDepth + 1) (lastFields trustedDepth value)) := ⟨rfl, rfl⟩
      rw [← hsame _ _ peer hsends' hwritten.1 hlast,
        effectiveClientIp_eq S peer _ trustedDepth hdepth _ hsends'.1 hsends'.2, hwritten.2.2]
      rfl
    have hone := hchosen ("1.1.1.1").toList _ (by decide) (by decide) (read_ones S)
    have htwo := hchosen ("2.2.2.2").toList _ (by decide) (by decide) (read_twos S)
    have heq := (hone (.v4 (1, 1, 1, 1))).symm.trans (htwo (.v4 (1, 1, 1, 1)))
    cases heq
  · have hlength' : trustedDepth < (fieldsFromRight value').length := by
      have hcount := congrArg List.length hlast
      unfold lastFields at hcount
      rw [List.length_take, List.length_take] at hcount
      omega
    rw [heffective,
      effectiveClientIp_eq S peer headers' trustedDepth hdepth value' hsends'.1 hsends'.2,
      picked_eq_of_read S trustedDepth value hvisible hlength hread,
      picked_eq_of_read S trustedDepth value' hvisible' hlength' (hlast ▸ hread), hlast]

/-- The texts of the sixth version, where the only address is the unspecified one. -/
def unspecifiedOnly : Ipv6Syntax where
  Ipv6Addr := Unit
  parse text := if text = [':', ':'] then some () else none
  display _ := [':', ':']
  parse_display _ := rfl
  parseIpv4_display _ := rfl

def forwardedFor (value : String) : HeaderMap := fun name =>
  if name = "x-forwarded-for" then some value.toList else none

theorem effectiveClientIp_iff_proxied :
    Counted unspecifiedOnly 1 ("6.6.6.6, 203.0.113.9, 10.0.0.20").toList := by
  have hiff := (effectiveClientIp_iff unspecifiedOnly 1 Nat.one_pos
    (forwardedFor "6.6.6.6, 203.0.113.9, 10.0.0.20") _ ⟨rfl, rfl⟩).1
  exact hiff.mp (fun _ => rfl)

/-- The field of the proxy has no address, and the address of the client is the one that
    he has written in front of his own. -/
theorem unknown_skipped :
    effectiveClientIp unspecifiedOnly (.v4 (10, 0, 0, 10))
        (forwardedFor "6.6.6.6, 198.51.100.7, unknown") 1 = .v4 (6, 6, 6, 6) ∧
      claimed unspecifiedOnly (.v4 (10, 0, 0, 10)) 1
        ("6.6.6.6, 198.51.100.7, unknown").toList = .v4 (198, 51, 100, 7) ∧
      effectiveClientIp unspecifiedOnly (.v4 (10, 0, 0, 10))
        (forwardedFor "7.7.7.7, 198.51.100.7, unknown") 1 = .v4 (7, 7, 7, 7) := by
  exact ⟨rfl, rfl, rfl⟩

end ClientAddress

end Gateway

end DccMcp
