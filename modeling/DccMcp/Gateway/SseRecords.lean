import DccMcp.Host.Rpc
import DccMcp.Lib.Text

/-!
# Records of an Event Stream

The gateway reads the event streams of its backends chunk by chunk. A chunk is
put behind what is left of the chunks before, and as long as there is a record
end in the buffer the record before it is taken out and parsed.

There are two record ends, and the longer one may be cut anywhere. A record end
that is found is found there as well if more bytes follow, since the longer one
has no place before the shorter one that the shorter one would not take. So
taking records out of a buffer can be put off, and the chunks do not matter.

An event that is formatted is read back if its id is a single line.

## Main definitions

* `findRecordEnd`, `recordDelimLen`, `parseSseRecord`: The helpers.
* `drain`, `pump`: The inner and the outer loop.
* `formatSseEvent`: An event.

## Theorems

* `pump_spec`: The splitter, for every stream.
-/

namespace DccMcp

namespace Gateway

namespace Sse

open Json (Value)

open Bytes (stripPrefix stripPrefix_eq_some)

open Host.Rpc (JsonText)

/-! ## The loop -/

def lf2 : Bytes := [10, 10]

def crlf2 : Bytes := [13, 10, 13, 10]

/-- A record end begins here. -/
def AtEnd (buf : Bytes) : Prop := lf2 <+: buf ∨ crlf2 <+: buf

instance (buf : Bytes) : Decidable (AtEnd buf) :=
  inferInstanceAs (Decidable (_ ∨ _))

def findRecordEnd : Bytes → Option Nat
  | [] => none
  | b :: rest => if AtEnd (b :: rest) then some 0 else (findRecordEnd rest).map (· + 1)

def recordDelimLen (buf : Bytes) : Nat :=
  if crlf2 <+: buf then 4 else if lf2 <+: buf then 2 else 1

def fromUtf8 (bytes : Bytes) : Option String := String.fromUTF8? bytes.toByteArray

/-- `str::trim_end_matches` with a carriage return. -/
def trimCr (line : List Char) : List Char := (line.reverse.dropWhile (· == '\r')).reverse

/-- What a line has behind its field name. -/
def dataOf (line : List Char) : Option (List Char) :=
  (stripPrefix "data:".toList (trimCr line)).map (fun rest => (stripPrefix [' '] rest).getD rest)

def parseSseRecord (json : JsonText) (record : Bytes) : Option Value :=
  (fromUtf8 record).bind (fun text =>
    let dataLines := (text.toList.splitOn '\n').filterMap dataOf
    if dataLines = [] then none else json.read (['\n'].intercalate dataLines))

theorem findRecordEnd_spec (buf : Bytes) (pos : Nat) (h : findRecordEnd buf = some pos) :
    pos < buf.length ∧ AtEnd (buf.drop pos) := by
  induction buf generalizing pos with
  | nil => cases h
  | cons b rest ih =>
      unfold findRecordEnd at h
      by_cases hat : AtEnd (b :: rest)
      · rw [if_pos hat, Option.some.injEq] at h
        rw [← h]
        exact ⟨Nat.succ_pos _, hat⟩
      · rw [if_neg hat] at h
        rcases Option.map_eq_some_iff.mp h with ⟨j, hj, rfl⟩
        rcases ih j hj with ⟨hlt, hend⟩
        exact ⟨Nat.succ_lt_succ hlt, hend⟩

theorem recordDelimLen_pos (buf : Bytes) : 0 < recordDelimLen buf := by
  unfold recordDelimLen
  split
  · omega
  · split <;> omega

/-- Every record makes the buffer shorter. -/
theorem length_behind (scratch : Bytes) (pos : Nat) (h : findRecordEnd scratch = some pos) :
    ((scratch.drop pos).drop (recordDelimLen (scratch.drop pos))).length < scratch.length := by
  have hlt := (findRecordEnd_spec scratch pos h).1
  have hpos := recordDelimLen_pos (scratch.drop pos)
  rw [List.length_drop, List.length_drop]
  omega

/-- The inner loop: the records, and what is left in the buffer. -/
def drain (scratch : Bytes) : List Bytes × Bytes :=
  match _hpos : findRecordEnd scratch with
  | none => ([], scratch)
  | some pos =>
    let behind := scratch.drop pos
    let done := drain (behind.drop (recordDelimLen behind))
    (scratch.take pos :: done.1, done.2)
termination_by scratch.length
decreasing_by exact length_behind scratch pos _hpos

/-- `pump_stream`: The values of the records, chunk by chunk. -/
def pump (json : JsonText) : List Bytes → Bytes → List Value
  | [], _ => []
  | bytes :: rest, scratch =>
    let done := drain (scratch ++ bytes)
    done.1.filterMap (parseSseRecord json) ++ pump json rest done.2

/-! ## Chunks -/

theorem drain_none (scratch : Bytes) (h : findRecordEnd scratch = none) :
    drain scratch = ([], scratch) := by
  unfold drain
  split
  · rfl
  · next hsome => rw [h] at hsome; cases hsome

theorem drain_some (scratch : Bytes) (pos : Nat) (h : findRecordEnd scratch = some pos) :
    drain scratch = (scratch.take pos ::
        (drain ((scratch.drop pos).drop (recordDelimLen (scratch.drop pos)))).1,
      (drain ((scratch.drop pos).drop (recordDelimLen (scratch.drop pos)))).2) := by
  rw [drain]
  split
  · next hnone => rw [h] at hnone; cases hnone
  · next other hother =>
      rw [h, Option.some.injEq] at hother
      rw [hother]

/-- A record end stays where it is if more bytes follow. -/
theorem findRecordEnd_append (buf more : Bytes) (pos : Nat) (h : findRecordEnd buf = some pos) :
    findRecordEnd (buf ++ more) = some pos := by
  induction buf generalizing pos with
  | nil => cases h
  | cons b rest ih =>
      rw [List.cons_append]
      unfold findRecordEnd at h ⊢
      by_cases hat : AtEnd (b :: rest)
      · -- What ends here still does with more bytes behind it.
        rw [if_pos hat] at h
        have hmore : AtEnd (b :: (rest ++ more)) :=
          hat.imp (·.trans (List.prefix_append _ _)) (·.trans (List.prefix_append _ _))
        rw [if_pos hmore]
        exact h
      · rw [if_neg hat] at h
        rcases Option.map_eq_some_iff.mp h with ⟨j, hj, rfl⟩
        rw [if_neg, ih j hj]
        · rfl
        -- A longer record end that begins here would leave none behind it in the buffer.
        · rintro (⟨t, ht⟩ | ⟨t, ht⟩)
          · rcases rest with _ | ⟨c, rest⟩
            · cases hj
            · simp only [lf2, List.cons_append, List.cons.injEq] at ht
              exact hat (Or.inl ⟨rest, by rw [← ht.1, ← ht.2.1]; rfl⟩)
          · -- A record end of four bytes that is cut: there is none in the part that is here.
            rcases rest with _ | ⟨c, _ | ⟨d, _ | ⟨e, rest⟩⟩⟩
            · cases hj
            all_goals simp only [crlf2, List.cons_append, List.nil_append, List.cons.injEq] at ht
            · rw [← ht.2.1] at hj
              cases hj
            · rw [← ht.2.1, ← ht.2.2.1] at hj
              cases hj
            · exact hat (Or.inr ⟨rest, by rw [← ht.1, ← ht.2.1, ← ht.2.2.1, ← ht.2.2.2.1]; rfl⟩)

theorem recordDelimLen_append (buf more : Bytes) (h : AtEnd buf) :
    recordDelimLen (buf ++ more) = recordDelimLen buf ∧ recordDelimLen buf ≤ buf.length := by
  unfold recordDelimLen
  by_cases hcrlf : crlf2 <+: buf
  · rw [if_pos (hcrlf.trans (List.prefix_append _ _)), if_pos hcrlf]
    exact ⟨rfl, hcrlf.length_le⟩
  · -- The shorter end begins with another byte, so more bytes do not make it the longer one.
    have hlf := h.resolve_right hcrlf
    rw [if_neg hcrlf, if_pos hlf, if_neg, if_pos (hlf.trans (List.prefix_append _ _))]
    · exact ⟨rfl, hlf.length_le⟩
    · rintro ⟨t, ht⟩
      rcases hlf with ⟨u, rfl⟩
      simp [lf2, crlf2] at ht

/-- Taking records out of a buffer can be put off. -/
theorem drain_append (buf more : Bytes) : drain (buf ++ more) =
    ((drain buf).1 ++ (drain ((drain buf).2 ++ more)).1, (drain ((drain buf).2 ++ more)).2) := by
  induction buf using drain.induct with
  | case1 buf h => rw [drain_none buf h, List.nil_append]
  | case2 buf pos h behind ih =>
      rcases findRecordEnd_spec buf pos h with ⟨hlt, hend⟩
      rcases recordDelimLen_append (buf.drop pos) more hend with ⟨hsame, hle⟩
      rw [drain_some _ pos (findRecordEnd_append buf more pos h), drain_some buf pos h,
        List.drop_append_of_le_length hlt.le, hsame, List.drop_append_of_le_length hle,
        List.take_append_of_le_length hlt.le, ih]
      rfl

theorem drain_rest (buf : Bytes) : findRecordEnd (drain buf).2 = none := by
  induction buf using drain.induct with
  | case1 buf h =>
      rw [drain_none buf h]
      exact h
  | case2 buf pos h behind ih =>
      rw [drain_some buf pos h]
      exact ih

variable (text : List Char) (json : JsonText)

/-- The chunks do not matter. -/
theorem pump_flatten (chunks : List Bytes) (scratch : Bytes) (h : findRecordEnd scratch = none) :
    pump json chunks scratch =
      (drain (scratch ++ chunks.flatten)).1.filterMap (parseSseRecord json) := by
  -- Between two chunks there is no record end in the buffer.
  induction chunks generalizing scratch with
  | nil =>
      rw [List.flatten_nil, List.append_nil, drain_none scratch h]
      rfl
  | cons bytes rest ih =>
      rw [pump, ih _ (drain_rest _), List.flatten_cons, ← List.append_assoc,
        drain_append (scratch ++ bytes), List.filterMap_append]

/-! ## Events -/

def formatSseEvent (json : JsonText) (data : Value) (eventId : Option String) : String :=
  match eventId with
  | some id => .ofList ("id: ".toList ++ id.toList ++ "\ndata: ".toList ++ json.write data ++
      "\n\n".toList)
  | none => .ofList ("data: ".toList ++ json.write data ++ "\n\n".toList)

/-- The bytes of characters. -/
def encodeChars (text : List Char) : Bytes := text.flatMap String.utf8EncodeChar

theorem encodeChars_append (a b : List Char) :
    encodeChars (a ++ b) = encodeChars a ++ encodeChars b := List.flatMap_append

theorem fromUtf8_encodeChars : fromUtf8 (encodeChars text) = some (.ofList text) := by
  have hbytes : (encodeChars text).toByteArray = (String.ofList text).toByteArray := by
    rw [← String.utf8Encode_toList, String.toList_ofList]
    rfl
  unfold fromUtf8 String.fromUTF8?
  rw [dif_pos (hbytes ▸ (String.ofList text).isValidUTF8)]
  exact congrArg some (String.toByteArray_inj.mp hbytes)

theorem lf_ne_ofNat (n : Nat) (h : n % 256 ≠ 10) : (10 : UInt8) ≠ UInt8.ofNat n := by
  intro heq
  have hval : 10 = n % 256 := (congrArg UInt8.toNat heq).trans UInt8.toNat_ofNat
  omega

/-- Only a line feed has the byte of a line feed. -/
theorem lf_mem_encodeChars (h : (10 : UInt8) ∈ encodeChars text) : '\n' ∈ text := by
  rcases List.mem_flatMap.mp h with ⟨c, hc, hmem⟩
  simp only [String.utf8EncodeChar] at hmem
  split at hmem
  · simp only [List.mem_singleton] at hmem
    have hval : 10 = c.val.toNat % 256 := (congrArg UInt8.toNat hmem).trans UInt8.toNat_ofNat
    have heq : c = '\n' := Char.ext (UInt32.toNat_inj.mp (by
      rw [show ('\n' : Char).val.toNat = 10 from rfl]
      omega))
    exact heq ▸ hc
  · -- The bytes of a longer character all have the top bit.
    exfalso
    split at hmem
    · simp only [List.mem_cons, List.not_mem_nil, or_false] at hmem
      rcases hmem with hmem | hmem
      all_goals exact lf_ne_ofNat _ (by omega) hmem
    · split at hmem
      · simp only [List.mem_cons, List.not_mem_nil, or_false] at hmem
        rcases hmem with hmem | hmem | hmem
        all_goals exact lf_ne_ofNat _ (by omega) hmem
      · simp only [List.mem_cons, List.not_mem_nil, or_false] at hmem
        rcases hmem with hmem | hmem | hmem | hmem
        all_goals exact lf_ne_ofNat _ (by omega) hmem

theorem not_atEnd (b : UInt8) (rest : Bytes) (hlf : b ≠ 10)
    (hcr : rest.head? = some 10 → rest.tail.head? ≠ some 13) : ¬AtEnd (b :: rest) := by
  rintro (⟨t, ht⟩ | ⟨t, ht⟩)
  · exact hlf (List.cons.inj ht).1.symm
  · rw [← (List.cons.inj ht).2] at hcr
    exact hcr rfl rfl

/-- The record end behind a line. -/
theorem findRecordEnd_line (line rest : Bytes) (h : (10 : UInt8) ∉ line) :
    findRecordEnd (line ++ 10 :: 10 :: rest) = some line.length := by
  induction line with
  | nil => rfl
  | cons b line ih =>
      rw [List.mem_cons, not_or] at h
      rw [List.cons_append, findRecordEnd, ih h.2, if_neg]
      · rfl
      · refine not_atEnd b _ (Ne.symm h.1) (fun hhead => ?_)
        rcases line with _ | ⟨c, line⟩
        · simp
        · rw [List.cons_append, List.head?_cons, Option.some.injEq] at hhead
          exact absurd (hhead ▸ List.mem_cons_self) h.2

/-- The record end behind two lines, the second of which is not empty. -/
theorem findRecordEnd_lines (first line rest : Bytes) (d : UInt8) (hfirst : (10 : UInt8) ∉ first)
    (h : (10 : UInt8) ∉ d :: line) (hd : d ≠ 13) :
    findRecordEnd (first ++ 10 :: (d :: line) ++ 10 :: 10 :: rest) =
      some (first ++ 10 :: (d :: line)).length := by
  rw [List.append_assoc, List.length_append]
  induction first with
  | nil =>
      rw [List.nil_append, List.cons_append, findRecordEnd, findRecordEnd_line _ rest h, if_neg]
      · simp
      · rintro (⟨t, ht⟩ | ⟨t, ht⟩)
        · simp only [lf2, List.cons_append, List.cons.injEq] at ht
          exact h (ht.2.1 ▸ List.mem_cons_self)
        · simp [crlf2] at ht
  | cons b first ih =>
      rw [List.mem_cons, not_or] at hfirst
      rw [List.cons_append, findRecordEnd, ih hfirst.2, if_neg]
      · rw [Option.map_some, List.length_cons]
        exact congrArg some (by simp only [List.length_cons]; omega)
      · refine not_atEnd b _ (Ne.symm hfirst.1) (fun hhead => ?_)
        rcases first with _ | ⟨c, first⟩
        · simpa using hd
        · rw [List.cons_append, List.head?_cons, Option.some.injEq] at hhead
          exact absurd (hhead ▸ List.mem_cons_self) hfirst.2

theorem drain_record (record rest : Bytes)
    (h : findRecordEnd (record ++ 10 :: 10 :: rest) = some record.length) :
    drain (record ++ 10 :: 10 :: rest) = (record :: (drain rest).1, (drain rest).2) := by
  have hdelim : recordDelimLen (10 :: 10 :: rest) = 2 := by
    rw [recordDelimLen, if_neg (by simp [crlf2]), if_pos ⟨rest, rfl⟩]
  rw [drain_some _ _ h, List.drop_left, List.take_left, hdelim]
  rfl

theorem trimCr_append (front back : List Char) (c : Char) (hc : c ≠ '\r')
    (h : '\r' ∉ back) : trimCr (front ++ c :: back) = front ++ c :: back := by
  have hlast : ∀ d rest, (front ++ c :: back).reverse = d :: rest → d ≠ '\r' := by
    intro d rest hreverse
    rw [List.reverse_append, List.reverse_cons] at hreverse
    cases hback : back.reverse with
    | nil =>
        rw [hback] at hreverse
        exact (List.cons.inj hreverse).1 ▸ hc
    | cons e es =>
        rw [hback] at hreverse
        have hmem : d ∈ back := List.mem_reverse.mp (by
          rw [hback, ← (List.cons.inj hreverse).1]
          exact List.mem_cons_self)
        exact fun heq => h (heq ▸ hmem)
  unfold trimCr
  cases hreverse : (front ++ c :: back).reverse with
  | nil => rw [List.dropWhile_nil, ← hreverse, List.reverse_reverse]
  | cons d rest =>
      rw [List.dropWhile_cons_of_neg (by simp [hlast d rest hreverse]), ← hreverse,
        List.reverse_reverse]

theorem dataOf_data (h : '\r' ∉ text) : dataOf ("data: ".toList ++ text) = some text := by
  have htrim := trimCr_append "data:".toList text ' ' (by decide) h
  unfold dataOf
  rw [show "data: ".toList ++ text = "data:".toList ++ ' ' :: text from rfl, htrim,
    (stripPrefix_eq_some _ _ (' ' :: text)).mpr rfl]
  rfl

/-- A line with another field has no data. -/
theorem dataOf_id : dataOf ("id: ".toList ++ text) = none := by
  have hfirst : ∀ rest, trimCr ("id: ".toList ++ text) ≠ "data:".toList ++ rest := by
    intro rest heq
    have hfront : trimCr ("id: ".toList ++ text) <+: "id: ".toList ++ text :=
      List.reverse_suffix.mp (by
        rw [trimCr, List.reverse_reverse]
        exact List.dropWhile_suffix _)
    rw [heq] at hfront
    rcases hfront with ⟨t, ht⟩
    exact absurd (List.cons.inj ht).1 (by decide)
  unfold dataOf
  cases hstrip : stripPrefix "data:".toList (trimCr ("id: ".toList ++ text)) with
  | none => rfl
  | some rest => exact absurd ((stripPrefix_eq_some _ _ _).mp hstrip) (hfirst rest)

/-- The record of an event. -/
def recordOf (json : JsonText) : Option String × Value → List Char
  | (some id, data) => "id: ".toList ++ id.toList ++ '\n' :: ("data: ".toList ++ json.write data)
  | (none, data) => "data: ".toList ++ json.write data

theorem utf8_formatSseEvent (event : Option String × Value) :
    Text.utf8 (formatSseEvent json event.2 event.1) = encodeChars (recordOf json event) ++ lf2 := by
  have hend : "\n\n".toList = ['\n', '\n'] := by decide
  have htext : formatSseEvent json event.2 event.1 =
      .ofList (recordOf json event ++ ['\n', '\n']) := by
    unfold formatSseEvent recordOf
    rcases event with ⟨_ | id, data⟩
    · dsimp only
      rw [hend]
    · have hdata : "\ndata: ".toList = '\n' :: "data: ".toList := by decide
      dsimp only
      rw [hend, hdata, List.append_assoc _ _ (json.write data), List.cons_append]
  rw [htext, Text.utf8, String.toList_ofList]
  exact encodeChars_append _ _

/-- An event whose id is one line, and whose value is written on one line and
    read back. -/
structure Readable (json : JsonText) (event : Option String × Value) : Prop where
  id : ∀ id, event.1 = some id → '\n' ∉ id.toList
  line : '\n' ∉ json.write event.2 ∧ '\r' ∉ json.write event.2
  read : json.read (json.write event.2) = some event.2

theorem drain_event (event : Option String × Value) (h : Readable json event) (rest : Bytes) :
    drain (Text.utf8 (formatSseEvent json event.2 event.1) ++ rest) =
      (encodeChars (recordOf json event) :: (drain rest).1, (drain rest).2) := by
  rw [utf8_formatSseEvent, List.append_assoc]
  refine drain_record _ rest ?_
  have hdata : (10 : UInt8) ∉ encodeChars ("data: ".toList ++ json.write event.2) := fun hmem =>
    (List.mem_append.mp (lf_mem_encodeChars _ hmem)).elim (by decide) h.line.1
  rcases event with ⟨_ | id, data⟩
  · exact findRecordEnd_line _ rest hdata
  · have hfirst : (10 : UInt8) ∉ encodeChars ("id: ".toList ++ id.toList) := fun hmem =>
      (List.mem_append.mp (lf_mem_encodeChars _ hmem)).elim (by decide) (h.id id rfl)
    rw [recordOf, encodeChars_append]
    exact findRecordEnd_lines _ _ rest 100 hfirst hdata (by decide)

theorem parseSseRecord_event (event : Option String × Value) (h : Readable json event) :
    parseSseRecord json (encodeChars (recordOf json event)) = some event.2 := by
  have hdata : '\n' ∉ "data: ".toList ++ json.write event.2 := fun hmem =>
    (List.mem_append.mp hmem).elim (by decide) h.line.1
  have hlines : ((recordOf json event).splitOn '\n').filterMap dataOf = [json.write event.2] := by
    rcases event with ⟨_ | id, data⟩
    · rw [recordOf, List.splitOn_eq_singleton hdata, List.filterMap_cons_some
        (dataOf_data _ h.line.2)]
      rfl
    · have hfirst : '\n' ∉ "id: ".toList ++ id.toList := fun hmem =>
        (List.mem_append.mp hmem).elim (by decide) (h.id id rfl)
      rw [recordOf, List.splitOn_append_cons_self_of_not_mem hfirst,
        List.splitOn_eq_singleton hdata, List.filterMap_cons_none (dataOf_id _),
        List.filterMap_cons_some (dataOf_data _ h.line.2)]
      rfl
  unfold parseSseRecord
  rw [fromUtf8_encodeChars, Option.bind_some]
  dsimp only
  rw [String.toList_ofList, hlines, if_neg (List.cons_ne_nil _ _), List.intercalate_singleton]
  exact h.read

theorem drain_events (events : List (Option String × Value))
    (h : ∀ event ∈ events, Readable json event) :
    (drain (events.flatMap (fun event =>
      Text.utf8 (formatSseEvent json event.2 event.1)))).1.filterMap (parseSseRecord json) =
      events.map Prod.snd := by
  induction events with
  | nil =>
      rw [List.flatMap_nil, drain_none [] rfl]
      rfl
  | cons event events ih =>
      rw [List.forall_mem_cons] at h
      rw [List.flatMap_cons, drain_event json event h.1, List.filterMap_cons_some
        (parseSseRecord_event json event h.1), ih h.2]
      rfl

/-- For every stream and every way to cut it into chunks, the values are those
    of the stream as one chunk; every record that is found makes the buffer
    shorter; and of a stream of events whose ids are single lines the values are
    those of the events, in order. -/
theorem pump_spec (json : JsonText) (chunks : List Bytes) :
    pump json chunks [] = pump json [chunks.flatten] [] ∧
    (∀ scratch pos, findRecordEnd scratch = some pos →
      ((scratch.drop pos).drop (recordDelimLen (scratch.drop pos))).length < scratch.length) ∧
    ∀ events : List (Option String × Value), (∀ event ∈ events, Readable json event) →
      chunks.flatten = events.flatMap (fun event =>
        Text.utf8 (formatSseEvent json event.2 event.1)) →
      pump json chunks [] = events.map Prod.snd := by
  refine ⟨?_, length_behind, fun events hevents hstream => ?_⟩
  · rw [pump_flatten json chunks [] rfl, pump_flatten json [chunks.flatten] [] rfl,
      List.flatten_cons, List.flatten_nil, List.append_nil]
  · rw [pump_flatten json chunks [] rfl, List.nil_append, hstream]
    exact drain_events json events hevents

/-- A library that knows one value. -/
def nullJson : JsonText :=
  ⟨fun _ => "null".toList, fun text => if text = "null".toList then some .null else none⟩

theorem pump_spec_two : ∀ chunks : List Bytes,
    chunks.flatten = Text.utf8 (formatSseEvent nullJson .null (some "1")) ++
      Text.utf8 (formatSseEvent nullJson .null none) → pump nullJson chunks [] = [.null, .null] :=
  fun chunks hstream => (pump_spec nullJson chunks).2.2 [(some "1", .null), (none, .null)]
    (by
      intro event hevent
      rcases List.mem_cons.mp hevent with rfl | hevent
      · exact ⟨fun id hid => by cases hid; decide, by decide, by decide⟩
      · rw [List.mem_singleton.mp hevent]
        exact ⟨fun id hid => (nomatch hid), by decide, by decide⟩)
    (by rw [hstream, List.flatMap_cons, List.flatMap_cons, List.flatMap_nil, List.append_nil])

/-- The second line of an id may be taken for data. -/
theorem id_of_two_lines :
    nullJson.read (nullJson.write .null) = some .null ∧
    pump nullJson [Text.utf8 (formatSseEvent nullJson .null (some "1\ndata: 2"))] [] = [] := by
  refine ⟨by decide, ?_⟩
  rw [pump_flatten _ _ [] rfl, utf8_formatSseEvent nullJson (some "1\ndata: 2", .null)]
  have hend : findRecordEnd (encodeChars (recordOf nullJson (some "1\ndata: 2", .null)) ++
      10 :: 10 :: []) =
      some (encodeChars (recordOf nullJson (some "1\ndata: 2", .null))).length := by decide
  rw [List.nil_append, List.flatten_cons, List.flatten_nil, List.append_nil, lf2,
    drain_record _ [] hend, drain_none [] rfl, List.filterMap_cons_none]
  · rfl
  · unfold parseSseRecord
    rw [fromUtf8_encodeChars]
    decide

end Sse

end Gateway

end DccMcp
