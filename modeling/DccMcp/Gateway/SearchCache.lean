import DccMcp.Gateway.Search

/-!
# The Search Cache

Pages that the gateway has already computed, under keys made of the requests.

A key is one text: the fields of a request that are there, each behind its name, with
bars between them, and the values of a filter in order, with commas between them. Bars
and commas in the fields themselves are not escaped. So two requests can have one key,
and the page of the one is then the answer to the other.

## Main definitions

* `parts`, `key`: The fields of a request, and its key.
* `Unambiguous`: A request without bars and commas.
* `SearchCache`, `getWithIndexGen`, `put`: The cache.
* `Op`, `step`: A request that is served, and the end of all entries.

## Theorems

* `cached_page_exact`: What is served is what would be found.
* `key_collision`: Two requests with one key and different pages.
-/

namespace DccMcp

namespace Gateway

namespace SearchCache

open Search

/-! ## Keys -/

def decimal (n : UInt32) : List Char := Nat.toDigits 10 n.toNat

/-- The values of a filter, in order. -/
def joined (values : List String) : Option (List Char) :=
  if values.isEmpty then none
  else some ([','].intercalate ((values.insertionSort (· ≤ ·)).map String.toList))

def boolText (b : Bool) : List Char := if b then "true".toList else "false".toList

def modeText : SearchMode → List Char
  | .fuzzy => "Fuzzy".toList
  | .exact => "Exact".toList
  | .hybrid => "Hybrid".toList

/-- The fields of a request, each under its name in the key. -/
def parts (q : SearchQuery) : List (String × Option (List Char)) :=
  [("q", some q.query.toList),
    ("dts", joined q.dccTypes),
    ("dt", q.dccType.map String.toList),
    ("iid", q.instanceId.map HyphenatedUuid.text),
    ("o", q.offset.map decimal),
    ("l", q.limit.map decimal),
    ("lo", q.loadedOnly.map boolText),
    ("t", joined q.tags),
    ("ta", joined q.tagsAny),
    ("et", joined q.excludeTags),
    ("sh", q.sceneHint.map String.toList),
    ("ms", q.minScore.map decimal),
    ("sk", q.skillHint.map String.toList),
    ("oq", joined q.orQueries),
    ("m", some (modeText q.mode))]

/-- The fields that are there. -/
def present (fields : List (String × Option (List Char))) : List (String × List Char) :=
  fields.filterMap (fun field => field.2.map (fun text => (field.1, text)))

def render (field : String × List Char) : List Char := field.1.toList ++ '=' :: field.2

/-- `SearchCacheKey::from_query`. -/
def key (q : SearchQuery) : List Char := ['|'].intercalate ((present (parts q)).map render)

/-! ## Requests without bars and commas -/

/-- The texts that a client writes. -/
def texts (q : SearchQuery) : List String :=
  [q.query] ++ q.dccType.toList ++ q.sceneHint.toList ++ q.skillHint.toList ++
    q.dccTypes ++ q.tags ++ q.tagsAny ++ q.excludeTags ++ q.orQueries

/-- There is no bar in a text, and no comma in one of several values. -/
structure Unambiguous (q : SearchQuery) : Prop where
  bar : ∀ text ∈ texts q, '|' ∉ text.toList
  comma : ∀ text ∈ q.dccTypes ++ q.tags ++ q.tagsAny ++ q.excludeTags ++ q.orQueries,
    ',' ∉ text.toList

theorem bar_notMem_joined (values : List String) (text : List Char)
    (hvalues : ∀ value ∈ values, '|' ∉ value.toList) (h : joined values = some text) :
    '|' ∉ text := by
  unfold joined at h
  split at h
  · cases h
  · cases h
    intro hmem
    rcases Text.mem_intercalate ',' '|' _ hmem with heq | ⟨piece, hpiece, hc⟩
    · cases heq
    · rcases List.mem_map.mp hpiece with ⟨value, hvalue, rfl⟩
      exact hvalues value ((List.perm_insertionSort _ values).mem_iff.mp hvalue) hc

theorem joined_perm (values values' : List String) (h : joined values = joined values')
    (hcomma : ∀ value ∈ values, ',' ∉ value.toList)
    (hcomma' : ∀ value ∈ values', ',' ∉ value.toList) : values.Perm values' := by
  unfold joined at h
  split at h
  next hempty =>
    split at h
    next hempty' => rw [List.isEmpty_iff.mp hempty, List.isEmpty_iff.mp hempty']
    next => cases h
  next hne =>
    split at h
    next => cases h
    next hne' =>
      have hsplit : ∀ values : List String, ¬ values.isEmpty = true →
          (∀ value ∈ values, ',' ∉ value.toList) →
          ([','].intercalate ((values.insertionSort (· ≤ ·)).map String.toList)).splitOn ',' =
            (values.insertionSort (· ≤ ·)).map String.toList := by
        intro values hne hcomma
        refine List.splitOn_intercalate ',' (fun piece hpiece => ?_) (fun hnil => hne ?_)
        · rcases List.mem_map.mp hpiece with ⟨value, hvalue, rfl⟩
          exact hcomma value ((List.perm_insertionSort _ values).mem_iff.mp hvalue)
        · rw [List.map_eq_nil_iff] at hnil
          have hperm := List.perm_insertionSort (· ≤ ·) values
          rw [hnil] at hperm
          rw [hperm.nil_eq.symm]
          rfl
      have hsorted := congrArg (List.splitOn ',') (Option.some.inj h)
      rw [hsplit values hne hcomma, hsplit values' hne' hcomma'] at hsorted
      have hequal := List.map_injective_iff.mpr (fun _ _ => String.toList_injective) hsorted
      have hperm := List.perm_insertionSort (· ≤ ·) values
      rw [hequal] at hperm
      exact hperm.symm.trans (List.perm_insertionSort (· ≤ ·) values')

/-! ## What a key says -/

theorem present_some (name : String) (text : List Char)
    (rest : List (String × Option (List Char))) :
    present ((name, some text) :: rest) = (name, text) :: present rest := rfl

theorem present_none (name : String) (rest : List (String × Option (List Char))) :
    present ((name, none) :: rest) = present rest := rfl

/-- A field that is there is found under its name. -/
theorem lookup_present (fields : List (String × Option (List Char)))
    (hnodup : (fields.map Prod.fst).Nodup) (name : String) :
    (present fields).lookup name = (fields.lookup name).join := by
  induction fields with
  | nil => rfl
  | cons field rest ih =>
      rcases field with ⟨name', text⟩
      rw [List.map_cons, List.nodup_cons] at hnodup
      have hrest := ih hnodup.2
      by_cases hname : name = name'
      · subst hname
        rw [List.lookup_cons_self]
        cases text with
        | some text =>
            rw [present_some, List.lookup_cons_self]
            rfl
        | none =>
            have hnone : rest.lookup name = none := by
              rw [List.lookup_eq_none_iff]
              intro entry hentry
              rw [bne_iff_ne]
              rintro rfl
              exact hnodup.1 (List.mem_map.mpr ⟨entry, hentry, rfl⟩)
            rw [present_none, hrest, hnone]
            rfl
      · rw [List.lookup_cons, beq_false_of_ne hname]
        cases text with
        | some text =>
            rw [present_some, List.lookup_cons, beq_false_of_ne hname]
            exact hrest
        | none => exact hrest

theorem nodup_names (q : SearchQuery) : ((parts q).map Prod.fst).Nodup := by
  show ["q", "dts", "dt", "iid", "o", "l", "lo", "t", "ta", "et", "sh", "ms", "sk", "oq",
    "m"].Nodup
  decide

theorem name_plain (q : SearchQuery) (field : String × Option (List Char))
    (h : field ∈ parts q) : '|' ∉ field.1.toList ∧ '=' ∉ field.1.toList := by
  have hname : field.1 ∈ ["q", "dts", "dt", "iid", "o", "l", "lo", "t", "ta", "et", "sh", "ms",
      "sk", "oq", "m"] := List.mem_map.mpr ⟨field, h, rfl⟩
  revert hname
  generalize field.1 = name
  revert name
  decide

/-- What is written of a field gives back the field. -/
theorem render_inj (field field' : String × List Char) (h : '=' ∉ field.1.toList)
    (h' : '=' ∉ field'.1.toList) (heq : render field = render field') : field = field' := by
  have hcut := congrArg (Text.cutAt '=') heq
  unfold render at hcut
  rw [Text.cutAt_append '=' _ _ h, Text.cutAt_append '=' _ _ h', Option.some.injEq,
    Prod.mk.injEq] at hcut
  exact Prod.ext (String.toList_injective hcut.1) hcut.2

theorem rendered_inj (fields fields' : List (String × List Char))
    (h : ∀ field ∈ fields, '=' ∉ field.1.toList) (h' : ∀ field ∈ fields', '=' ∉ field.1.toList)
    (heq : fields.map render = fields'.map render) : fields = fields' := by
  induction fields generalizing fields' with
  | nil =>
      cases fields' with
      | nil => rfl
      | cons _ _ => cases heq
  | cons field rest ih =>
      cases fields' with
      | nil => cases heq
      | cons field' rest' =>
          rw [List.map_cons, List.map_cons, List.cons.injEq] at heq
          rw [render_inj field field' (h field List.mem_cons_self)
              (h' field' List.mem_cons_self) heq.1,
            ih rest' (fun f hf => h f (List.mem_cons_of_mem _ hf))
              (fun f hf => h' f (List.mem_cons_of_mem _ hf)) heq.2]

theorem bar_notMem_decimal (n : UInt32) : '|' ∉ decimal n := by
  intro hmem
  have hdigit := Nat.isDigit_of_mem_toDigits (by decide) (by decide) hmem
  revert hdigit
  decide

theorem bar_notMem_uuid (u : HyphenatedUuid) : '|' ∉ u.text := by
  have hall : ∀ i : Fin 16, '|' ≠ Nat.digitChar i := by decide
  intro hmem
  have hdigits : '|' ∈ u.digits := by
    rw [← u.filter_text]
    exact List.mem_filter.mpr ⟨hmem, by decide⟩
  rcases mem_numeral 16 32 u.value (by decide) '|' hdigits with ⟨d, hd, hc⟩
  exact hall ⟨d, hd⟩ hc

theorem bar_notMem_parts (q : SearchQuery) (h : Unambiguous q) :
    ∀ field ∈ parts q, ∀ text, field.2 = some text → '|' ∉ text := by
  have hmap : ∀ (o : Option String) (text : List Char), o.map String.toList = some text →
      (∀ value ∈ o.toList, '|' ∉ value.toList) → '|' ∉ text := by
    intro o text ho hbar
    rcases Option.map_eq_some_iff.mp ho with ⟨value, rfl, rfl⟩
    exact hbar value (Option.mem_toList.mpr rfl)
  have hdecimal : ∀ (o : Option UInt32) (text : List Char), o.map decimal = some text →
      '|' ∉ text := by
    intro o text ho
    rcases Option.map_eq_some_iff.mp ho with ⟨n, _, rfl⟩
    exact bar_notMem_decimal n
  have htext : ∀ text ∈ texts q, '|' ∉ text.toList := h.bar
  simp only [texts, List.mem_append, or_imp, forall_and] at htext
  rcases htext with ⟨⟨⟨⟨⟨⟨⟨⟨hquery, hdcc⟩, hscene⟩, hskill⟩, htypes⟩, htags⟩, hany⟩, hexclude⟩, hor⟩
  intro field hfield text hsome
  unfold parts at hfield
  simp only [List.mem_cons, List.not_mem_nil, or_false] at hfield
  rcases hfield with rfl | rfl | rfl | rfl | rfl | rfl | rfl | rfl | rfl | rfl | rfl | rfl |
    rfl | rfl | rfl
  · cases hsome
    exact hquery q.query List.mem_cons_self
  · exact bar_notMem_joined _ _ htypes hsome
  · exact hmap _ _ hsome hdcc
  · rcases Option.map_eq_some_iff.mp hsome with ⟨u, _, rfl⟩
    exact bar_notMem_uuid u
  · exact hdecimal _ _ hsome
  · exact hdecimal _ _ hsome
  · rcases Option.map_eq_some_iff.mp hsome with ⟨b, _, rfl⟩
    cases b <;> decide
  · exact bar_notMem_joined _ _ htags hsome
  · exact bar_notMem_joined _ _ hany hsome
  · exact bar_notMem_joined _ _ hexclude hsome
  · exact hmap _ _ hsome hscene
  · exact hdecimal _ _ hsome
  · exact hmap _ _ hsome hskill
  · exact bar_notMem_joined _ _ hor hsome
  · cases hsome
    cases q.mode <;> decide

/-- Two unambiguous requests with one key have the same fields. -/
theorem parts_eq (q q' : SearchQuery) (h : Unambiguous q) (h' : Unambiguous q')
    (hkey : key q = key q') (name : String) :
    ((parts q).lookup name).join = ((parts q').lookup name).join := by
  have hpresent : ∀ q, ∀ field ∈ present (parts q),
      ∃ text, field = (field.1, text) ∧ (field.1, some text) ∈ parts q := by
    intro q field hfield
    rcases List.mem_filterMap.mp hfield with ⟨⟨name, o⟩, hmem, ho⟩
    rcases Option.map_eq_some_iff.mp ho with ⟨text, rfl, rfl⟩
    exact ⟨text, rfl, hmem⟩
  have hsplit : ∀ q, Unambiguous q → (key q).splitOn '|' = (present (parts q)).map render := by
    intro q h
    refine List.splitOn_intercalate '|' (fun piece hpiece hmem => ?_) (fun hnil => ?_)
    · rcases List.mem_map.mp hpiece with ⟨field, hfield, rfl⟩
      rcases hpresent q field hfield with ⟨text, hfield, hin⟩
      rw [hfield] at hmem
      rcases List.mem_append.mp hmem with hmem | hmem
      · exact (name_plain q _ hin).1 hmem
      · rcases List.mem_cons.mp hmem with heq | hmem
        · cases heq
        · exact bar_notMem_parts q h _ hin text rfl hmem
    · rw [List.map_eq_nil_iff] at hnil
      cases hnil
  have hrendered := congrArg (List.splitOn '|') hkey
  rw [hsplit q h, hsplit q' h'] at hrendered
  have hplain : ∀ q, ∀ field ∈ present (parts q), '=' ∉ field.1.toList := by
    intro q field hfield
    rcases hpresent q field hfield with ⟨text, _, hin⟩
    exact (name_plain q _ hin).2
  have hequal := rendered_inj _ _ (hplain q) (hplain q') hrendered
  rw [← lookup_present _ (nodup_names q), ← lookup_present _ (nodup_names q'), hequal]

theorem decimal_inj (n n' : UInt32) (h : decimal n = decimal n') : n = n' := by
  have hvalue := congrArg (fun digits => Nat.ofDigitChars 10 digits 0) h
  unfold decimal at hvalue
  rw [Nat.ofDigitChars_ten_toDigits, Nat.ofDigitChars_ten_toDigits] at hvalue
  exact UInt32.toNat_inj.mp hvalue

/-- Two unambiguous requests with one key, and with their other clauses in the same order,
    differ in the order of their filters only. -/
theorem reordered_of_key (q q' : SearchQuery) (h : Unambiguous q) (h' : Unambiguous q')
    (hkey : key q = key q') (horder : q.orQueries = q'.orQueries) : Reordered q q' := by
  have hparts := parts_eq q q' h h' hkey
  have hcomma : ∀ text ∈ q.dccTypes ++ q.tags ++ q.tagsAny ++ q.excludeTags ++ q.orQueries,
    ',' ∉ text.toList := h.comma
  have hcomma' : ∀ text ∈ q'.dccTypes ++ q'.tags ++ q'.tagsAny ++ q'.excludeTags ++ q'.orQueries,
    ',' ∉ text.toList := h'.comma
  simp only [List.mem_append, or_imp, forall_and] at hcomma hcomma'
  have htext : ∀ o o' : Option String, (some (o.map String.toList)).join =
      (some (o'.map String.toList)).join → o = o' :=
    fun o o' heq => Option.map_injective (fun s s' => String.toList_injective) heq
  have hdecimal : ∀ o o' : Option UInt32, (some (o.map decimal)).join =
      (some (o'.map decimal)).join → o = o' :=
    fun o o' heq => Option.map_injective (fun n n' => decimal_inj n n') heq
  have hbool : Function.Injective boolText := by
    intro b b' heq
    cases b <;> cases b' <;> first | rfl | (revert heq; decide)
  have hmode : Function.Injective modeText := by
    intro m m' heq
    cases m <;> cases m' <;> first | rfl | (revert heq; decide)
  exact {
    query := String.toList_injective (Option.some.inj (hparts "q"))
    dccType := htext _ _ (hparts "dt")
    dccTypes := joined_perm _ _ (hparts "dts") hcomma.1.1.1.1 hcomma'.1.1.1.1
    instanceId := Option.map_injective (fun u u' => HyphenatedUuid.text_inj u u') (hparts "iid")
    tags := joined_perm _ _ (hparts "t") hcomma.1.1.1.2 hcomma'.1.1.1.2
    tagsAny := joined_perm _ _ (hparts "ta") hcomma.1.1.2 hcomma'.1.1.2
    excludeTags := joined_perm _ _ (hparts "et") hcomma.1.2 hcomma'.1.2
    loadedOnly := Option.map_injective hbool (hparts "lo")
    sceneHint := htext _ _ (hparts "sh")
    minScore := hdecimal _ _ (hparts "ms")
    skillHint := htext _ _ (hparts "sk")
    orQueries := horder
    limit := hdecimal _ _ (hparts "l")
    offset := hdecimal _ _ (hparts "o")
    mode := hmode (Option.some.inj (hparts "m")) }

/-! ## The cache -/

structure CachedSearchResult where
  body : SearchPage
  insertedAt : Nat
  indexGeneration : String

/-- The entries, the one that was used last in front, and how often all were dropped. -/
structure Cache where
  capacity : Nat
  ttl : Nat
  entries : List (List Char × CachedSearchResult)
  generation : UInt64

def Cache.new (capacity ttl : Nat) : Cache := ⟨capacity, ttl, [], 0⟩

def Cache.pop (c : Cache) (k : List Char) : Cache :=
  { c with entries := c.entries.filter (fun entry => entry.1 ≠ k) }

def getWithIndexGen (c : Cache) (k : List Char) (now : Nat) (currentIndexGen : Option String) :
    Option SearchPage × Cache :=
  match c.entries.lookup k with
  | none => (none, c)
  | some entry =>
    if c.ttl ≤ now - entry.insertedAt then (none, c.pop k)
    else if currentIndexGen.any (· ≠ entry.indexGeneration) then (none, c.pop k)
    else (some entry.body, { c with entries := (k, entry) :: (c.pop k).entries })

/-- `put`. The entry that was not used for the longest time makes room. -/
def put (c : Cache) (k : List Char) (entry : CachedSearchResult) : Cache :=
  { c with entries := ((k, entry) :: (c.pop k).entries).take c.capacity }

def invalidate (c : Cache) : Cache := { c with entries := [], generation := c.generation + 1 }

/-! ## Requests that are served -/

/-- The cache, and what has been answered: the request, the generation of the index that
    the answer is for, and the page. -/
structure Sys where
  cache : Cache
  served : List (SearchQuery × String × SearchPage)

/-- A request finds the index at one generation, and at another when the cache has no page
    for it and the page is computed. -/
inductive Op
  | serve (q : SearchQuery) (now : Nat) (currentGen : String) (insertedAt : Nat)
    (snapshotGen : String)
  | invalidate

section Served

variable (rk : Ranking) (indexAt : String → List SearchRecord)

def step (s : Sys) : Op → Sys
  | .serve q now currentGen insertedAt snapshotGen =>
    let found := getWithIndexGen s.cache (key q) now (some currentGen)
    match found.1.filter (fun page => !page.hits.isEmpty) with
    | some page => ⟨found.2, s.served ++ [(q, currentGen, page)]⟩
    | none =>
      let page := searchPage rk (indexAt snapshotGen) q
      ⟨put found.2 (key q) ⟨page, insertedAt, snapshotGen⟩, s.served ++ [(q, snapshotGen, page)]⟩
  | .invalidate => { s with cache := invalidate s.cache }

/-- A page is what would be found at the generation that it is for. -/
def Exact (s : Sys) : Prop :=
  ∀ answer ∈ s.served, answer.2.2 = searchPage rk (indexAt answer.2.1) answer.1

/-- An entry is the page of a request that was made, under its key. -/
def Sound (asked : SearchQuery → Prop) (c : Cache) : Prop :=
  ∀ entry ∈ c.entries, ∃ q, asked q ∧ entry.1 = key q ∧
    entry.2.body = searchPage rk (indexAt entry.2.indexGeneration) q

variable (asked : SearchQuery → Prop)

theorem sound_pop (c : Cache) (k : List Char) (h : Sound rk indexAt asked c) :
    Sound rk indexAt asked (c.pop k) :=
  fun entry hentry => h entry (List.mem_of_mem_filter hentry)

/-- What is found is the page of a request with that key, at that generation. -/
theorem getWithIndexGen_spec (c : Cache) (k : List Char) (now : Nat) (gen : String)
    (h : Sound rk indexAt asked c) :
    Sound rk indexAt asked (getWithIndexGen c k now (some gen)).2 ∧
      ∀ page, (getWithIndexGen c k now (some gen)).1 = some page →
        ∃ q, asked q ∧ k = key q ∧ page = searchPage rk (indexAt gen) q := by
  unfold getWithIndexGen
  cases hlookup : c.entries.lookup k with
  | none => exact ⟨h, fun page hpage => by cases hpage⟩
  | some entry =>
      have hmem : (k, entry) ∈ c.entries := by
        rcases List.lookup_eq_some_iff.mp hlookup with ⟨front, back, hentries, _⟩
        rw [hentries]
        exact List.mem_append_right _ List.mem_cons_self
      dsimp only
      split
      next => exact ⟨sound_pop rk indexAt asked c k h, fun page hpage => by cases hpage⟩
      next =>
        split
        next => exact ⟨sound_pop rk indexAt asked c k h, fun page hpage => by cases hpage⟩
        next hgen =>
          refine ⟨fun entry' hentry' => ?_, fun page hpage => ?_⟩
          · rcases List.mem_cons.mp hentry' with rfl | hentry'
            · exact h _ hmem
            · exact sound_pop rk indexAt asked c k h entry' hentry'
          · have hsame : gen = entry.indexGeneration := by
              rw [Option.any_some, decide_eq_true_eq, not_not] at hgen
              exact hgen
            rcases h _ hmem with ⟨q, hq, hk, hbody⟩
            rw [← Option.some.inj hpage, hsame]
            exact ⟨q, hq, hk, hbody⟩

theorem sound_put (c : Cache) (q : SearchQuery) (insertedAt : Nat) (gen : String) (hq : asked q)
    (h : Sound rk indexAt asked c) :
    Sound rk indexAt asked
      (put c (key q) ⟨searchPage rk (indexAt gen) q, insertedAt, gen⟩) := by
  intro entry hentry
  rcases List.mem_cons.mp (List.mem_of_mem_take hentry) with rfl | hentry
  · exact ⟨q, hq, rfl, rfl⟩
  · exact sound_pop rk indexAt asked c (key q) h entry hentry

/-- The requests of an operation are among those that are made. -/
def Asks : Op → Prop
  | .serve q _ _ _ _ => asked q
  | .invalidate => True

/-- One operation, where requests with one key are about the same. -/
theorem step_spec (s : Sys) (op : Op) (hasks : Asks asked op)
    (hkeys : ∀ q q', asked q → asked q' → key q = key q' → Reordered q q')
    (h : Sound rk indexAt asked s.cache ∧ Exact rk indexAt s) :
    Sound rk indexAt asked (step rk indexAt s op).cache ∧
      Exact rk indexAt (step rk indexAt s op) := by
  cases op with
  | invalidate => exact ⟨fun _ hentry => absurd hentry List.not_mem_nil, h.2⟩
  | serve q now currentGen insertedAt snapshotGen =>
      have hget := getWithIndexGen_spec rk indexAt asked s.cache (key q) now currentGen h.1
      have hserved : ∀ gen page, page = searchPage rk (indexAt gen) q →
          ∀ answer ∈ s.served ++ [(q, gen, page)],
            answer.2.2 = searchPage rk (indexAt answer.2.1) answer.1 := by
        intro gen page hpage answer hanswer
        rcases List.mem_append.mp hanswer with hanswer | hanswer
        · exact h.2 answer hanswer
        · rw [List.mem_singleton.mp hanswer]
          exact hpage
      unfold step
      dsimp only
      split
      next page hpage =>
        rcases hget.2 page (Option.eq_some_of_filter_eq_some hpage) with ⟨q', hq', hk, hbody⟩
        refine ⟨hget.1, hserved currentGen page ?_⟩
        rw [hbody]
        exact (searchPage_reordered rk _ q q' (hkeys q q' hasks hq' hk)).symm
      next =>
        exact ⟨sound_put rk indexAt asked _ q insertedAt snapshotGen hasks hget.1,
          hserved snapshotGen _ rfl⟩

/-- In a run whose requests with one key are about the same, what is served is what would
    be found. Requests without bars and commas, and with their other clauses in the same
    order, are such requests. -/
theorem cached_page_exact (capacity ttl : Nat) (ops : List Op)
    (hasks : ∀ op ∈ ops, Asks asked op)
    (hkeys : ∀ q q', asked q → asked q' → key q = key q' → Reordered q q') :
    Exact rk indexAt (ops.foldl (step rk indexAt) ⟨.new capacity ttl, []⟩) ∧
      (∀ q q', key q = key q' → Reordered q q' →
        ∀ records, searchPage rk records q = searchPage rk records q') ∧
      ∀ q q', Unambiguous q → Unambiguous q' → key q = key q' → q.orQueries = q'.orQueries →
        Reordered q q' := by
  refine ⟨?_, fun q q' _ hreordered records => searchPage_reordered rk records q q' hreordered,
    reordered_of_key⟩
  have hrun : ∀ (ops : List Op) (s : Sys), (∀ op ∈ ops, Asks asked op) →
      Sound rk indexAt asked s.cache ∧ Exact rk indexAt s →
      Exact rk indexAt (ops.foldl (step rk indexAt) s) := by
    intro ops
    induction ops with
    | nil => exact fun s _ h => h.2
    | cons op rest ih =>
        intro s hasks h
        exact ih _ (fun op' hop' => hasks op' (List.mem_cons_of_mem _ hop'))
          (step_spec rk indexAt asked s op (hasks op List.mem_cons_self) hkeys h)
  exact hrun ops _ hasks ⟨fun _ hentry => absurd hentry List.not_mem_nil,
    fun _ hanswer => absurd hanswer List.not_mem_nil⟩

end Served

/-! ## Two requests with one key -/

/-- A request for the rows with some tags. -/
def tagged (tags : List String) : SearchQuery where
  query := ""
  dccType := none
  dccTypes := []
  instanceId := none
  tags := tags
  tagsAny := []
  excludeTags := []
  loadedOnly := none
  sceneHint := none
  minScore := none
  skillHint := none
  orQueries := []
  limit := none
  offset := none
  mode := .fuzzy

theorem one_lt_ids : 1 < 2 ^ 128 := by decide

/-- A row with one tag. -/
def sphere : SearchRecord where
  toolSlug := "maya.1.create_sphere"
  backendTool := "create_sphere"
  summary := "Create a sphere"
  skillName := none
  tags := ["a,b"]
  searchTokens := []
  searchAliases := []
  dccType := "maya"
  instanceId := ⟨1, one_lt_ids⟩
  loaded := true
  toolRole := none
  risk := none
  rankLayer := none
  rankPathSource := none
  rankScope := 0

/-- A ranking in which nothing fits. -/
def flat : Ranking := ⟨fun _ _ _ _ => ⟨0, []⟩, fun raw _ _ _ => some raw⟩

theorem unambiguous_tagged : Unambiguous (tagged ["a"]) where
  bar := by decide
  comma := by decide

theorem cached_page_exact_tagged :
    Exact flat (fun _ => [sphere])
      ([Op.serve (tagged ["a"]) 0 "g" 0 "g", .serve (tagged ["a"]) 1 "g" 1 "g"].foldl
        (step flat (fun _ => [sphere])) ⟨.new 256 60, []⟩) := by
  refine (cached_page_exact flat (fun _ => [sphere]) (· = tagged ["a"]) 256 60 _ ?_ ?_).1
  · intro op hop
    simp only [List.mem_cons, List.not_mem_nil, or_false] at hop
    rcases hop with rfl | rfl <;> rfl
  · intro q q' hq hq' hkey
    subst hq hq'
    exact reordered_of_key _ _ unambiguous_tagged unambiguous_tagged hkey rfl

/-- A tag with a comma in it and two tags have one key. The page of the first is served for
    the second, which finds nothing. -/
theorem key_collision :
    key (tagged ["a,b"]) = key (tagged ["a", "b"]) ∧
      (searchPage flat [sphere] (tagged ["a,b"])).total = 1 ∧
      (searchPage flat [sphere] (tagged ["a", "b"])).total = 0 ∧
      ([Op.serve (tagged ["a,b"]) 0 "g" 0 "g", .serve (tagged ["a", "b"]) 1 "g" 1 "g"].foldl
        (step flat (fun _ => [sphere])) ⟨.new 256 60, []⟩).served.map (fun answer =>
          answer.2.2.total) = [1, 1] := by
  refine ⟨by decide, rfl, rfl, rfl⟩

end SearchCache

end Gateway

end DccMcp
