import DccMcp.Lib.Machine
import DccMcp.Lib.Sliding

/-!
# The Call Quota

How many calls of a session the gateway lets through in a time.

The middleware keeps a bucket for every session: the time at which its window
began, and the number of calls since. A call that comes when the window is over
begins a new one with an empty count. So the windows of a session stand side by
side, where its calls have put them, and the limit is kept in each of them. It is
not kept in an interval that lies across two: the calls at the end of one window
and those at the beginning of the next are counted apart, however close they are.

`quota_bounds_iff` says which sequences of calls this goes well for. The windows
depend on the times of the calls alone, and so does the condition `Fits`: a call
that is among the first of its window comes when the first calls of the window
before, as far as they are recent, leave room for it. The other way to go wrong is
the count itself, which has 64 bits and starts again.

## Main definitions

* `QuotaMiddleware`, `beforeCall`: The middleware.
* `admitted`: The calls that are let through.
* `Windows`, `roll`, `add`: The windows that a session's calls make.
* `Fits`: A call that finds room.

## Theorems

* `quota_bounds_iff`: When the limit is kept in every interval.
-/

namespace DccMcp

namespace Gateway

namespace Quota

open Machine Sliding

structure BucketState where
  count : UInt64
  windowStart : Nat
  deriving DecidableEq

/-- The limit and the window, which is a number of nanoseconds, with the buckets and
    the counters. -/
structure QuotaMiddleware where
  limit : UInt64
  window : Nat
  buckets : String → Option BucketState
  allowedTotal : UInt64
  throttledTotal : UInt64

/-- `QuotaMiddleware::new`, and `with_window`. -/
def QuotaMiddleware.new (limit : UInt64) (window : Nat) : QuotaMiddleware :=
  ⟨limit, window, fun _ => none, 0, 0⟩

/-- A call: its session, and the time at which the buckets are locked for it. -/
structure Call where
  sessionId : Option String
  now : Nat
  deriving DecidableEq

/-- The bucket of a call. -/
def Call.key (call : Call) : String := call.sessionId.getD "global"

structure QuotaExceeded where
  message : String
  deriving DecidableEq

/-- The bucket after a call. The count has 64 bits. -/
def count (window : Nat) (bucket : Option BucketState) (now : Nat) : BucketState :=
  let bucket := bucket.getD ⟨0, now⟩
  let bucket := if window ≤ now - bucket.windowStart then ⟨0, now⟩ else bucket
  { bucket with count := bucket.count + 1 }

/-- `before_call`: the answer, and the middleware after it. -/
def beforeCall (q : QuotaMiddleware) (call : Call) :
    Except QuotaExceeded Unit × QuotaMiddleware :=
  let bucket := count q.window (q.buckets call.key) call.now
  let result : Except QuotaExceeded Unit :=
    if q.limit < bucket.count then
      .error ⟨"session '" ++ call.key ++ "' exceeded " ++ Nat.repr q.limit.toNat ++
        " calls per " ++ Nat.repr (q.window / 1000000000) ++ "s window"⟩
    else .ok ()
  (result, { q with
    buckets := Function.update q.buckets call.key (some bucket)
    allowedTotal := if result.isOk then q.allowedTotal + 1 else q.allowedTotal
    throttledTotal := if result.isOk then q.throttledTotal else q.throttledTotal + 1 })

/-- The calls that are let through, in their order. -/
def admitted (q : QuotaMiddleware) : List Call → List Call
  | [] => []
  | call :: calls =>
    match (beforeCall q call).1 with
    | .ok _ => call :: admitted (beforeCall q call).2 calls
    | .error _ => admitted (beforeCall q call).2 calls

/-- The calls of a bucket. -/
def callsOf (key : String) (calls : List Call) : List Call :=
  calls.filter (fun call => call.key == key)

/-- No interval of the length of the window has more admitted calls of a bucket than
    the limit. -/
def KeepsLimit (q : QuotaMiddleware) (calls : List Call) : Prop :=
  ∀ key, Bounded q.window q.limit.toNat ((callsOf key (admitted q calls)).map Call.now)

/-- What is admitted of the calls of a bucket is what is admitted when there are no
    others. -/
def Independent (q : QuotaMiddleware) (calls : List Call) : Prop :=
  ∀ key, callsOf key (admitted q calls) = admitted q (callsOf key calls)

/-! ## The windows of a session -/

/-- The calls of the window before the current one, and those of the current one, which
    begins with the first of them. -/
structure Windows where
  previous : List Nat
  current : List Nat
  deriving DecidableEq

/-- A window that is over at a time is the previous one. -/
def Windows.roll (window : Nat) (w : Windows) (now : Nat) : Windows :=
  match w.current with
  | [] => w
  | start :: _ => if window ≤ now - start then ⟨w.current, []⟩ else w

def Windows.add (w : Windows) (now : Nat) : Windows := { w with current := w.current ++ [now] }

/-- The windows after a call. -/
def Windows.call (window : Nat) (w : Windows) (now : Nat) : Windows := (w.roll window now).add now

/-- The calls there are in a count of 64 bits. -/
def countLimit : Nat := 18446744073709551616

/-- A call finds the count of its window not at its end. If it is one of the first `limit`
    calls of its window, then these so far and it, with those of the first `limit` calls
    of the window before that are less than a window old, are not more than the limit. -/
def Fits (limit : UInt64) (window : Nat) (w : Windows) (now : Nat) : Prop :=
  0 < window →
    (w.roll window now).current.length + 1 < countLimit ∧
    ((w.roll window now).current.length < limit.toNat →
      recent window now ((w.roll window now).previous.take limit.toNat) +
        (w.roll window now).current.length + 1 ≤ limit.toNat)

instance (limit : UInt64) (window : Nat) (w : Windows) (now : Nat) :
    Decidable (Fits limit window w now) :=
  inferInstanceAs (Decidable (_ → _ ∧ (_ → _)))

/-- Every call of a session fits. -/
def AllFit (limit : UInt64) (window : Nat) (w : Windows) (times : List Nat) : Prop :=
  Along (total (Windows.call window)) (Fits limit window) w times

/-! ## One session at a time -/

/-- The times that are let through of one bucket. -/
def admittedTimes (limit : UInt64) (window : Nat) : Option BucketState → List Nat → List Nat
  | _, [] => []
  | bucket, now :: times =>
    if limit < (count window bucket now).count then
      admittedTimes limit window (some (count window bucket now)) times
    else now :: admittedTimes limit window (some (count window bucket now)) times

theorem admitted_cons (q : QuotaMiddleware) (call : Call) (calls : List Call) :
    admitted q (call :: calls) =
      if q.limit < (count q.window (q.buckets call.key) call.now).count then
        admitted (beforeCall q call).2 calls
      else call :: admitted (beforeCall q call).2 calls := by
  by_cases h : q.limit < (count q.window (q.buckets call.key) call.now).count
  · have hresult : ∃ e, (beforeCall q call).1 = .error e := ⟨_, if_pos h⟩
    rcases hresult with ⟨e, he⟩
    rw [if_pos h, admitted, he]
  · have hresult : (beforeCall q call).1 = .ok () := if_neg h
    rw [if_neg h, admitted, hresult]

variable (key : String) (limit : UInt64) (window now : Nat) (bucket : Option BucketState)

theorem callsOf_cons_of_eq (call : Call) (calls : List Call) (h : call.key = key) :
    callsOf key (call :: calls) = call :: callsOf key calls :=
  List.filter_cons_of_pos (beq_iff_eq.mpr h)

theorem callsOf_cons_of_ne (call : Call) (calls : List Call) (h : call.key ≠ key) :
    callsOf key (call :: calls) = callsOf key calls :=
  List.filter_cons_of_neg (fun heq => h (beq_iff_eq.mp heq))

/-- The calls of other buckets can be left out, and so can those before that have led to
    the same bucket. -/
theorem callsOf_admitted (q q' : QuotaMiddleware) (calls : List Call) (hlimit : q'.limit = q.limit)
    (hwindow : q'.window = q.window)
    (hbucket : q'.buckets key = q.buckets key) :
    callsOf key (admitted q calls) = admitted q' (callsOf key calls) := by
  induction calls generalizing q q' with
  | nil => rfl
  | cons call calls ih =>
      rw [admitted_cons]
      by_cases hkey : call.key = key
      · -- Both buckets count the call, and come to the same count.
        have hrest : callsOf key (admitted (beforeCall q call).2 calls) =
            admitted (beforeCall q' call).2 (callsOf key calls) := by
          refine ih _ _ hlimit hwindow ?_
          show Function.update q'.buckets call.key _ key = Function.update q.buckets call.key _ key
          rw [hkey, Function.update_self, Function.update_self, hwindow, hbucket]
        rw [callsOf_cons_of_eq key call calls hkey, admitted_cons, hkey, hlimit, hwindow, hbucket]
        split
        · exact hrest
        · rw [callsOf_cons_of_eq key call _ hkey, hrest]
      · have hrest : callsOf key (admitted (beforeCall q call).2 calls) =
            admitted q' (callsOf key calls) := by
          refine ih _ _ hlimit hwindow ?_
          show q'.buckets key = Function.update q.buckets call.key _ key
          rw [Function.update_of_ne (fun heq => hkey heq.symm), hbucket]
        rw [callsOf_cons_of_ne key call calls hkey, ← hrest]
        split
        · rfl
        · rw [callsOf_cons_of_ne key call _ hkey]

/-- What is admitted of a bucket's calls, by their times. -/
theorem times_admitted (q : QuotaMiddleware) (calls : List Call)
    (h : ∀ call ∈ calls, call.key = key) :
    (admitted q calls).map Call.now =
      admittedTimes q.limit q.window (q.buckets key) (calls.map Call.now) := by
  induction calls generalizing q with
  | nil => rfl
  | cons call calls ih =>
      have hkey := h call List.mem_cons_self
      have hrest := ih (beforeCall q call).2 (fun c hc => h c (List.mem_cons_of_mem call hc))
      have hbucket : (beforeCall q call).2.buckets key =
          some (count q.window (q.buckets key) call.now) := by
        show Function.update q.buckets call.key _ key = _
        rw [hkey, Function.update_self]
      rw [hbucket] at hrest
      rw [admitted_cons, List.map_cons, admittedTimes, hkey]
      split
      · exact hrest
      · rw [List.map_cons, hrest]
        rfl

/-! ## The bound -/

/-- A bucket with the windows of its calls, and the times that have been let through: the
    first calls of every window. All but those of the last two windows are over. -/
structure Held (limit : UInt64) (window : Nat) (bucket : Option BucketState) (w : Windows)
    (older times : List Nat) : Prop where
  times : times = older ++ w.previous.take limit.toNat ++ w.current.take limit.toNat
  bucket : bucket = w.current.head?.map (fun start => ⟨UInt64.ofNat w.current.length, start⟩)
  count_lt : w.current.length < countLimit
  older_over : ∀ t ∈ older, ∀ c ∈ w.current, t + window ≤ c
  ordered : ∀ p ∈ w.previous, ∀ c ∈ w.current, p ≤ c
  started : ∀ start ∈ w.current.head?, ∀ c ∈ w.current, start ≤ c
  fresh : w.current = [] → older = [] ∧ w.previous = []

theorem held_start (window : Nat) : Held limit window none ⟨[], []⟩ [] [] where
  times := by rw [List.take_nil, List.append_nil, List.append_nil]
  bucket := rfl
  count_lt := by decide
  older_over := fun _ h => absurd h List.not_mem_nil
  ordered := fun _ h => absurd h List.not_mem_nil
  started := fun _ h => absurd h (Option.not_mem_none _)
  fresh := fun _ => ⟨rfl, rfl⟩

/-- What a call meets: its windows, of which one may just have ended, and its bucket. -/
structure Met (limit : UInt64) (window now : Nat) (bucket : Option BucketState) (v : Windows)
    (older times : List Nat) : Prop where
  times : times = older ++ v.previous.take limit.toNat ++ v.current.take limit.toNat
  bucket : count window bucket now =
    ⟨UInt64.ofNat (v.current.length + 1), v.current.head?.getD now⟩
  count_lt : v.current.length < countLimit
  older_over : ∀ t ∈ older, t + window ≤ now ∧ ∀ c ∈ v.current, t + window ≤ c
  ordered : ∀ p ∈ v.previous, p ≤ now ∧ ∀ c ∈ v.current, p ≤ c
  started : ∀ start ∈ v.current.head?, ∀ c ∈ v.current, start ≤ c
  recent : ∀ c ∈ v.current, c ≤ now ∧ now < c + window

theorem held_roll (w : Windows) (older times : List Nat) (hpos : 0 < window)
    (h : Held limit window bucket w older times)
    (hnow : ∀ c ∈ w.current, c ≤ now) :
    ∃ older, Met limit window now bucket (w.roll window now) older times := by
  cases hcurrent : w.current with
  | nil =>
      -- The first call of the session.
      have hroll : w.roll window now = w := by
        unfold Windows.roll
        rw [hcurrent]
      rcases h.fresh hcurrent with ⟨holder, hprevious⟩
      have hbucket := h.bucket
      rw [hcurrent] at hbucket
      rw [hroll]
      refine ⟨older, h.times, ?_, h.count_lt, ?_, ?_, h.started, ?_⟩
      · rw [hbucket, hcurrent]
        unfold count
        simp only [List.head?_nil, Option.map_none, Option.getD_none, Nat.sub_self,
          Nat.not_le.mpr hpos, if_false]
        rfl
      · rw [holder]
        exact fun _ hmem => absurd hmem List.not_mem_nil
      · rw [hprevious]
        exact fun _ hmem => absurd hmem List.not_mem_nil
      · rw [hcurrent]
        exact fun _ hmem => absurd hmem List.not_mem_nil
  | cons start rest =>
      have hstart : start ∈ w.current := by
        rw [hcurrent]
        exact List.mem_cons_self
      have hbucket := h.bucket
      rw [hcurrent, List.head?_cons, Option.map_some, ← hcurrent] at hbucket
      by_cases hover : window ≤ now - start
      · -- The window is over, and those before it are out of reach.
        have hroll : w.roll window now = ⟨w.current, []⟩ := by
          unfold Windows.roll
          rw [hcurrent]
          exact if_pos hover
        have hstart' := hnow start hstart
        rw [hroll]
        refine ⟨older ++ w.previous.take limit.toNat, ?_, ?_, Nat.zero_lt_succ _, ?_, ?_, ?_, ?_⟩
        · rw [List.take_nil, List.append_nil]
          exact h.times
        · rw [hbucket]
          unfold count
          simp only [Option.getD_some, hover, if_true]
          rfl
        · intro t ht
          refine ⟨?_, fun _ hmem => absurd hmem List.not_mem_nil⟩
          rcases List.mem_append.mp ht with ht | ht
          · have := h.older_over t ht start hstart
            omega
          · have := h.ordered t (List.mem_of_mem_take ht) start hstart
            omega
        · exact fun p hp => ⟨hnow p hp, fun _ hmem => absurd hmem List.not_mem_nil⟩
        · exact fun _ _ _ hmem => absurd hmem List.not_mem_nil
        · exact fun _ hmem => absurd hmem List.not_mem_nil
      · have hroll : w.roll window now = w := by
          unfold Windows.roll
          rw [hcurrent]
          exact if_neg hover
        have hfirst : ∀ c ∈ w.current, start ≤ c := h.started start (by rw [hcurrent]; rfl)
        rw [hroll]
        refine ⟨older, h.times, ?_, h.count_lt, fun t ht => ⟨?_, h.older_over t ht⟩,
          fun p hp => ⟨?_, h.ordered p hp⟩, h.started, fun c hc => ⟨hnow c hc, ?_⟩⟩
        · rw [hbucket]
          unfold count
          simp only [Option.getD_some, hover, if_false, UInt64.ofNat_add]
          rw [hcurrent]
          rfl
        · have := h.older_over t ht start hstart
          have := hnow start hstart
          omega
        · have := h.ordered p hp start hstart
          have := hnow start hstart
          omega
        · have := hfirst c hc
          omega

/-- How much of what has been let through is recent: some of the previous window, and
    all of the current one. -/
theorem Met.recent_eq (v : Windows) (older times : List Nat)
    (h : Met limit window now bucket v older times) :
    Sliding.recent window now times =
      Sliding.recent window now (v.previous.take limit.toNat) +
        min limit.toNat v.current.length := by
  rw [h.times, recent_append, recent_append,
    recent_eq_zero window now older (fun t ht => (h.older_over t ht).1),
    recent_eq_length window now (v.current.take limit.toNat)
      (fun c hc => (h.recent c (List.mem_of_mem_take hc)).2), List.length_take]
  omega

theorem Met.le_now (v : Windows) (older times : List Nat)
    (h : Met limit window now bucket v older times) :
    ∀ t ∈ times, t ≤ now := by
  intro t ht
  rw [h.times, List.mem_append, List.mem_append] at ht
  rcases ht with (ht | ht) | ht
  · have := (h.older_over t ht).1
    omega
  · exact (h.ordered t (List.mem_of_mem_take ht)).1
  · exact (h.recent t (List.mem_of_mem_take ht)).1

/-- A call is let through when it is one of the first of its window, or the count has
    come back to zero. -/
theorem Met.refused_iff (v : Windows) (older times : List Nat)
    (h : Met limit window now bucket v older times) :
    limit < (count window bucket now).count ↔
      v.current.length + 1 < countLimit ∧ limit.toNat ≤ v.current.length := by
  have hlt := h.count_lt
  have hlimit := limit.toNat_lt
  rw [h.bucket, UInt64.lt_iff_toNat_lt, UInt64.toNat_ofNat']
  unfold countLimit at *
  omega

/-- The times that have been let through after one more call. -/
def after (limit : UInt64) (window now : Nat) (bucket : Option BucketState) (times : List Nat) :
    List Nat :=
  if limit < (count window bucket now).count then times else times ++ [now]

/-- A call that fits leaves its bucket in order. -/
theorem Met.held (v : Windows) (older times : List Nat)
    (h : Met limit window now bucket v older times)
    (hcount : v.current.length + 1 < countLimit) :
    Held limit window (some (count window bucket now)) (v.add now) older
      (after limit window now bucket times) where
  times := by
    unfold after Windows.add
    rw [h.times]
    split
    next hrefused =>
      have hfull := ((h.refused_iff).mp hrefused).2
      rw [List.take_append_of_le_length hfull]
    next hadmitted =>
      have hroom : v.current.length + 1 ≤ limit.toNat := by
        by_contra hfull
        exact hadmitted (h.refused_iff.mpr ⟨hcount, by omega⟩)
      rw [List.take_of_length_le (l := v.current ++ [now]) (by
          rw [List.length_append, List.length_singleton]
          exact hroom),
        List.take_of_length_le (l := v.current) (by omega), List.append_assoc, List.append_assoc]
  bucket := by
    rw [h.bucket]
    unfold Windows.add
    cases v.current with
    | nil => rfl
    | cons start rest =>
        rw [List.length_append]
        rfl
  count_lt := by
    unfold Windows.add
    rw [List.length_append]
    exact hcount
  older_over := by
    intro t ht c hc
    rcases List.mem_append.mp hc with hc | hc
    · exact (h.older_over t ht).2 c hc
    · rw [List.mem_singleton.mp hc]
      exact (h.older_over t ht).1
  ordered := by
    intro p hp c hc
    rcases List.mem_append.mp hc with hc | hc
    · exact (h.ordered p hp).2 c hc
    · rw [List.mem_singleton.mp hc]
      exact (h.ordered p hp).1
  started := by
    intro start hstart c hc
    unfold Windows.add at hstart hc
    rw [List.mem_append, List.mem_singleton] at hc
    cases hcurrent : v.current with
    | nil =>
        rw [hcurrent] at hstart hc
        rcases hc with hc | hc
        · exact absurd hc List.not_mem_nil
        · rw [hc, ← Option.mem_some_iff.mp hstart]
    | cons first rest =>
        rw [hcurrent] at hstart
        have hfirst : first = start := Option.mem_some_iff.mp hstart
        have hmem : first ∈ v.current := by
          rw [hcurrent]
          exact List.mem_cons_self
        rw [← hfirst]
        rcases hc with hc | hc
        · exact h.started first (by rw [hcurrent]; rfl) c hc
        · rw [hc]
          exact (h.recent first hmem).1
  fresh := by
    intro hnil
    exact absurd hnil (List.append_ne_nil_of_right_ne_nil _ (List.cons_ne_nil _ _))

/-- A call that fits keeps the bound, and one that does not breaks it. -/
theorem Met.bounded_iff (w : Windows) (older times : List Nat) (hpos : 0 < window)
    (h : Met limit window now bucket (w.roll window now) older times) :
    Bounded window limit.toNat (after limit window now bucket times) ↔
      Bounded window limit.toNat times ∧ Fits limit window w now := by
  have hrefused := h.refused_iff
  have hrecent := h.recent_eq
  have hlt := h.count_lt
  have hlimit := limit.toNat_lt
  unfold after Fits
  split
  next hover =>
    -- A call that is refused changes nothing.
    have hfull := hrefused.mp hover
    exact ⟨fun hbounded => ⟨hbounded, fun _ => ⟨hfull.1, fun hroom => by omega⟩⟩, And.left⟩
  next hadmitted =>
    rw [bounded_snoc window limit.toNat now times hpos h.le_now, hrecent]
    refine and_congr_right (fun _ => ?_)
    unfold countLimit at *
    constructor
    · intro hroom _
      exact ⟨by omega, fun _ => by omega⟩
    · intro hfits
      have hfits := hfits hpos
      have hnot : ¬(w.roll window now).current.length + 1 < 18446744073709551616 ∨
          ¬limit.toNat ≤ (w.roll window now).current.length := by
        by_contra hboth
        rw [not_or, not_not, not_not] at hboth
        exact hadmitted (hrefused.mpr hboth)
      omega

/-- The bound for a bucket, from any point of its calls on. -/
theorem bounded_admittedTimes_iff (window : Nat) (hpos : 0 < window) (bucket : Option BucketState)
    (w : Windows) (older times calls : List Nat)
    (h : Held limit window bucket w older times) (hbounded : Bounded window limit.toNat times)
    (hsorted : calls.Pairwise (· ≤ ·)) (hnow : ∀ now ∈ calls, ∀ c ∈ w.current, c ≤ now) :
    Bounded window limit.toNat (times ++ admittedTimes limit window bucket calls) ↔
      AllFit limit window w calls := by
  induction calls generalizing bucket w older times with
  | nil =>
      rw [admittedTimes, List.append_nil]
      exact iff_of_true hbounded trivial
  | cons now calls ih =>
      rcases held_roll limit window now bucket w older times hpos h
        (hnow now List.mem_cons_self) with ⟨older', hmet⟩
      have hstep := hmet.bounded_iff limit window now bucket w older' times hpos
      -- What is let through later comes behind what is let through now.
      have hcons : times ++ admittedTimes limit window bucket (now :: calls) =
          after limit window now bucket times ++
            admittedTimes limit window (some (count window bucket now)) calls := by
        unfold after
        rw [admittedTimes]
        split
        · rfl
        · rw [List.append_assoc]
          rfl
      rw [hcons]
      by_cases hfits : Fits limit window w now
      · have hlater : ∀ now' ∈ calls, ∀ c ∈ (w.call window now).current, c ≤ now' := by
          intro now' hnow' c hc
          have hle := List.rel_of_pairwise_cons hsorted hnow'
          rcases List.mem_append.mp hc with hc | hc
          · have := (hmet.recent c hc).1
            omega
          · rw [List.mem_singleton.mp hc]
            exact hle
        rw [ih _ _ older' _ (hmet.held limit window now bucket _ older' times (hfits hpos).1)
          (hstep.mpr ⟨hbounded, hfits⟩) hsorted.of_cons hlater]
        constructor
        · exact fun hrest => ⟨hfits, fun w' hw' => Option.some.inj hw' ▸ hrest⟩
        · exact fun hall => hall.2 _ rfl
      · refine iff_of_false (fun hall => ?_) (fun hall => hfits hall.1)
        exact hfits (hstep.mp hall.of_append).2

/-- The limit is kept in every interval, for every bucket, when every call finds room in the
    windows of its own. That the buckets do not affect each other needs no condition. -/
theorem quota_bounds_iff (limit : UInt64) (window : Nat) (calls : List Call)
    (hsorted : (calls.map Call.now).Pairwise (· ≤ ·)) :
    (KeepsLimit (.new limit window) calls ∧ Independent (.new limit window) calls) ↔
      ∀ key, AllFit limit window ⟨[], []⟩ ((callsOf key calls).map Call.now) := by
  have hindependent : Independent (.new limit window) calls := fun key =>
    callsOf_admitted key _ _ calls rfl rfl rfl
  have htimes : ∀ key, (callsOf key (admitted (.new limit window) calls)).map Call.now =
      admittedTimes limit window none ((callsOf key calls).map Call.now) := by
    intro key
    rw [hindependent key]
    exact times_admitted key _ _ (fun call hcall => beq_iff_eq.mp (List.mem_filter.mp hcall).2)
  rw [and_iff_left hindependent]
  refine forall_congr' (fun key => ?_)
  rw [htimes key]
  show Bounded window limit.toNat _ ↔ _
  by_cases hpos : 0 < window
  · have hmine : ((callsOf key calls).map Call.now).Pairwise (· ≤ ·) :=
      hsorted.sublist (List.filter_sublist.map Call.now)
    have hiff := bounded_admittedTimes_iff limit window hpos none ⟨[], []⟩ [] []
      ((callsOf key calls).map Call.now) (held_start limit window)
      (fun start => Nat.zero_le _) hmine (fun _ _ _ hmem => absurd hmem List.not_mem_nil)
    rw [List.nil_append] at hiff
    exact hiff
  · -- An interval without length has nothing in it.
    refine iff_of_true (fun start => ?_) ?_
    · have hzero : within window start
          (admittedTimes limit window none ((callsOf key calls).map Call.now)) = 0 := by
        unfold within
        rw [List.countP_eq_zero]
        intro t _
        rw [decide_eq_true_eq]
        omega
      omega
    · exact along_of_forall_mem _ _ _ _ (fun _ _ _ h => absurd h hpos)

/-- A session that comes back late enough, and a call without one. -/
def twoBuckets : List Call :=
  [⟨some "a", 0⟩, ⟨some "a", 10⟩, ⟨none, 20⟩, ⟨some "a", 30⟩, ⟨some "a", 70⟩, ⟨some "a", 75⟩]

theorem quota_bounds_iff_two :
    KeepsLimit (.new 2 60) twoBuckets ∧ Independent (.new 2 60) twoBuckets := by
  refine (quota_bounds_iff 2 60 twoBuckets (by decide)).mpr (fun key => ?_)
  by_cases ha : key = "a"
  · rw [ha]
    unfold AllFit
    decide
  · by_cases hglobal : key = "global"
    · rw [hglobal]
      unfold AllFit
      decide
    · have hnone : callsOf key twoBuckets = [] := by
        rw [callsOf, List.filter_eq_nil_iff]
        intro call hcall heq
        have hkeys : ∀ call ∈ twoBuckets, call.key = "a" ∨ call.key = "global" := by decide
        rw [beq_iff_eq] at heq
        rcases hkeys call hcall with hkey | hkey
        · exact ha (heq.symm.trans hkey)
        · exact hglobal (heq.symm.trans hkey)
      rw [hnone]
      trivial

/-- A limit of two calls in sixty: the second call of a window and the two of the next
    one come within two of each other. -/
theorem quota_straddled :
    ¬KeepsLimit (.new 2 60) [⟨some "a", 0⟩, ⟨some "a", 59⟩, ⟨some "a", 60⟩, ⟨some "a", 61⟩] :=
  fun h => absurd (h "a" 59) (by decide)

end Quota

end Gateway

end DccMcp
