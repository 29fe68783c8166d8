import DccMcp.Lib.Machine
import DccMcp.Lib.OrderedMap
import DccMcp.Lib.Threads
import DccMcp.Scheduler.Template
import Mathlib.Data.List.Nodup
import Mathlib.Data.String.Basic

/-!
# The Concurrency Gate of the Scheduler

A schedule fires when its cron task wakes up or when its webhook is called.
Either way the fire first takes a slot of the schedule, is then handed to the
sink, and keeps the slot until the host reports that its workflow has ended.
A fire the sink refuses gives the slot back itself. The three places are in
three functions, and between any two of them other fires and reports can
happen: the counter of a schedule is right only if every fire that took a slot
gives it back once.

What makes this work is that the test and the increment are one access to the
entry of the schedule. So `Tracked` is kept by every step: the counter of a
schedule with a cap is the number of fires that hold a slot, and within the
cap. A schedule without a cap is counted for show, in a counter that wraps;
there the counter is never above the number of holders, which is enough for it
to be zero when there are none.

A host may report the end of a workflow while the sink call that enqueued it
has not returned yet. Such a report gives the slot back early, and the fire
holds none when it becomes accepted.

## Main definitions

* `ScheduleSpec`, `validate`, `SchedulerConfig`, `fromSpecs`: Schedules with
  different ids.
* `tryAcquire`, `release`, `inFlight`: The tracker.
* `verifyHubSignature256`, `requestPayload`: What a webhook checks before.
* `Place`, `State`, `Action`, `step`: The fires and the steps of the service.
* `running`, `held`: The accepted fires that have not ended, and the slots.
* `Tracked`: The invariant of the counter of a schedule.

## Theorems

* `tracked_step`, `tracked_run`: What a step keeps, every run keeps.
* `concurrency_cap`: The cap, the release of a failed fire, and the way back
  to zero.
-/

namespace DccMcp

namespace Scheduler

open Json (Value)
open Machine
open Threads (countP_move)

/-- How a schedule is triggered. -/
inductive TriggerSpec
  | cron (expression timezone : String) (jitterSecs : UInt32)
  | webhook (path : String) (secretEnv : Option String)
  deriving DecidableEq

structure ScheduleSpec where
  id : String
  workflow : String
  inputs : Value
  trigger : TriggerSpec
  enabled : Bool
  maxConcurrent : UInt32

/-- The errors of `validate` and `from_specs`. -/
inductive SchedulerError
  | invalidCron (expression message : String)
  | invalidTimezone (timezone : String)
  | duplicateId (id : String)
  | validation (message : String)
  deriving DecidableEq

/-- What the service is given from outside: the parser of cron expressions,
    which may object, the time zones, the environment at the start, the MAC in
    hexadecimal digits, and the JSON parser and serializer. -/
structure Outside where
  cronError : String → Option String
  knownTimezone : String → Bool
  env : String → Option Bytes
  hmacSha256Hex : Bytes → Bytes → String
  fromSlice : Bytes → Except String Value
  text : Value → String

variable (o : Outside)

/-! ## Schedules -/

/-- `ScheduleSpec::validate`: what is wrong with a schedule, if anything. -/
def validate (spec : ScheduleSpec) : Option SchedulerError :=
  if Text.trim spec.id = "" then some (.validation "schedule id is empty")
  else if Text.trim spec.workflow = "" then
    some (.validation ("schedule " ++ Workflow.debugText spec.id ++ ": workflow name is empty"))
  else
    match spec.trigger with
    | .cron expression timezone _ =>
      match o.cronError expression with
      | some message => some (.invalidCron expression message)
      | none => if o.knownTimezone timezone then none else some (.invalidTimezone timezone)
    | .webhook path _ =>
      if Text.trim path = "" ∨ Text.startsWith "/" path = false then
        some (.validation
          ("schedule " ++ Workflow.debugText spec.id ++ ": webhook path must start with '/'"))
      else none

/-- The loop of `from_specs`, with the ids seen so far. -/
def checkSpecs (seen : List String) : List ScheduleSpec → Option SchedulerError
  | [] => none
  | s :: rest =>
    match validate o s with
    | some e => some e
    | none => if s.id ∈ seen then some (.duplicateId s.id) else checkSpecs (s.id :: seen) rest

/-- The loop finds nothing wrong with specs that are right one by one and have
    ids of their own. -/
theorem checkSpecs_eq_none (seen : List String) (specs : List ScheduleSpec) :
    checkSpecs o seen specs = none ↔
      (∀ s ∈ specs, validate o s = none ∧ s.id ∉ seen) ∧
        (specs.map ScheduleSpec.id).Nodup := by
  induction specs generalizing seen with
  | nil => simp [checkSpecs]
  | cons first rest ih =>
      simp only [checkSpecs, List.forall_mem_cons, List.map_cons, List.nodup_cons]
      cases hvalid : validate o first with
      | some e => simp
      | none =>
          by_cases hseen : first.id ∈ seen
          · simp [hseen]
          · simp only [if_neg hseen, ih, List.mem_cons, not_or]
            constructor
            · rintro ⟨hrest, hnodup⟩
              refine ⟨⟨⟨trivial, hseen⟩, fun s hs => ⟨(hrest s hs).1, (hrest s hs).2.2⟩⟩,
                fun hmem => ?_, hnodup⟩
              obtain ⟨s, hs, hid⟩ := List.mem_map.mp hmem
              exact (hrest s hs).2.1 hid
            · rintro ⟨⟨_, hrest⟩, hfresh, hnodup⟩
              exact ⟨fun s hs => ⟨(hrest s hs).1,
                fun hid => hfresh (List.mem_map.mpr ⟨s, hs, hid⟩), (hrest s hs).2⟩, hnodup⟩

theorem nodup_of_checkSpecs (seen : List String) (specs : List ScheduleSpec)
    (h : checkSpecs o seen specs = none) :
    (specs.map ScheduleSpec.id).Nodup ∧ ∀ s ∈ specs, s.id ∉ seen :=
  have hspecs := (checkSpecs_eq_none o seen specs).mp h
  ⟨hspecs.2, fun s hs => (hspecs.1 s hs).2⟩

/-- `SchedulerConfig`: schedules with different ids. -/
structure SchedulerConfig where
  schedules : List ScheduleSpec
  unique : (schedules.map ScheduleSpec.id).Nodup

def fromSpecs (schedules : List ScheduleSpec) : Except SchedulerError SchedulerConfig :=
  match h : checkSpecs o [] schedules with
  | some e => .error e
  | none => .ok ⟨schedules, (nodup_of_checkSpecs o [] schedules h).1⟩

/-- The id of a schedule determines it. -/
theorem SchedulerConfig.eq_of_id (config : SchedulerConfig) (s t : ScheduleSpec)
    (hs : s ∈ config.schedules) (ht : t ∈ config.schedules) (hid : s.id = t.id) : s = t :=
  List.inj_on_of_nodup_map config.unique hs ht hid

/-! ## The tracker -/

/-- `ConcurrencyTracker`: the counters of the schedules. -/
abbrev Tracker := OrderedMap String UInt32

/-- `try_acquire`: whether there was a slot, and the counters afterwards. -/
def tryAcquire (tracker : Tracker) (id : String) (max : UInt32) : Bool × Tracker :=
  let entry := (tracker.lookup id).getD 0
  -- Without a cap the counter is for show, and wraps.
  if max = 0 then (true, tracker.insert id (entry + 1))
  else if max ≤ entry then (false, tracker.insert id entry)
  else (true, tracker.insert id (entry + 1))

/-- `u32::saturating_sub(1)`. -/
def saturatingPred (n : UInt32) : UInt32 := if n = 0 then 0 else n - 1

def release (tracker : Tracker) (id : String) : Tracker := tracker.modify id saturatingPred

def inFlight (tracker : Tracker) (id : String) : UInt32 := (tracker.lookup id).getD 0

theorem toNat_saturatingPred (n : UInt32) : (saturatingPred n).toNat = n.toNat - 1 := by
  unfold saturatingPred
  split
  next h => rw [h]; rfl
  next h =>
    have hpos : n.toNat ≠ 0 := fun h0 => h (UInt32.toNat_inj.mp h0)
    exact UInt32.toNat_sub_of_le n 1 (UInt32.le_iff_toNat_le.mpr (by
      have hone : (1 : UInt32).toNat = 1 := rfl
      omega))

theorem inFlight_release (tracker : Tracker) (id id' : String) :
    (inFlight (release tracker id) id').toNat =
      if id' = id then (inFlight tracker id').toNat - 1 else (inFlight tracker id').toNat := by
  unfold inFlight release
  rw [OrderedMap.lookup_modify]
  split
  next =>
    cases tracker.lookup id' with
    | none => rfl
    | some n => exact toNat_saturatingPred n
  next => rfl

theorem tryAcquire_eq (tracker : Tracker) (id : String) (max : UInt32) :
    tryAcquire tracker id max =
      if max = 0 ∨ inFlight tracker id < max then
        (true, tracker.insert id (inFlight tracker id + 1))
      else (false, tracker.insert id (inFlight tracker id)) := by
  unfold tryAcquire inFlight
  by_cases hmax : max = 0
  · rw [if_pos hmax, if_pos (.inl hmax)]
  · by_cases hfull : max ≤ (tracker.lookup id).getD 0
    · rw [if_neg hmax, if_pos hfull, if_neg]
      rintro (h | h)
      · exact hmax h
      · exact UInt32.not_lt.mpr hfull h
    · rw [if_neg hmax, if_neg hfull, if_pos (.inr (UInt32.not_le.mp hfull))]

theorem tryAcquire_fst (tracker : Tracker) (id : String) (max : UInt32) :
    (tryAcquire tracker id max).1 = true ↔ max = 0 ∨ inFlight tracker id < max := by
  rw [tryAcquire_eq]
  split
  next h => exact iff_of_true rfl h
  next h => exact iff_of_false Bool.false_ne_true h

/-- An acquisition counts its schedule up if there was a slot. -/
theorem inFlight_tryAcquire (tracker : Tracker) (id id' : String) (max : UInt32) :
    inFlight (tryAcquire tracker id max).2 id' =
      if id' = id ∧ (tryAcquire tracker id max).1 = true then inFlight tracker id' + 1
      else inFlight tracker id' := by
  have hinsert : ∀ n : UInt32, inFlight (tracker.insert id n) id' =
      if id' = id then n else inFlight tracker id' := by
    intro n
    unfold inFlight
    split
    next hid => rw [hid, OrderedMap.lookup_insert, Option.getD_some]
    next hid => rw [OrderedMap.lookup_insert_ne _ _ _ _ hid]
  rw [tryAcquire_eq]
  split
  next =>
    rw [hinsert]
    by_cases hid : id' = id
    · rw [if_pos hid, if_pos ⟨hid, rfl⟩, hid]
    · rw [if_neg hid, if_neg (fun h => hid h.1)]
  next =>
    rw [hinsert]
    by_cases hid : id' = id
    · rw [if_pos hid, if_neg (fun h => Bool.false_ne_true h.2), hid]
    · rw [if_neg hid, if_neg (fun h => hid h.1)]

/-! ## Webhooks -/

def computeSignature (secret body : Bytes) : String := "sha256=" ++ o.hmacSha256Hex secret body

def constantTimeEqIgnorePrefixCase (expected got : String) : Bool :=
  match Text.splitOnce "=" expected, Text.splitOnce "=" got with
  | some (aPrefix, aHex), some (bPrefix, bHex) =>
    Text.eqIgnoreAsciiCase aPrefix bPrefix && Text.utf8 aHex == Text.utf8 bHex
  | _, _ => false

def verifyHubSignature256 (secret body : Bytes) (headerValue : Option String) : Bool :=
  match headerValue with
  | none => false
  | some header => constantTimeEqIgnorePrefixCase (computeSignature o secret body) header

/-- An answer to a webhook request. -/
structure Response where
  status : Nat
  body : Value

/-- The part of `handle_webhook` in front of the gate: the payload, or the
    answer that refuses the request. -/
def requestPayload (secretEnv : Option String) (header : Option String) (body : Bytes) :
    Except Response Value :=
  let payload : Except Response Value :=
    if body = [] then .ok (.object [])
    else
      match o.fromSlice body with
      | .ok value => .ok value
      | .error message =>
        .error ⟨400, .object [("error", .string "invalid_json"), ("message", .string message)]⟩
  match secretEnv with
  | none => payload
  | some var =>
    match o.env var with
    | none =>
      .error ⟨500, .object [("error", .string "webhook_secret_missing"), ("env", .string var)]⟩
    | some key =>
      if verifyHubSignature256 o key body header then payload
      else .error ⟨401, .object [("error", .string "invalid_signature")]⟩

/-! ## The service -/

/-- Origin of a fire event. -/
inductive TriggerKind
  | cron
  | webhook
  deriving DecidableEq

structure TriggerFire where
  kind : TriggerKind
  scheduleId : String
  workflow : String
  inputs : Value
  payload : Value
  firedAt : UInt64

/-- The fire of a schedule. -/
def ScheduleSpec.fire (spec : ScheduleSpec) (kind : TriggerKind) (payload : Value)
    (firedAt : UInt64) : TriggerFire where
  kind := kind
  scheduleId := spec.id
  workflow := spec.workflow
  inputs := renderValue o.text ⟨payload, spec.id, spec.workflow⟩ spec.inputs
  payload := payload
  firedAt := firedAt

/-- Where a fire is. In the sink and behind it, `ended` says that the host has
    reported its workflow as terminal. -/
inductive Place
  | refused (spec : ScheduleSpec)
  | calling (fire : TriggerFire) (ended : Bool)
  | accepted (fire : TriggerFire) (ended : Bool)
  | failed (fire : TriggerFire) (message : String)
  | finished

/-- The fire holds a slot of the schedule. -/
def Place.holds (id : String) : Place → Bool
  | .calling fire ended => fire.scheduleId == id && !ended
  | .accepted fire ended => fire.scheduleId == id && !ended
  | .failed fire _ => fire.scheduleId == id
  | _ => false

/-- The fire was accepted and has not ended. -/
def Place.isRunning (id : String) : Place → Bool
  | .accepted fire ended => fire.scheduleId == id && !ended
  | _ => false

/-- The fire is in the loop of the cron task of the schedule. -/
def Place.isInTask (id : String) : Place → Bool
  | .calling fire _ => fire.kind == .cron && fire.scheduleId == id
  | .failed fire _ => fire.kind == .cron && fire.scheduleId == id
  | _ => false

/-- The tracker, every fire so far, and the answers to the webhooks. -/
structure State where
  tracker : Tracker
  fires : List Place
  responses : List Response

def start : State := ⟨OrderedMap.empty _ _, [], []⟩

namespace State

/-- The fires that hold a slot of the schedule. -/
def held (s : State) (id : String) : Nat := s.fires.countP (Place.holds id)

/-- The fires of the schedule that were accepted and have not ended. -/
def running (s : State) (id : String) : Nat := s.fires.countP (Place.isRunning id)

/-- A fire goes to another place. -/
def move (s : State) (n : Nat) (place : Place) : State := { s with fires := s.fires.set n place }

/-- The slot of a schedule is given back. -/
def freed (s : State) (id : String) : State := { s with tracker := release s.tracker id }

def answer (s : State) (response : Response) : State :=
  { s with responses := s.responses ++ [response] }

/-- A fire goes through the gate, or is refused. -/
def gate (s : State) (spec : ScheduleSpec) (fire : TriggerFire) : State :=
  match tryAcquire s.tracker spec.id spec.maxConcurrent with
  | (true, tracker) => { s with tracker := tracker, fires := s.fires ++ [.calling fire false] }
  | (false, tracker) => { s with tracker := tracker, fires := s.fires ++ [.refused spec] }

end State

/-- One step: a fire at the gate, the return of a sink call, the release after
    a refusal, and the report of the host. -/
inductive Action
  | cronFire (i : Nat) (firedAt : UInt64)
  | webhook (i : Nat) (header : Option String) (body : Bytes) (firedAt : UInt64)
  | refuse (n : Nat)
  | sinkOk (n : Nat)
  | sinkErr (n : Nat) (message : String)
  | release (n : Nat)
  | markTerminal (n : Nat)

/-- What a webhook answers to an accepted fire. -/
def enqueuedResponse (fire : TriggerFire) : Response :=
  ⟨202, .object [("status", .string "enqueued"), ("schedule_id", .string fire.scheduleId),
    ("workflow", .string fire.workflow), ("inputs", fire.inputs)]⟩

/-- What a webhook answers if the sink has failed. -/
def sinkFailedResponse (message : String) : Response :=
  ⟨500, .object [("error", .string "sink_failed"), ("message", .string message)]⟩

/-- What a webhook answers if there was no slot. The counter is read again. -/
def maxConcurrentResponse (spec : ScheduleSpec) (tracker : Tracker) : Response :=
  ⟨429, .object [("error", .string "max_concurrent_exceeded"), ("schedule_id", .string spec.id),
    ("in_flight", .number (.posInt (inFlight tracker spec.id).toUInt64)),
    ("max_concurrent", .number (.posInt spec.maxConcurrent.toUInt64))]⟩

/-- An answer is given to a webhook; a cron task only logs. -/
def State.answerTo (s : State) (kind : TriggerKind) (response : Response) : State :=
  match kind with
  | .cron => s
  | .webhook => s.answer response

variable (config : SchedulerConfig)

/-- What the steps do. -/
def step (s : State) : Action → Option State
  -- The cron task of a schedule fires again only after its last sink call.
  | .cronFire i firedAt =>
    match config.schedules[i]? with
    | none => none
    | some spec =>
      match spec.trigger with
      | .cron expression _ _ =>
        if spec.enabled ∧ o.cronError expression = none ∧
            s.fires.any (Place.isInTask spec.id) = false then
          some (s.gate spec (spec.fire o .cron (.object []) firedAt))
        else none
      | .webhook _ _ => none
  | .webhook i header body firedAt =>
    match config.schedules[i]? with
    | none => none
    | some spec =>
      match spec.trigger with
      | .cron _ _ _ => none
      | .webhook _ secretEnv =>
        if spec.enabled then
          match requestPayload o secretEnv header body with
          | .error response => some (s.answer response)
          | .ok payload => some (s.gate spec (spec.fire o .webhook payload firedAt))
        else none
  | .refuse n =>
    match s.fires[n]? with
    | some (.refused spec) =>
      match spec.trigger with
      | .cron _ _ _ => some (s.move n .finished)
      | .webhook _ _ => some ((s.answer (maxConcurrentResponse spec s.tracker)).move n .finished)
    | _ => none
  | .sinkOk n =>
    match s.fires[n]? with
    | some (.calling fire ended) =>
      some ((s.answerTo fire.kind (enqueuedResponse fire)).move n (.accepted fire ended))
    | _ => none
  -- The host reports no fire that the sink refuses.
  | .sinkErr n message =>
    match s.fires[n]? with
    | some (.calling fire false) => some (s.move n (.failed fire message))
    | _ => none
  | .release n =>
    match s.fires[n]? with
    | some (.failed fire message) =>
      some (((s.freed fire.scheduleId).answerTo fire.kind (sinkFailedResponse message)).move n
        .finished)
    | _ => none
  -- `mark_terminal`, once for a fire, as early as the sink has it.
  | .markTerminal n =>
    match s.fires[n]? with
    | some (.calling fire false) => some ((s.freed fire.scheduleId).move n (.calling fire true))
    | some (.accepted fire false) => some ((s.freed fire.scheduleId).move n (.accepted fire true))
    | _ => none

/-! ## What a step can do -/

/-- Everything a step can do to the tracker and to the fires. -/
inductive Effect (s t : State) : Prop
  | same (htracker : t.tracker = s.tracker) (hfires : t.fires = s.fires)
  | gated (spec : ScheduleSpec) (fire : TriggerFire) (hspec : spec ∈ config.schedules)
      (hid : fire.scheduleId = spec.id) (ht : t = s.gate spec fire)
  | moved (n : Nat) (old new : Place) (hold : s.fires[n]? = some old)
      (htracker : t.tracker = s.tracker) (hfires : t.fires = s.fires.set n new)
      (hholds : ∀ id, new.holds id = old.holds id)
  | freed (n : Nat) (old new : Place) (id : String) (hold : s.fires[n]? = some old)
      (htracker : t.tracker = release s.tracker id) (hfires : t.fires = s.fires.set n new)
      (hnew : ∀ id', new.holds id' = false) (hholds : ∀ id', old.holds id' = (id == id'))

theorem answerTo_tracker (s : State) (kind : TriggerKind) (response : Response) :
    (s.answerTo kind response).tracker = s.tracker ∧
      (s.answerTo kind response).fires = s.fires := by
  cases kind with
  | cron => exact ⟨rfl, rfl⟩
  | webhook => exact ⟨rfl, rfl⟩

theorem effect_of_step (s t : State) (a : Action) (h : step o config s a = some t) :
    Effect config s t := by
  -- One case for each action, and the place its fire has to be at.
  cases a with
  | cronFire i firedAt =>
      simp only [step] at h
      split at h
      next => simp only [reduceCtorEq] at h
      next spec hspec =>
        split at h
        next =>
          split at h
          next =>
            exact .gated spec _ (List.mem_of_getElem? hspec) rfl (Option.some.inj h).symm
          next => simp at h
        next => simp at h
  | webhook i header body firedAt =>
      simp only [step] at h
      split at h
      next => simp only [reduceCtorEq] at h
      next spec hspec =>
        split at h
        next => simp only [reduceCtorEq] at h
        next =>
          split at h
          next =>
            split at h
            next response _ =>
              rw [← Option.some.inj h]
              exact .same rfl rfl
            next =>
              exact .gated spec _ (List.mem_of_getElem? hspec) rfl (Option.some.inj h).symm
          next => simp at h
  | refuse n =>
      simp only [step] at h
      split at h
      next spec hold =>
        split at h
        · rw [← Option.some.inj h]
          exact .moved n _ .finished hold rfl rfl (fun id => rfl)
        · rw [← Option.some.inj h]
          exact .moved n _ .finished hold rfl rfl (fun id => rfl)
      next => simp at h
  | sinkOk n =>
      simp only [step] at h
      split at h
      next fire ended hold =>
        have hanswer := answerTo_tracker s fire.kind (enqueuedResponse fire)
        rw [← Option.some.inj h]
        exact .moved n _ (.accepted fire ended) hold hanswer.1
          (congrArg (List.set · n (Place.accepted fire ended)) hanswer.2) (fun id => rfl)
      next => simp at h
  | sinkErr n message =>
      simp only [step] at h
      split at h
      next fire hold =>
        rw [← Option.some.inj h]
        refine .moved n _ (.failed fire message) hold rfl rfl (fun id => ?_)
        simp [Place.holds]
      next => simp at h
  | release n =>
      simp only [step] at h
      split at h
      next fire message hold =>
        have hanswer :=
          answerTo_tracker (s.freed fire.scheduleId) fire.kind (sinkFailedResponse message)
        rw [← Option.some.inj h]
        exact .freed n _ .finished fire.scheduleId hold hanswer.1
          (congrArg (List.set · n Place.finished) hanswer.2) (fun id' => rfl) (fun id' => rfl)
      next => simp at h
  | markTerminal n =>
      simp only [step] at h
      split at h
      next fire hold =>
        rw [← Option.some.inj h]
        refine .freed n _ (.calling fire true) fire.scheduleId hold rfl rfl (fun id' => ?_)
          (fun id' => ?_)
        · simp [Place.holds]
        · simp [Place.holds]
      next fire hold =>
        rw [← Option.some.inj h]
        refine .freed n _ (.accepted fire true) fire.scheduleId hold rfl rfl (fun id' => ?_)
          (fun id' => ?_)
        · simp [Place.holds]
        · simp [Place.holds]
      next => simp at h

/-! ## The invariant -/

/-- The counter of a schedule with a cap counts the fires that hold a slot, and
    there are not more than the cap. Without a cap it counts not more than
    there are. -/
structure Tracked (spec : ScheduleSpec) (s : State) : Prop where
  counted : spec.maxConcurrent ≠ 0 → (inFlight s.tracker spec.id).toNat = s.held spec.id
  capped : spec.maxConcurrent ≠ 0 → s.held spec.id ≤ spec.maxConcurrent.toNat
  bounded : (inFlight s.tracker spec.id).toNat ≤ s.held spec.id

/-- What the gate does to the slots and to the counter of a schedule. -/
theorem held_gate (s : State) (spec : ScheduleSpec) (fire : TriggerFire) (id : String)
    (hid : fire.scheduleId = spec.id) :
    ((s.gate spec fire).held id = s.held id ∧
        inFlight (s.gate spec fire).tracker id = inFlight s.tracker id) ∨
      (id = spec.id ∧ (spec.maxConcurrent = 0 ∨ inFlight s.tracker id < spec.maxConcurrent) ∧
        (s.gate spec fire).held id = s.held id + 1 ∧
        inFlight (s.gate spec fire).tracker id = inFlight s.tracker id + 1) := by
  have hcounter := inFlight_tryAcquire s.tracker spec.id id spec.maxConcurrent
  have hadmits := tryAcquire_fst s.tracker spec.id spec.maxConcurrent
  unfold State.gate State.held
  split
  next tracker htry =>
    -- It is let through, and counted where it is let through.
    rw [htry] at hcounter hadmits
    simp only [List.countP_append, List.countP_singleton, Place.holds, Bool.not_false,
      Bool.and_true, hid, beq_iff_eq]
    by_cases heq : id = spec.id
    · right
      rw [if_pos ⟨heq, rfl⟩] at hcounter
      rw [if_pos heq.symm]
      exact ⟨heq, heq ▸ hadmits.mp rfl, rfl, hcounter⟩
    · left
      rw [if_neg (fun h => heq h.1)] at hcounter
      rw [if_neg (fun h => heq h.symm)]
      exact ⟨rfl, hcounter⟩
  next tracker htry =>
    left
    rw [htry, if_neg (fun h => Bool.false_ne_true h.2)] at hcounter
    simp only [List.countP_append, List.countP_singleton, Place.holds, Bool.false_eq_true,
      if_false, Nat.add_zero, true_and]
    exact hcounter

/-- A counter that goes up by one, with or without wrapping. -/
theorem toNat_succ_le (n : UInt32) : (n + 1).toNat ≤ n.toNat + 1 := by
  rw [UInt32.toNat_add]
  exact Nat.mod_le _ _

theorem toNat_succ (n m : UInt32) (h : n < m) : (n + 1).toNat = n.toNat + 1 := by
  have hlt := UInt32.lt_iff_toNat_lt.mp h
  have hm := m.toNat_lt
  rw [UInt32.toNat_add]
  exact Nat.mod_eq_of_lt (by
    have hone : (1 : UInt32).toNat = 1 := rfl
    omega)

/-- The invariant looks at the counter and at the slots. -/
theorem tracked_congr (spec : ScheduleSpec) (s t : State) (h : Tracked spec s)
    (hheld : t.held spec.id = s.held spec.id)
    (hcount : inFlight t.tracker spec.id = inFlight s.tracker spec.id) : Tracked spec t where
  counted := by
    rw [hheld, hcount]
    exact h.counted
  capped := by
    rw [hheld]
    exact h.capped
  bounded := by
    rw [hheld, hcount]
    exact h.bounded

theorem tracked_start (spec : ScheduleSpec) : Tracked spec start where
  counted := fun _ => rfl
  capped := fun _ => Nat.zero_le _
  bounded := Nat.le_refl 0

theorem tracked_step (s t : State) (a : Action) (spec : ScheduleSpec)
    (hspec : spec ∈ config.schedules) (h : Tracked spec s) (hstep : step o config s a = some t) :
    Tracked spec t := by
  cases effect_of_step o config s t a hstep with
  | same htracker hfires =>
      refine tracked_congr spec s t h ?_ (by rw [htracker])
      unfold State.held
      rw [hfires]
  | gated spec' fire hspec' hid ht =>
      rw [ht]
      rcases held_gate s spec' fire spec.id hid with ⟨hheld, hcount⟩ | ⟨heq, hroom, hheld, hcount⟩
      · exact tracked_congr spec s _ h hheld hcount
      · -- The ids are the same, so it was the gate of this schedule.
        have hsame : spec = spec' := config.eq_of_id spec spec' hspec hspec' heq
        rw [← hsame] at hroom
        rw [← hsame] at hheld hcount ⊢
        constructor
        · intro hmax
          rw [hheld, hcount, toNat_succ _ _ (hroom.resolve_left hmax), h.counted hmax]
        · intro hmax
          have hlt := UInt32.lt_iff_toNat_lt.mp (hroom.resolve_left hmax)
          have hcounted := h.counted hmax
          rw [hheld]
          omega
        · have hle := toNat_succ_le (inFlight s.tracker spec.id)
          have hbounded := h.bounded
          rw [hheld, hcount]
          omega
  | moved n old new hold htracker hfires hholds =>
      refine tracked_congr spec s t h ?_ (by rw [htracker])
      have hcount := countP_move (Place.holds spec.id) s.fires n old new hold
      rw [hholds, Nat.add_right_cancel_iff, ← hfires] at hcount
      exact hcount
  | freed n old new id hold htracker hfires hnew hholds =>
      have hcount := countP_move (Place.holds spec.id) s.fires n old new hold
      rw [hnew, hholds, ← hfires] at hcount
      have hheld : t.held spec.id + (id == spec.id).toNat = s.held spec.id := hcount
      have hflight := inFlight_release s.tracker id spec.id
      rw [← htracker] at hflight
      by_cases heq : spec.id = id
      · -- One slot less and one less in the counter, if there is a counter.
        rw [if_pos heq] at hflight
        rw [heq, beq_self_eq_true, Bool.toNat_true, ← heq] at hheld
        have hcapped := h.capped
        have hcounted := h.counted
        have hbounded := h.bounded
        constructor
        · intro hmax
          have hequal := hcounted hmax
          omega
        · intro hmax
          have hle := hcapped hmax
          omega
        · omega
      · -- The slot is one of another schedule.
        rw [if_neg heq] at hflight
        rw [beq_false_of_ne (Ne.symm heq), Bool.toNat_false, Nat.add_zero] at hheld
        exact tracked_congr spec s t h hheld (UInt32.toNat_inj.mp hflight)

theorem tracked_run (s : State) (actions : List Action) (spec : ScheduleSpec)
    (hspec : spec ∈ config.schedules) (hrun : exec (step o config) start actions = some s) :
    Tracked spec s :=
  exec_invariant (step o config) (Tracked spec)
    (fun s a t h hstep => tracked_step o config s t a spec hspec h hstep) start s actions
    (tracked_start spec) hrun

theorem running_le_held (s : State) (id : String) : s.running id ≤ s.held id := by
  unfold State.running State.held
  refine List.countP_mono_left (fun place _ h => ?_)
  cases place with
  | accepted fire ended => exact h
  | _ => exact absurd h Bool.false_ne_true

/-- The release of a fire whose sink call has failed. -/
theorem release_failed (s : State) (n : Nat) (fire : TriggerFire) (message : String)
    (hold : s.fires[n]? = some (.failed fire message)) :
    ∃ t, step o config s (.release n) = some t ∧
      t.held fire.scheduleId + 1 = s.held fire.scheduleId ∧
        (inFlight t.tracker fire.scheduleId).toNat =
          (inFlight s.tracker fire.scheduleId).toNat - 1 := by
  have hstep : step o config s (.release n) =
      some (((s.freed fire.scheduleId).answerTo fire.kind (sinkFailedResponse message)).move n
        .finished) := by
    simp only [step, hold]
  have hanswer :=
    answerTo_tracker (s.freed fire.scheduleId) fire.kind (sinkFailedResponse message)
  refine ⟨_, hstep, ?_, ?_⟩
  · -- The fire was among those that hold a slot.
    have hheld := countP_move (Place.holds fire.scheduleId) s.fires n _ .finished hold
    simp only [Place.holds, beq_self_eq_true, Bool.toNat_true, Bool.toNat_false] at hheld
    unfold State.held State.move
    rw [hanswer.2]
    exact hheld
  · have hflight := inFlight_release s.tracker fire.scheduleId fire.scheduleId
    rw [if_pos rfl] at hflight
    unfold State.move
    simp only [hanswer.1]
    exact hflight

/-- A schedule whose fires have all ended, and been released where they failed. -/
theorem held_eq_zero (s : State) (id : String)
    (h : ∀ place ∈ s.fires, match place with
      | .calling fire ended => fire.scheduleId = id → ended = true
      | .accepted fire ended => fire.scheduleId = id → ended = true
      | .failed fire _ => fire.scheduleId ≠ id
      | _ => True) : s.held id = 0 := by
  unfold State.held
  rw [List.countP_eq_zero]
  intro place hplace
  have hended := h place hplace
  cases place with
  | refused _ => exact Bool.false_ne_true
  | finished => exact Bool.false_ne_true
  | failed fire message => exact fun hid => hended (beq_iff_eq.mp hid)
  | calling fire ended =>
      simp only [Place.holds, Bool.and_eq_true, beq_iff_eq, Bool.not_eq_true', not_and,
        Bool.not_eq_false]
      exact hended
  | accepted fire ended =>
      simp only [Place.holds, Bool.and_eq_true, beq_iff_eq, Bool.not_eq_true', not_and,
        Bool.not_eq_false]
      exact hended

/-- The cap. In every run, for every schedule: with a cap, the fires that were
    accepted and have not ended are within it. A fire whose sink call has
    failed is released, which takes it from the fires that hold a slot and
    counts the schedule down. And the schedule is counted as zero when every
    fire that was accepted or is in its sink call has ended and no failed fire
    is still to be released. -/
theorem concurrency_cap (actions : List Action) (s : State)
    (hrun : exec (step o config) start actions = some s) (spec : ScheduleSpec)
    (hspec : spec ∈ config.schedules) :
    (spec.maxConcurrent ≠ 0 → s.running spec.id ≤ spec.maxConcurrent.toNat) ∧
      (∀ (n : Nat) (fire : TriggerFire) (message : String),
        s.fires[n]? = some (.failed fire message) → fire.scheduleId = spec.id →
          ∃ t, step o config s (.release n) = some t ∧ t.held spec.id + 1 = s.held spec.id ∧
            (inFlight t.tracker spec.id).toNat = (inFlight s.tracker spec.id).toNat - 1 ∧
            (spec.maxConcurrent ≠ 0 → inFlight s.tracker spec.id ≠ 0)) ∧
      ((∀ place ∈ s.fires, match place with
          | .calling fire ended => fire.scheduleId = spec.id → ended = true
          | .accepted fire ended => fire.scheduleId = spec.id → ended = true
          | .failed fire _ => fire.scheduleId ≠ spec.id
          | _ => True) →
        inFlight s.tracker spec.id = 0) := by
  have htracked := tracked_run o config s actions spec hspec hrun
  refine ⟨fun hmax => ?_, fun n fire message hold hid => ?_, fun hended => ?_⟩
  · exact Nat.le_trans (running_le_held s spec.id) (htracked.capped hmax)
  · rcases release_failed o config s n fire message hold with ⟨t, hstep, hheld, hflight⟩
    rw [hid] at hheld hflight
    refine ⟨t, hstep, hheld, hflight, fun hmax hzero => ?_⟩
    -- It holds a slot, so the counter is not at zero yet.
    have hcounted := htracked.counted hmax
    rw [hzero] at hcounted
    have hnone : (0 : UInt32).toNat = 0 := rfl
    omega
  · have hbounded := htracked.bounded
    rw [held_eq_zero s spec.id hended] at hbounded
    exact UInt32.toNat_inj.mp (Nat.le_zero.mp hbounded)

/-- An outside for a nightly schedule. -/
def quiet : Outside where
  cronError := fun _ => none
  knownTimezone := fun _ => true
  env := fun _ => none
  hmacSha256Hex := fun _ _ => ""
  fromSlice := fun _ => .error ""
  text := fun _ => ""

def nightly : ScheduleSpec where
  id := "nightly"
  workflow := "cleanup"
  inputs := .null
  trigger := .cron "0 0 3 * * *" "UTC" 0
  enabled := true
  maxConcurrent := 1

def nightlyConfig : SchedulerConfig := ⟨[nightly], List.nodup_singleton _⟩

/-- Two nights: the first fire is accepted and ends, the second one fails. -/
def twoNights : List Action :=
  [.cronFire 0 3, .sinkOk 0, .markTerminal 0, .cronFire 0 6, .sinkErr 1 "gone"]

theorem concurrency_cap_nightly :
    ∃ s, exec (step quiet nightlyConfig) start twoNights = some s ∧ s.running "nightly" ≤ 1 ∧
      inFlight s.tracker "nightly" = 1 := by
  have hrun : ∃ s, exec (step quiet nightlyConfig) start twoNights = some s := by
    rw [← Option.isSome_iff_exists]
    decide
  rcases hrun with ⟨s, hs⟩
  have hcap := concurrency_cap quiet nightlyConfig twoNights s hs nightly List.mem_cons_self
  refine ⟨s, hs, hcap.1 (by decide), ?_⟩
  have hflight : (exec (step quiet nightlyConfig) start twoNights).map
      (fun s => inFlight s.tracker "nightly") = some 1 := by
    decide
  rw [hs] at hflight
  exact Option.some.inj hflight

end Scheduler

end DccMcp
