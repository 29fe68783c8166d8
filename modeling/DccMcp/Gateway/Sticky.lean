import DccMcp.Gateway.Pins

/-!
# Sticky Instances and Aliases

A session that got an instance without naming it gets the same one the next
time, even if a newer one has come; and an alias leads to an instance the
session has a slot for.

The slot a call writes is the one for the DCC of the row it found. The slot it
looks into is the one for the DCC it asks for. These are the same slot when the
call asks for a DCC, since the rows are filtered by it. A call that asks for
none looks into a slot that nobody writes, so it gets the newest instance every
time, and writes this one over what the calls for its DCC have in their slot.

Aliases are looked through when slots are removed, and not when a slot is
written. So an alias goes on naming the instance it was made for when the slot
has another one.

## Main definitions

* `StickyHolds`: What is asked of a list of calls.
* `Settled`: The condition on a call.

## Theorems

* `sticky_holds`: Both properties, when calls are settled.
* `newer_instance_wins`: An instance that does not stick.
-/

namespace DccMcp

namespace Gateway

namespace Resolver

open Machine Registry Text

/-! ## What is asked -/

/-- Filters are the same up to case, as the rows are compared with them. -/
def sameFilter (f g : Option String) : Bool :=
  f.map toAsciiLowercase = g.map toAsciiLowercase

/-- A call of a session for a filter that names no instance. -/
def Unqualified (s : String) (dccFilter : Option String) : Action → Prop
  | .resolve instanceHint other session _ _ _ =>
    sessionKey session = some s ∧ hintOf instanceHint = none ∧ sameFilter other dccFilter = true
  | _ => False

/-- A call by which a session binds or unbinds something. -/
def Binds (s : String) : Action → Prop
  | .bind session _ _ _ _ => sessionKey session = some s
  | .unbind session _ _ => sessionKey session = some s
  | .resolve .. => False

/-- What a call of a session returns that names no instance, the next such call
    for the same filter returns again, if it is among the candidates, the session
    has not bound or unbound anything in between, and the slot was not removed. -/
def StickyHolds (lib : Library) (calls : List Action) : Prop :=
  ∀ before hint dccFilter session live now recordedAt between hint' dccFilter' session' live' now'
    recordedAt' s r,
    calls = before ++ .resolve hint dccFilter session live now recordedAt ::
        (between ++ [.resolve hint' dccFilter' session' live' now' recordedAt']) →
      sessionKey session = some s → Unqualified s dccFilter
        (.resolve hint dccFilter session live now recordedAt) →
      Unqualified s dccFilter (.resolve hint' dccFilter' session' live' now' recordedAt') →
      answer lib before live hint dccFilter session now recordedAt = .ok r →
      (∀ a ∈ between, ¬Binds s a ∧ ¬Unqualified s dccFilter a) →
      keyOf s r.entry.dccType ∉ (pruneLocked (run lib (before ++
          .resolve hint dccFilter session live now recordedAt :: between)) now').evicted.drop
        (resolveInstanceCandidates lib.parseStr (run lib before) now (candidatesOf live dccFilter)
          hint dccFilter session).1.evicted.length →
      (∃ e ∈ candidatesOf live' dccFilter', e.instanceId = r.entry.instanceId) →
      ∃ r', answer lib (before ++ .resolve hint dccFilter session live now recordedAt :: between)
          live' hint' dccFilter' session' now' recordedAt' = .ok r' ∧
        r'.entry.instanceId = r.entry.instanceId

/-- A call that names no instance asks for a DCC; one that names an instance
    does not lead to another one than the slot of its session for the DCC has;
    and neither leads to another one than an alias has for the DCC. A bind does
    not leave an alias of its session behind, and a slot that gets an alias is
    not removed at once. -/
def Settled (lib : Library) (inner : StickyInner) : Action → Prop
  | .resolve hint dccFilter session live now recordedAt =>
    ∀ s, sessionKey session = some s →
      (hintOf hint = none → dccFilter ≠ none) ∧
        ∀ e, Leads lib.parseStr inner now (candidatesOf live dccFilter) hint dccFilter session e →
          (hintOf hint ≠ none → ∀ id bound, slot (seen inner hint now recordedAt)
            (keyOf s e.dccType) = some (id, bound) → e.instanceId = id) ∧
          ∀ name dcc id, (seen inner hint now recordedAt).aliases.lookup (toLex (s, name)) =
            some (dcc, id) → toLex (s, dcc) = keyOf s e.dccType → e.instanceId = id
  | .bind session dccType id given now =>
    ∀ s, sessionKey session = some s →
      (∀ name dcc other, (pruneLocked inner now).aliases.lookup (toLex (s, name)) =
        some (dcc, other) → toLex (s, dcc) = keyOf s dccType →
          other = id ∨ aliasOf given = some name) ∧
        (aliasOf given ≠ none →
          slot (boundSlots lib.order inner now s dccType id) (keyOf s dccType) ≠ none)
  | .unbind .. => True

/-! ## Stickiness -/

variable (lib : Library) (inner : StickyInner) (live : List ServiceEntry)

/-- The rows a filter lets through are of its DCC. -/
theorem keyOf_of_candidate (f s : String) (e : ServiceEntry) (h : e ∈ candidatesOf live (some f)) :
    keyOf s e.dccType = keyOf s f := by
  have hfilter := (List.mem_filter.mp h).2
  rw [Option.all_some, eqIgnoreAsciiCase, beq_iff_eq] at hfilter
  rw [keyOf, keyOf, hfilter]

theorem session_of_keyOf (s s' : String) (dcc dcc' : String) (h : keyOf s dcc = keyOf s' dcc') :
    s = s' := (Prod.mk.inj (toLex_inj.mp h)).1

/-- A settled call that is not for the same filter does not lead away from the
    slot of a session for the filter. -/
theorem steadyAt_of_settled (s f : String) (a : Action) (hsettled : Settled lib inner a)
    (hother : ¬Unqualified s (some f) a) :
    SteadyAt lib false (keyOf s f) inner a := by
  cases a with
  | bind => exact trivial
  | unbind => exact trivial
  | resolve hint dccFilter session live now recordedAt =>
      intro s' hs' e hleads hkey id bound hslot _
      have hsame := session_of_keyOf s' s _ _ hkey
      subst hsame
      have hcall := hsettled s' hs'
      by_cases hhint : hintOf hint = none
      · -- The call asks for another DCC, and all its rows are of this one.
        cases hfilter : dccFilter with
        | none => exact absurd hfilter (hcall.1 hhint)
        | some g =>
            subst hfilter
            exfalso
            refine hother ⟨hs', hhint, ?_⟩
            have hg := (keyOf_of_candidate live g s' e hleads.1).symm.trans hkey
            rw [sameFilter, decide_eq_true_eq, Option.map_some, Option.map_some,
              (Prod.mk.inj (toLex_inj.mp hg)).2]
      · rw [← hkey] at hslot
        exact (hcall.2 e hleads).1 hhint id bound hslot

theorem not_rebinds (s f : String) (a : Action) (h : ¬Binds s a) : ¬Rebinds (keyOf s f) a := by
  cases a with
  | resolve => exact id
  | bind session dccType id given now =>
      rintro ⟨s', hs', hkey⟩
      rw [session_of_keyOf s' s _ _ hkey] at hs'
      exact h hs'
  | unbind session dccType now =>
      rintro ⟨s', hs', hunbinds⟩
      have hsession := of_decide_eq_true (Bool.and_eq_true_iff.mp hunbinds).1
      rw [← hsession] at hs'
      exact h hs'

/-- The slot right after a call that found a row. -/
theorem held_after_call (hint dccFilter session : Option String) (now recordedAt : Nat) (s : String)
    (r : ResolvedInstance) (hsession : sessionKey session = some s)
    (hout : (resolveInstanceCandidates lib.parseStr inner now (candidatesOf live dccFilter) hint
      dccFilter session).2 = .ok r) :
    Held false (resolveInstanceCandidates lib.parseStr inner now (candidatesOf live dccFilter) hint
        dccFilter session).1.evicted.length (keyOf s r.entry.dccType) r.entry.instanceId
      (next lib inner (.resolve hint dccFilter session live now recordedAt)) := by
  rcases call_ok lib inner live hint dccFilter session now recordedAt s r hsession hout with
    ⟨swept, mid, bound, _, hswept, _, hwrite, hafter⟩
  refine held_evicts false _ _ _ mid _ ⟨?_, .inr ⟨bound, ?_, Bool.noConfusion⟩⟩ hafter
  · rw [hwrite.log]
    exact hswept.log.length_le
  · rw [hwrite.slots, if_pos rfl]

/-! ## Aliases -/

theorem aliasesLive_resolve (hint dccFilter session : Option String) (now recordedAt : Nat)
    (h : AliasesLive inner)
    (hsettled : Settled lib inner (.resolve hint dccFilter session live now recordedAt)) :
    AliasesLive (next lib inner (.resolve hint dccFilter session live now recordedAt)) := by
  rcases call_spec lib inner live hint dccFilter session now recordedAt with hev |
    ⟨s, r, swept, mid, bound, hs, hout, hseen, hswept, _, hwrite, hafter⟩
  · exact hev.live h
  · refine hafter.live (fun session' name dcc id halias => ?_)
    rw [hwrite.aliases] at halias
    have hlive := hswept.live ((evicts_candidates lib.parseStr inner now
      (candidatesOf live dccFilter) hint dccFilter session).live h) session' name dcc id halias
    rw [hwrite.slots]
    split
    next hkey =>
      -- The alias names what the call leads to.
      have hsession := (Prod.mk.inj (toLex_inj.mp hkey)).1
      subst hsession
      have hleads := (leads_of_ok lib.parseStr inner now (candidatesOf live dccFilter) hint
        dccFilter session r hout).1
      have hid := ((hsettled session' hs).2 r.entry hleads).2 name dcc id
        (hseen.aliases _ _ halias) hkey
      rw [hid]
      exact ⟨bound, rfl⟩
    next => exact hlive

theorem aliasesLive_bind (session : Option String) (dccType : String) (id : HyphenatedUuid)
    (given : Option String) (now : Nat)
    (h : AliasesLive inner) (hsettled : Settled lib inner (.bind session dccType id given now)) :
    AliasesLive (next lib inner (.bind session dccType id given now)) := by
  unfold next
  dsimp only
  split
  next => exact h
  next s hs =>
    rcases hsettled s hs with ⟨hnames, hroom⟩
    obtain ⟨mid, hmid⟩ : ∃ mid, mid = { pruneLocked inner now with
        bindings := (pruneLocked inner now).bindings.insert (keyOf s dccType) ⟨id, true, now⟩ } :=
      ⟨_, rfl⟩
    have hwrite : Writes (keyOf s dccType) (id, true) (pruneLocked inner now) mid := by
      rw [hmid]
      exact writes_insert _ _ id true now
    have hbound : boundSlots lib.order inner now s dccType id =
        enforceCapacityLocked lib.order mid := by
      rw [hmid]
      rfl
    -- An alias that stays names the slot it was made for.
    have hstays : ∀ session' name dcc other, aliasOf given ≠ some name ∨ session' ≠ s →
        (boundSlots lib.order inner now s dccType id).aliases.lookup (toLex (session', name)) =
          some (dcc, other) → ∃ bound, slot (boundSlots lib.order inner now s dccType id)
            (toLex (session', dcc)) = some (other, bound) := by
      intro session' name dcc other hname halias
      rw [hbound] at halias ⊢
      rcases enforceCapacity_cases lib.order mid with hsame | hlive
      · rw [hsame] at halias ⊢
        rw [hwrite.aliases] at halias
        rw [hwrite.slots]
        split
        next hkey =>
          have hsession := (Prod.mk.inj (toLex_inj.mp hkey)).1
          subst hsession
          rcases hnames name dcc other halias hkey with rfl | hgiven
          · exact ⟨true, rfl⟩
          · rcases hname with hname | hname
            · exact absurd hgiven hname
            · exact absurd rfl hname
        next => exact (evicts_prune inner now).live h session' name dcc other halias
      · exact hlive session' name dcc other halias
    rw [bind_eq]
    split
    next name hgiven =>
      intro session' name' dcc other halias
      by_cases hkey : toLex (session', name') = toLex (s, name)
      · rw [hkey, OrderedMap.lookup_insert, Option.some.injEq, Prod.mk.injEq] at halias
        have hslot : slot (boundSlots lib.order inner now s dccType id) (keyOf s dccType) =
            some (id, true) := by
          have hkept := hroom (by rw [hgiven]; exact Option.some_ne_none name)
          rw [hbound] at hkept ⊢
          rcases (evicts_enforceCapacity lib.order mid).slots (keyOf s dccType) with hsame | hnone
          · rw [hsame, hwrite.slots, if_pos rfl]
          · exact absurd hnone.1 hkept
        rw [← halias.1, ← halias.2, (Prod.mk.inj (toLex_inj.mp hkey)).1]
        exact ⟨true, hslot⟩
      · rw [OrderedMap.lookup_insert_ne _ _ _ _ hkey] at halias
        refine hstays session' name' dcc other ?_ halias
        by_cases hsession : session' = s
        · left
          intro hsame
          rw [hgiven, Option.some.injEq] at hsame
          exact hkey (by rw [hsession, hsame])
        · exact .inr hsession
    next hnone =>
      intro session' name dcc other halias
      refine hstays session' name dcc other (.inl ?_) halias
      rw [hnone]
      exact (Option.some_ne_none name).symm

/-- A settled call leaves the aliases live. -/
theorem aliasesLive_next (a : Action) (h : AliasesLive inner) (hsettled : Settled lib inner a) :
    AliasesLive (next lib inner a) := by
  cases a with
  | resolve hint dccFilter session live now recordedAt =>
      exact aliasesLive_resolve lib inner live hint dccFilter session now recordedAt h hsettled
  | bind session dccType id given now =>
      exact aliasesLive_bind lib inner session dccType id given now h hsettled
  | unbind session dccType now =>
      unfold next
      dsimp only
      split
      next => exact h
      next s _ => exact (unbind_spec inner now s dccType).2.2.2 ((evicts_prune inner now).live h)

/-! ## Both -/

theorem steadyAt_along (s f : String) (between : List Action)
    (hother : ∀ a ∈ between, ¬Unqualified s (some f) a)
    (h : Along (total (next lib)) (Settled lib) inner between) :
    Along (total (next lib)) (SteadyAt lib false (keyOf s f)) inner between := by
  induction between generalizing inner with
  | nil => exact trivial
  | cons a between ih =>
      refine ⟨steadyAt_of_settled lib inner s f a h.1 (hother a List.mem_cons_self), fun t ht => ?_⟩
      exact ih t (fun b hb => hother b (List.mem_cons_of_mem a hb)) (h.2 t ht)

/-- In every list of settled calls, instances stick, and every alias names an
    instance its session has a slot for. -/
theorem sticky_holds (lib : Library) (calls : List Action)
    (hsettled : Along (total (next lib)) (Settled lib) init calls) :
    StickyHolds lib calls ∧ AliasesLive (run lib calls) := by
  constructor
  · intro before hint dccFilter session live now recordedAt between hint' dccFilter' session' live'
      now' recordedAt' s r hcalls hs hfirst hsecond hout hbetween hkept hlive
    subst hcalls
    have hfrom := ((along_append _ _ _ _ _).mp hsettled).2 _ (exec_total (next lib) init before)
    have hrest := ((along_append _ _ _ _ _).mp (hfrom.2 _ rfl)).1
    -- Both calls ask for a DCC, and so the slot that is written is looked into.
    cases hf : dccFilter with
    | none => exact absurd hf ((hfrom.1 s hs).1 hfirst.2.1)
    | some f =>
        subst hf
        cases hg : dccFilter' with
        | none =>
            have hsame := hsecond.2.2
            rw [hg, sameFilter, decide_eq_true_eq] at hsame
            cases hsame
        | some g =>
            subst hg
            have hleads := (leads_of_ok lib.parseStr _ now (candidatesOf live (some f)) hint
              (some f) session r hout).1
            have hkey := keyOf_of_candidate live f s r.entry hleads.1
            have hgf : keyOf s g = keyOf s f := by
              have hsame := hsecond.2.2
              rw [sameFilter, decide_eq_true_eq, Option.map_some, Option.map_some,
                Option.some.injEq] at hsame
              rw [keyOf, keyOf, hsame]
            have hheld := held_after_call lib (run lib before) live hint (some f) session now
              recordedAt s r hs hout
            rw [hkey] at hheld hkept
            have hthen := held_run lib false _ _ _ _ between hheld
              (fun a ha => not_rebinds s f a (hbetween a ha).1)
              (steadyAt_along lib _ s f between (fun a ha => (hbetween a ha).2) hrest)
            have hrun : run lib (before ++ .resolve hint (some f) session live now recordedAt ::
                between) = between.foldl (next lib) (next lib (run lib before)
                  (.resolve hint (some f) session live now recordedAt)) := by
              unfold run
              rw [List.foldl_append, List.foldl_cons]
            rw [← hrun] at hthen
            rcases (held_evicts _ _ _ _ _ _ hthen (evicts_prune _ now')).slot with hgone |
              ⟨bound, hbound, _⟩
            · exact absurd hgone hkept
            · rw [← hgf] at hbound
              rcases ok_of_slot lib.parseStr _ now' (candidatesOf live' (some g)) hint' (some g)
                session' s r.entry.instanceId bound hsecond.2.1 hsecond.1 hbound hlive with
                ⟨r', hr', hid, _⟩
              exact ⟨r', hr', hid⟩
  · exact exec_history (total (next lib)) (Settled lib) (fun _ => AliasesLive) init
      (fun _ _ _ _ h => by cases h) (fun _ t a u h ha hu => by
        rw [← Option.some.inj hu]
        exact aliasesLive_next lib t a h ha) calls _ hsettled (exec_total (next lib) init calls)

/-! ## An instance that sticks and one that does not -/

/-- A call of the session that names no instance, with the rows that are live. -/
def asking (dccFilter : Option String) (live : List ServiceEntry) : Action :=
  .resolve none dccFilter (some "a") live 1 1

theorem settled_asking (f : String) (live : List ServiceEntry)
    (haliases : (seen inner none 1 1).aliases.entries = []) :
    Settled oneUuid inner (asking (some f) live) := by
  refine fun s hs => ⟨fun _ => Option.some_ne_none f, fun e he => ⟨?_, ?_⟩⟩
  · intro hhint
    exact absurd rfl hhint
  · intro name dcc id halias
    have hmem := OrderedMap.mem_entries _ _ _ halias
    rw [haliases] at hmem
    exact absurd hmem List.not_mem_nil

theorem first_sticks :
    StickyHolds oneUuid [asking (some "maya") [hostRow 1 5], asking (some "Maya") hostRows] ∧
      AliasesLive (run oneUuid
        [asking (some "maya") [hostRow 1 5], asking (some "Maya") hostRows]) :=
  sticky_holds oneUuid _ ⟨settled_asking _ "maya" _ (by decide +kernel), fun t ht =>
    ⟨settled_asking t "Maya" _ (by rw [← Option.some.inj ht]; decide +kernel),
      fun _ _ => trivial⟩⟩

/-- A session that asks for no DCC gets the first instance while it is the only
    one, and the second one as soon as that has come. -/
theorem newer_instance_wins :
    ¬ ∀ (lib : Library) (calls : List Action),
      StickyHolds lib calls ∧ AliasesLive (run lib calls) := by
  intro hall
  have hsession : sessionKey (some "a") = some "a" := by decide +kernel
  have hanswer : answer oneUuid [] [hostRow 1 5] none none (some "a") 1 1 =
      .ok ⟨hostRow 1 5, .single, none⟩ := rfl
  rcases (hall oneUuid [asking none [hostRow 1 5], asking none hostRows]).1 [] none none (some "a")
    [hostRow 1 5] 1 1 [] none none (some "a") hostRows 1 1 "a" _ rfl hsession
    ⟨hsession, rfl, rfl⟩ ⟨hsession, rfl, rfl⟩ hanswer (fun _ h => absurd h List.not_mem_nil)
    (by decide +kernel) ⟨hostRow 1 5, by decide +kernel, rfl⟩ with ⟨r, hr, hid⟩
  -- The slot the second call looks into is empty, so it gets the newest row.
  rcases (leads_of_ok oneUuid.parseStr _ 1 (candidatesOf hostRows none) none none (some "a") r
    hr).1 with ⟨hmem, hfalls⟩
  have hempty : slot (pruneLocked (run oneUuid ([] ++ [asking none [hostRow 1 5]])) 1)
      (keyOf "a" "") = none := by decide +kernel
  have hnewest : pickNewest (candidatesOf hostRows none) = some r.entry := by
    change FallsOn _ _ _ _ r.entry at hfalls
    rw [FallsOn, hsession, Option.bind_some, Option.getD_none] at hfalls
    unfold asking at hempty
    rwa [hempty] at hfalls
  have hlast := newestFirst_of_pickNewest _ r.entry (hostRow 2 9) hnewest (by decide +kernel)
  have hfirst : r.entry = hostRow 1 5 := by
    rcases List.mem_cons.mp (List.mem_of_mem_filter hmem) with heq | hmem
    · exact heq
    · rw [List.mem_singleton.mp hmem] at hid
      exact absurd hid (by decide +kernel)
  rw [hfirst] at hlast
  exact absurd hlast (by decide +kernel)

end Resolver

end Gateway

end DccMcp
