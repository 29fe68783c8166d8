import DccMcp.Lib.Serde
import DccMcp.Lib.Tokens
import DccMcp.Flow.Bindings

/-!
# Names in Idempotency Keys

Whether a key that passes the validation can be rendered.

The validation and the renderer look at the same text with different eyes. The
validation knows the fixed names, all inputs and all step ids, and asks for
identifiers with dots between them. The renderer knows the members of its
document: the inputs as a whole, the outputs as a whole, the innermost item,
and the bindings of loops under the names their loops give them. So an input
is known to the one under its own name and to the other under `inputs` only,
and the name of a loop is known to the renderer only.

What the renderer needs of a loop is there. All branches share one stack of
bindings and drop by name, so a branch can lose its own binding and keep that
of another branch. But it does not lose the name: there are as many bindings
of a name on the stack as there are threads inside of loops with that name.

## Main definitions

* `nameTokens`: The bindings of a name that threads still have to drop.
* `references`, `Bound`: The paths that the renderer reads in a key, and that
  they start with a name that is there.
* `Resolves`: A thread that renders a key goes on with a key.
* `EachKey`, `UsesOnly`, `Plain`: The keys of a tree, with the names of the
  enclosing loops.

## Theorems

* `keys_resolve_and_pass`: When a key is rendered, and when it is accepted.
* `accepted_key_unresolved`: A key that is accepted and not rendered, and one
  that could be rendered and is not accepted.
-/

namespace DccMcp

namespace Workflow

open Json Process Machine
open Serde (bind_ok_iff)

/-! ## Bindings of a name -/

/-- The number of bindings with a name. -/
def countName (name : String) (stack : List Binding) : Nat :=
  stack.countP (fun b => b.name = name)

theorem countName_pos (name : String) (stack : List Binding) :
    0 < countName name stack ↔ name ∈ stack.map Binding.name := by
  unfold countName
  simp only [List.countP_pos_iff, decide_eq_true_eq, List.mem_map]

theorem countName_concat (name : String) (stack : List Binding) (b : Binding) :
    countName name (stack ++ [b]) = countName name stack + if b.name = name then 1 else 0 := by
  unfold countName
  simp only [List.countP_append, List.countP_cons, List.countP_nil, Nat.zero_add,
    decide_eq_true_eq]

theorem countName_eraseP (name dropped : String) (l : List Binding)
    (h : 0 < countName dropped l) :
    countName name (l.eraseP (fun b => b.name = dropped)) + (if dropped = name then 1 else 0) =
      countName name l := by
  unfold countName at *
  induction l with
  | nil => simp only [List.countP_nil, Nat.lt_irrefl] at h
  | cons b rest ih =>
      by_cases hb : b.name = dropped
      · rw [List.eraseP_cons_of_pos (by simpa using hb), List.countP_cons]
        simp only [hb, decide_eq_true_eq]
      · rw [List.countP_cons_of_neg (by simpa using hb)] at h
        rw [List.eraseP_cons_of_neg (by simpa using hb), List.countP_cons, List.countP_cons,
          Nat.add_right_comm, ih h]

/-- Dropping by name takes one binding of this name, if there is one. -/
theorem countName_removeLast (name dropped : String) (stack : List Binding)
    (h : 0 < countName dropped stack) :
    countName name (Context.removeLast dropped stack) + (if dropped = name then 1 else 0) =
      countName name stack := by
  have hreverse : ∀ (n : String) (l : List Binding), countName n l.reverse = countName n l :=
    fun n l => List.countP_reverse
  unfold Context.removeLast
  rw [hreverse, countName_eraseP name dropped stack.reverse (by rwa [hreverse]), hreverse]

/-- A thread has a token for each binding of the name that it still has to
    drop. It reads inside of a loop with the name only as long as there are
    tokens. -/
def nameTokens (name : String) : TokenRules Action WorkflowStatus where
  moves _ outer a before after :=
    match a with
    | .pushItem _ bound _ => after = before + if bound = name then 1 else 0
    | .popItem _ bound => before = after + if bound = name then 1 else 0
    | .asJson scope | .lookupItem scope _ =>
      after = before ∧ (name ∈ scope.map Binding.name → 0 < outer + before)
    | _ => after = before
  ends _ n := n = 0

/-- The programs of the executor keep to the rules. -/
theorem compositional_names (name : String) :
    Compositional (fun _ => True) (fun scope ρ (m : Program ρ) => ∀ k depth outer own,
      (name ∈ scope.map Binding.name → 0 < outer + own) →
        (∀ r, Holds (nameTokens name) (k r) depth outer own) →
          Holds (nameTokens name) (m k) depth outer own) where
  pure r _ _ _ _ _ hk := hk r
  bind hm hf k depth outer own hscope hk :=
    hm _ depth outer own hscope (fun r => hf r k depth outer own hscope hk)
  act a hplain _ k depth outer own hscope hk := by
    refine ⟨own, ?_, fun b => hk b⟩
    cases a with
    | pushItem | popItem => exact hplain.elim
    | asJson inner | lookupItem inner =>
        obtain rfl : inner = _ := hplain
        exact ⟨rfl, hscope⟩
    | _ => rfl
  par {scope branches} h k depth outer own hscope hk := by
    refine ⟨own, fun _ => 0, by simp only [Finset.sum_const_zero, Nat.add_zero], fun i => ?_,
      fun rs left hleft => ?_⟩
    · exact h _ (List.getElem_mem i.isLt) _ (depth + 1) (outer + own) 0 hscope (fun _ => rfl)
    · have hzero : ∑ i, left i = 0 := Finset.sum_eq_zero (fun i _ => hleft i)
      rw [hzero, Nat.add_zero]
      exact hk _
  withItem {scope ρ body} bound value h k depth outer own hscope hk := by
    refine ⟨_, rfl, fun tag => h _ _ depth outer _ (fun hname => ?_)
      (fun r => ⟨own, rfl, fun _ => hk r⟩)⟩
    rw [List.map_append, List.mem_append] at hname
    rcases hname with hname | hname
    · have := hscope hname
      omega
    · have hbound : bound = name := (List.mem_singleton.mp hname).symm
      rw [if_pos hbound]
      omega

/-- The invariant: of every name, the stack has as many bindings as the threads
    have to drop. -/
def Counted (c : Config) : Prop :=
  ∀ name, Holds (nameTokens name) c.process 0 0 (countName name c.state.context.itemStack)

/-- A binding that is made or dropped is counted under its name. -/
theorem countName_effect (name : String) (run : RunState) (a : Action) (answer : Answer)
    (s : State) (depth outer before after : Nat)
    (hmoves : (nameTokens name).moves depth outer a before after)
    (hthere : ∀ scope bound, a = .popItem scope bound → 0 < countName bound s.context.itemStack) :
    countName name (effect run a answer s).context.itemStack + before =
      countName name s.context.itemStack + after := by
  cases a with
  | pushItem scope bound value =>
      have hafter : after = before + if bound = name then 1 else 0 := hmoves
      simp only [effect, Context.pushItem, countName_concat]
      omega
  | popItem scope bound =>
      have hbefore : before = after + if bound = name then 1 else 0 := hmoves
      have hdrop := countName_removeLast name bound s.context.itemStack (hthere scope bound rfl)
      simp only [effect, Context.popItem]
      omega
  | asJson | lookupItem =>
      rw [hmoves.1]
      rfl
  | idempotencyPut =>
      have hsame : after = before := hmoves
      rw [hsame]
      cases answer <;> rfl
  | _ =>
      have hsame : after = before := hmoves
      rw [hsame]
      rfl

theorem counted_step (run : RunState) (c c' : Config) (e : Event) (h : Counted c)
    (hstep : step run c e = some c') : Counted c' := by
  cases e with
  | cancel =>
      rw [← Option.some.inj hstep]
      exact h
  | act path answer =>
      rcases Option.map_eq_some_iff.mp hstep with ⟨⟨p', s'⟩, hat, rfl⟩
      have hlabelled := step_of_stepAt (perform run) path answer c.process p' c.state s' hat
      intro name
      rcases step_state (perform run) _ _ _ _ _ hlabelled with ⟨hlabel, rfl⟩ |
        ⟨a, ans, b, hlabel, hperform⟩ <;> rw [hlabel] at hlabelled
      · exact holds_join _ _ _ _ _ _ hlabelled 0 0 _ (h name)
      obtain ⟨_, rfl⟩ := perform_eq_some run a ans c.state s' b hperform
      -- What a thread drops is there, since the thread has a token for it.
      have hthere : ∀ scope bound, a = .popItem scope bound →
          0 < countName bound c.state.context.itemStack := by
        rintro scope bound rfl
        rcases holds_act _ _ _ _ _ _ _ ans hlabelled 0 0 _ (h bound) with
          ⟨_, outer, before, after, _, hmoves, _, hle, _⟩
        have hbefore : before = after + if bound = bound then 1 else 0 := hmoves
        rw [if_pos rfl] at hbefore
        omega
      rcases holds_act _ _ _ _ _ _ a ans hlabelled 0 0 _ (h name) with
        ⟨depth, outer, before, after, own', hmoves, _, _, hsum, hp'⟩
      have hcount := countName_effect name run a ans c.state depth outer before after hmoves hthere
      have heq : own' = countName name (effect run a ans c.state).context.itemStack := by omega
      exact heq ▸ hp'

theorem counted_launched (executor : Executor) (run : RunState) (c : Config)
    (h : Launched executor run c) : Counted c := by
  rcases launched_process executor run c h with ⟨steps, hprocess, hstack⟩
  intro name
  rw [hprocess, hstack]
  exact (compositional_names name).runProgram run steps (fun _ _ _ => trivial) _ 0 0 0 nofun
    (fun _ => rfl)

theorem counted_of_run (executor : Executor) (run : RunState) (c₀ c : Config)
    (events : List Event) (hlaunched : Launched executor run c₀)
    (hrun : exec (step run) c₀ events = some c) : Counted c :=
  exec_invariant (step run) Counted (fun c e c' h hstep => counted_step run c c' e h hstep) c₀ c
    events (counted_launched executor run c₀ hlaunched) hrun

theorem names_bound_of_counted (run : RunState) (c c' : Config) (hcounted : Counted c)
    (path : List Nat) (answer : Answer) (scope : List Binding) (a : Action)
    (hat : actionAt path c.process = some a)
    (ha : a = .asJson scope ∨ ∃ name, a = .lookupItem scope name)
    (hstep : step run c (.act path answer) = some c') :
    ∀ name ∈ scope.map Binding.name, name ∈ c.state.context.itemStack.map Binding.name := by
  rcases Option.map_eq_some_iff.mp hstep with ⟨⟨p', s'⟩, hstepAt, rfl⟩
  have hlabelled := step_of_stepAt (perform run) path answer c.process p' c.state s' hstepAt
  rw [hat] at hlabelled
  intro name hname
  rcases holds_act _ _ _ _ _ _ a answer hlabelled 0 0 _ (hcounted name) with
    ⟨_, outer, before, _, _, hmoves, _, hle, _⟩
  have hpos : 0 < outer + before := by
    rcases ha with rfl | ⟨_, rfl⟩ <;> exact hmoves.2 hname
  exact (countName_pos name _).mp (by omega)

/-! ## What a reader finds -/

/-- Every name that is bound, or is a member already, is a member. -/
theorem isSome_lookup_bound (name : String) (stack : List Binding)
    (members : List (String × Value))
    (h : name ∈ stack.map Binding.name ∨ (members.lookup name).isSome = true) :
    ((stack.foldl (fun members b => insertMember b.name b.value members) members).lookup
      name).isSome = true := by
  induction stack generalizing members with
  | nil => exact h.resolve_left List.not_mem_nil
  | cons b rest ih =>
      refine ih _ ?_
      rw [lookup_insertMember]
      by_cases hb : name = b.name
      · rw [if_pos hb]
        exact .inr rfl
      · rw [if_neg hb]
        exact h.imp (fun hmem => (List.mem_cons.mp hmem).resolve_left hb) id

/-- The first names that the document has. -/
def fixedNames : List String := ["inputs", "steps", "item"]

theorem isSome_get_asJson (host : Host) (ctx : Context) (name : String)
    (h : name ∈ fixedNames ∨ name ∈ ctx.itemStack.map Binding.name) :
    ((ctx.asJson host).get name).isSome = true := by
  unfold Context.asJson Value.get
  dsimp only
  rw [lookup_insertMember]
  by_cases hitem : name = "item"
  · rw [if_pos hitem]
    rfl
  · rw [if_neg hitem]
    refine isSome_lookup_bound name _ _ (h.symm.imp id (fun hfixed => ?_))
    simp only [fixedNames, List.mem_cons, List.not_mem_nil, or_false, hitem] at hfixed
    rcases hfixed with rfl | rfl <;> rfl

/-- What reading the document answers has the fixed names, and the names of the
    enclosing loops. -/
def Action.Good : (a : Action) → a.Answer → Prop
  | .asJson scope, root => ∀ name, name ∈ fixedNames ∨ name ∈ scope.map Binding.name →
    (Value.get name root).isSome = true
  | _, _ => True

/-- The document or a binding is read, inside of these loops. -/
def Action.Reads (scope : List Binding) : Action → Prop
  | .asJson inner | .lookupItem inner _ => inner = scope
  | _ => False

/-- The answer to a read that a thread gets in a run is good. -/
theorem good_of_step (run : RunState) (c c' : Config) (path : List Nat) (answer : Answer)
    (a : Action) (b : a.Answer) (hcounted : Counted c) (hat : actionAt path c.process = some a)
    (hrespond : respond run a answer c.state = some b)
    (hstep : step run c (.act path answer) = some c') : a.Good b := by
  cases a with
  | asJson scope =>
      cases answer with
      | nothing =>
          obtain rfl := Option.some.inj hrespond
          intro name hname
          refine isSome_get_asJson run.host c.state.context name (hname.imp id (fun hname => ?_))
          exact names_bound_of_counted run c c' hcounted path .nothing scope _ hat (.inl rfl) hstep
            name hname
      | _ => simp only [respond, reduceCtorEq] at hrespond
  | _ => trivial

/-! ## Threads that render -/

/-- Whatever happens from here on, the thread at the position is still reading
    inside of its loops, or it has gone on with a key. -/
def Resolves (run : RunState) (c : Config) (path : List Nat) (scope : List Binding)
    (k : Except TemplateError (Option String) → Process Action Action.Answer WorkflowStatus) :
    Prop :=
  ∀ events c', exec (step run) c events = some c' →
    (∃ a k', subAt path c'.process = some (.act a k') ∧ a.Reads scope) ∨
      ∃ before after c₁ key, events = before ++ after ∧ exec (step run) c before = some c₁ ∧
        subAt path c₁.process = some (k (.ok key))

/-- A thread that gets to an exit with good answers gets there in every run. -/
theorem leads_run (run : RunState) (path : List Nat) (kind : Action → Prop)
    (exits : Process Action Action.Answer WorkflowStatus → Prop) (c c' : Config)
    (events : List Event) (p : Process Action Action.Answer WorkflowStatus)
    (hcounted : Counted c) (hp : subAt path c.process = some p)
    (hleads : p.Leads kind Action.Good exits) (hrun : exec (step run) c events = some c') :
    (∃ a k', subAt path c'.process = some (.act a k') ∧ kind a) ∨
      ∃ before after c₁ q, events = before ++ after ∧ exec (step run) c before = some c₁ ∧
        subAt path c₁.process = some q ∧ exits q := by
  induction events generalizing c p with
  | nil =>
      obtain rfl := Option.some.inj hrun
      cases hleads with
      | exit _ hexit => exact .inr ⟨[], [], c, p, rfl, rfl, hp, hexit⟩
      | act a k ha _ => exact .inl ⟨a, k, hp, ha⟩
  | cons e rest ih =>
      rcases (exec_cons (step run) c c' e rest).mp hrun with ⟨c₁, hstep, hrest⟩
      have hcounted' := counted_step run c c₁ e hcounted hstep
      cases hleads with
      | exit _ hexit => exact .inr ⟨[], e :: rest, c, p, rfl, rfl, hp, hexit⟩
      | act a k ha hk =>
          -- The thread waits, or it takes its action and gets a good answer.
          have hnext : ∃ q, subAt path c₁.process = some q ∧ q.Leads kind Action.Good exits := by
            cases e with
            | cancel =>
                obtain rfl := Option.some.inj hstep
                exact ⟨_, hp, .act a k ha hk⟩
            | act path' answer =>
                rcases Option.map_eq_some_iff.mp hstep with ⟨⟨p', s'⟩, hat, rfl⟩
                rcases stepAt_subAt (perform run) path path' answer c.process p' c.state s' a k hp
                  hat with hwait | ⟨rfl, b, hperform, hsub⟩
                · exact ⟨_, hwait, .act a k ha hk⟩
                · have hgood := good_of_step run c _ path' answer a b hcounted
                    (actionAt_of_subAt path' c.process a k hp)
                    (perform_eq_some run a answer c.state s' b hperform).1 hstep
                  exact ⟨_, hsub, hk b hgood⟩
          rcases hnext with ⟨q, hq, hleads'⟩
          rcases ih c₁ q hcounted' hq hleads' hrest with hstill |
            ⟨before, after, c₂, r, rfl, hrun', hr⟩
          · exact .inl hstill
          · exact .inr ⟨e :: before, after, c₂, r, rfl,
              (exec_cons (step run) c c₂ e before).mpr ⟨c₁, hstep, hrun'⟩, hr⟩

/-! ## Rendering a key -/

/-- The paths that the renderer reads in a template. -/
def references (template : String) : List (List Char) :=
  match wholeReference template.toList with
  | some path => [path]
  | none => (pieces template.toList).filterMap (fun piece =>
    match piece with
    | .reference path => some (trim path)
    | _ => none)

/-- The path starts with a name, and that is a fixed one or the name of an
    enclosing loop. -/
def Resolvable (scope : List Binding) (path : List Char) : Prop :=
  ∃ first rest, tokenizePath path = some (.ident first :: rest) ∧
    (first ∈ fixedNames ∨ first ∈ scope.map Binding.name)

/-- The key of a policy only has such paths. -/
def KeyResolvable (scope : List Binding) (policy : StepPolicy) : Prop :=
  ∀ key, policy.idempotencyKey = some key → ∀ path ∈ references key, Resolvable scope path

section Render

theorem leads_lookupItem (scope : List Binding) (name : String) :
    Block.Leads (Action.Reads scope) Action.Good (fun _ => True) (lookupItem scope name) :=
  fun k exits hk => @Leads.act _ _ _ (Action.Reads scope) Action.Good exits
    (Action.lookupItem scope name) k rfl (fun b _ => hk b trivial)

theorem leads_asJson (scope : List Binding) :
    Block.Leads (Action.Reads scope) Action.Good (Action.Good (.asJson scope)) (asJson scope) :=
  Block.leads_act (Action.Reads scope) Action.Good (Action.asJson scope) rfl

variable (run : RunState) (scope : List Binding) (root : Value)
  (hroot : Action.Good (.asJson scope) root)

include hroot

theorem leads_resolvePath (path : List Char) (h : Resolvable scope path) :
    Block.Leads (Action.Reads scope) Action.Good (fun r => r.isSome = true)
      (resolvePath (lookupItem scope) root path : Program _) := by
  rcases h with ⟨first, rest, htokens, hfirst⟩
  rcases Option.isSome_iff_exists.mp (hroot first hfirst) with ⟨value, hvalue⟩
  unfold resolvePath
  rw [htokens]
  dsimp only
  refine Block.leads_bind _ _ _ _ _ _ (leads_lookupItem scope first) (fun bound _ => ?_)
  -- The document has the first name, so it is not asked for again.
  rw [hvalue]
  cases bound.getD ((some value).getD .null) <;> exact Block.leads_pure _ _ _ _ rfl

theorem leads_renderPieces (template : String) (parts : List Piece)
    (hclosed : .unterminated ∉ parts)
    (hparts : ∀ path, .reference path ∈ parts → Resolvable scope (trim path)) :
    Block.Leads (Action.Reads scope) Action.Good (fun r => ∃ s, r = .ok s)
      (renderPieces (lookupItem scope) root run.host.text template parts : Program _) := by
  induction parts with
  | nil => exact Block.leads_pure _ _ _ _ ⟨_, rfl⟩
  | cons part rest ih =>
      have hrest := ih (fun h => hclosed (List.mem_cons_of_mem part h))
        (fun path h => hparts path (List.mem_cons_of_mem part h))
      cases part with
      | text s =>
          refine Block.leads_bind _ _ _ _ _ _ hrest (fun out hout => ?_)
          rcases hout with ⟨out, rfl⟩
          exact Block.leads_pure _ _ _ _ ⟨_, rfl⟩
      | unterminated => exact absurd List.mem_cons_self hclosed
      | reference path =>
          have hpath := hparts path List.mem_cons_self
          have hne : trim path ≠ [] := by
            rcases hpath with ⟨first, rest, htokens, _⟩
            intro hnil
            rw [hnil] at htokens
            simp only [tokenizePath, tokenizeFrom, Option.some.injEq, List.nil_eq,
              reduceCtorEq] at htokens
          unfold renderPieces
          rw [if_neg hne]
          refine Block.leads_bind _ _ _ _ _ _ (leads_resolvePath scope root hroot _ hpath)
            (fun value hvalue => ?_)
          rcases Option.isSome_iff_exists.mp hvalue with ⟨value, rfl⟩
          refine Block.leads_bind _ _ _ _ _ _ hrest (fun out hout => ?_)
          rcases hout with ⟨out, rfl⟩
          exact Block.leads_pure _ _ _ _ ⟨_, rfl⟩

theorem leads_renderString (template : String) (hclosed : .unterminated ∉ pieces template.toList)
    (h : ∀ path ∈ references template, Resolvable scope path) :
    Block.Leads (Action.Reads scope) Action.Good (fun r => ∃ v, r = .ok v)
      (renderString (lookupItem scope) root run.host.text template : Program _) := by
  unfold renderString
  unfold references at h
  split
  next path hwhole =>
    rw [hwhole] at h
    refine Block.leads_bind _ _ _ _ _ _
      (leads_resolvePath scope root hroot path (h path List.mem_cons_self)) (fun value hvalue => ?_)
    rcases Option.isSome_iff_exists.mp hvalue with ⟨value, rfl⟩
    exact Block.leads_pure _ _ _ _ ⟨_, rfl⟩
  next hwhole =>
    rw [hwhole] at h
    refine Block.leads_bind _ _ _ _ _ _
      (leads_renderPieces run scope root hroot template _ hclosed (fun path hpath => ?_))
      (fun out hout => ?_)
    · exact h _ (List.mem_filterMap.mpr ⟨_, hpath, rfl⟩)
    · rcases hout with ⟨out, rfl⟩
      exact Block.leads_pure _ _ _ _ ⟨_, rfl⟩

end Render

/-! ## What the validation accepts -/

/-- The name a reference starts with, as the validation reads it. -/
def firstName (path : List Char) : String := String.ofList ((path.splitOn '.').headD [])

/-- A reference that is a chain of identifiers, joined by dots. -/
def PlainPath (path : List Char) : Prop := (path.splitOn '.').all isIdentSegment = true

/-- A template whose braces are closed and hold chains of identifiers. -/
def PlainTemplate (template : String) : Prop :=
  .unterminated ∉ pieces template.toList ∧
    ∀ path, .reference path ∈ pieces template.toList → PlainPath (trim path)

theorem templateRoots_reference (template : String) (path : List Char) (rest : List Piece)
    (roots : List String) :
    templateRoots template (.reference path :: rest) = .ok roots ↔
      PlainPath (trim path) ∧ ∃ roots', templateRoots template rest = .ok roots' ∧
        firstName (trim path) :: roots' = roots := by
  simp only [templateRoots, PlainPath, firstName]
  by_cases hnil : trim path = []
  · have hempty : ¬ (([] : List Char).splitOn '.').all isIdentSegment = true := by decide
    simp only [hnil, if_true, reduceCtorEq, hempty, false_and, Bool.false_eq_true]
  rw [if_neg hnil]
  by_cases hplain : ((trim path).splitOn '.').all isIdentSegment = true
  · rw [if_pos hplain]
    cases templateRoots template rest with
    | error e => simp only [reduceCtorEq, false_and, exists_false, and_false]
    | ok roots' => simp only [Except.ok.injEq, hplain, true_and, exists_eq_left']
  · rw [if_neg hplain]
    simp only [reduceCtorEq, hplain, false_and, Bool.false_eq_true]

theorem templateRoots_ok_iff (template : String) (parts : List Piece) (known : List String) :
    (∃ roots, templateRoots template parts = .ok roots ∧ ∀ root ∈ roots, root ∈ known) ↔
      .unterminated ∉ parts ∧ ∀ path, .reference path ∈ parts →
        PlainPath (trim path) ∧ firstName (trim path) ∈ known := by
  induction parts with
  | nil => exact ⟨fun _ => ⟨List.not_mem_nil, nofun⟩, fun _ => ⟨[], rfl, nofun⟩⟩
  | cons part rest ih =>
      cases part with
      | text s =>
          rw [templateRoots, ih]
          simp only [List.mem_cons, reduceCtorEq, false_or]
      | unterminated =>
          simp only [templateRoots, reduceCtorEq, false_and, exists_false, List.mem_cons, true_or,
            not_true_eq_false]
      | reference path =>
          simp only [templateRoots_reference, List.mem_cons, reduceCtorEq, false_or,
            Piece.reference.injEq, forall_eq_or_imp]
          constructor
          · rintro ⟨_, ⟨hplain, roots, hroots, rfl⟩, hknown⟩
            have hrest := ih.mp ⟨roots, hroots,
              fun root h => hknown root (List.mem_cons_of_mem _ h)⟩
            exact ⟨hrest.1, ⟨hplain, hknown _ List.mem_cons_self⟩, hrest.2⟩
          · rintro ⟨hclosed, ⟨hplain, hfirst⟩, hrest⟩
            rcases ih.mpr ⟨hclosed, hrest⟩ with ⟨roots, hroots, hknown⟩
            exact ⟨_, ⟨hplain, roots, hroots, rfl⟩, List.forall_mem_cons.mpr ⟨hfirst, hknown⟩⟩

/-- What the validation accepts as a key. -/
theorem checkTemplateRefs_ok_iff (stepId key : String) (known : List String) :
    checkTemplateRefs stepId key known = .ok () ↔ PlainTemplate key ∧
      ∀ path, .reference path ∈ pieces key.toList → firstName (trim path) ∈ known := by
  have hroots := templateRoots_ok_iff key (pieces key.toList) known
  have hsplit : (.unterminated ∉ pieces key.toList ∧ ∀ path, .reference path ∈ pieces key.toList →
      PlainPath (trim path) ∧ firstName (trim path) ∈ known) ↔ PlainTemplate key ∧
        ∀ path, .reference path ∈ pieces key.toList → firstName (trim path) ∈ known :=
    ⟨fun h => ⟨⟨h.1, fun path hp => (h.2 path hp).1⟩, fun path hp => (h.2 path hp).2⟩,
      fun h => ⟨h.1.1, fun path hp => ⟨h.1.2 path hp, h.2 path hp⟩⟩⟩
  rw [← hsplit, ← hroots]
  unfold checkTemplateRefs
  cases templateRoots key (pieces key.toList) with
  | error e => simp only [reduceCtorEq, false_and, exists_false]
  | ok roots =>
      simp only [Except.ok.injEq, exists_eq_left']
      cases hfind : roots.find? (fun root => root ∉ known) with
      | none =>
          rw [List.find?_eq_none] at hfind
          exact iff_of_true rfl (fun root h => by simpa using hfind root h)
      | some root =>
          have hunknown := List.find?_some hfind
          rw [decide_eq_true_eq] at hunknown
          refine iff_of_false (fun h => ?_)
            (fun h => hunknown (h root (List.mem_of_find?_eq_some hfind)))
          cases h

theorem leads_renderKey (run : RunState) (scope : List Binding) (id : String)
    (policy : StepPolicy) (known : List String) (hvalid : validateKey id policy known = .ok ())
    (hkey : KeyResolvable scope policy) :
    Block.Leads (Action.Reads scope) Action.Good (fun r => ∃ key, r = .ok key)
      (renderKey run scope policy) := by
  unfold renderKey
  unfold validateKey at hvalid
  cases htemplate : policy.idempotencyKey with
  | none => exact Block.leads_pure _ _ _ _ ⟨_, rfl⟩
  | some template =>
      rw [htemplate] at hvalid
      have hclosed := ((checkTemplateRefs_ok_iff id template known).mp hvalid).1.1
      refine Block.leads_bind _ _ (fun r => ∃ v, r = .ok v) _ _ _ ?_ (fun rendered hrendered => ?_)
      · refine Block.leads_bind _ _ _ _ _ _ (leads_asJson scope) (fun root hroot => ?_)
        exact leads_renderString run scope root hroot template hclosed (hkey template htemplate)
      · rcases hrendered with ⟨value, rfl⟩
        cases value <;> exact Block.leads_pure _ _ _ _ ⟨_, rfl⟩

/-- A key that is accepted and whose paths start with names that are there is
    rendered in every run, whatever the other branches do. -/
theorem key_resolves (executor : Executor) (run : RunState) (c₀ c : Config) (events : List Event)
    (hlaunched : Launched executor run c₀) (hrun : exec (step run) c₀ events = some c)
    (path : List Nat) (scope : List Binding) (id : String) (policy : StepPolicy)
    (known : List String)
    (k : Except TemplateError (Option String) → Process Action Action.Answer WorkflowStatus)
    (hat : subAt path c.process = some (renderKey run scope policy k))
    (hvalid : validateKey id policy known = .ok ()) (hkey : KeyResolvable scope policy) :
    Resolves run c path scope k := by
  intro events' c' hrun'
  have hcounted := counted_of_run executor run c₀ c events hlaunched hrun
  have hexit := leads_renderKey run scope id policy known hvalid hkey k
    (fun q => ∃ key, q = k (.ok key)) (fun r ⟨key, hr⟩ => .exit _ ⟨key, by rw [hr]⟩)
  rcases leads_run run path _ _ c c' events' _ hcounted hat hexit hrun' with hstill |
    ⟨before, after, c₁, q, hsplit, hbefore, hq, key, rfl⟩
  · exact .inl hstill
  · exact .inr ⟨before, after, c₁, key, hsplit, hbefore, hq⟩

/-! ## The two readings of a reference -/

theorem headD_splitOn (l : List Char) : (l.splitOn '.').headD [] = l.takeWhile (· ≠ '.') := by
  induction l with
  | nil => rfl
  | cons c rest ih =>
      rw [List.splitOn_cons_eq_if_modifyHead]
      by_cases hc : c = '.'
      · rw [if_pos (beq_iff_eq.mpr hc), List.takeWhile_cons_of_neg (by simpa using hc)]
        rfl
      · rw [if_neg (by simpa using hc), List.takeWhile_cons_of_pos (by simpa using hc), ← ih]
        cases hsplit : rest.splitOn '.' with
        | nil => exact absurd hsplit (List.splitOn_ne_nil '.' rest)
        | cons head tail => rfl

theorem exists_segment (l : List Char) (c : Char) (hc : c ∈ l) (hne : c ≠ '.') :
    ∃ segment ∈ l.splitOn '.', c ∈ segment := by
  induction l with
  | nil => exact absurd hc List.not_mem_nil
  | cons a rest ih =>
      rw [List.splitOn_cons_eq_if_modifyHead]
      by_cases ha : a = '.'
      · rw [if_pos (beq_iff_eq.mpr ha)]
        rcases ih ((List.mem_cons.mp hc).resolve_left (fun h => hne (h.trans ha))) with
          ⟨segment, hsegment, hmem⟩
        exact ⟨segment, List.mem_cons_of_mem _ hsegment, hmem⟩
      · rw [if_neg (by simpa using ha)]
        cases hsplit : rest.splitOn '.' with
        | nil => exact absurd hsplit (List.splitOn_ne_nil '.' rest)
        | cons head tail =>
            rcases List.mem_cons.mp hc with rfl | hrest
            · exact ⟨_, List.mem_cons_self, List.mem_cons_self⟩
            · rcases ih hrest with ⟨segment, hsegment, hmem⟩
              rw [hsplit] at hsegment
              rcases List.mem_cons.mp hsegment with rfl | htail
              · exact ⟨_, List.mem_cons_self, List.mem_cons_of_mem a hmem⟩
              · exact ⟨segment, List.mem_cons_of_mem _ htail, hmem⟩

/-- There are no brackets in a chain of identifiers. -/
theorem no_bracket (path : List Char) (h : PlainPath path) : '[' ∉ path := by
  intro hmem
  rcases exists_segment path '[' hmem (by decide) with ⟨segment, hsegment, hc⟩
  have hident := List.all_eq_true.mp h segment hsegment
  unfold isIdentSegment at hident
  cases segment with
  | nil => exact absurd hc List.not_mem_nil
  | cons first rest =>
      simp only [Bool.and_eq_true] at hident
      have hall := List.all_eq_true.mp hident.1 '[' hc
      exact absurd hall (by decide)

/-- Without brackets a path is cut at its dots. -/
theorem tokenizeFrom_of_no_bracket (l : List Char) (h : '[' ∉ l) :
    (∃ tokens, tokenizeFrom .between l = some tokens) ∧
      ∀ read, ∃ tokens, tokenizeFrom (.inIdent read) l =
        some (.ident (String.ofList (read.reverse ++ l.takeWhile (· ≠ '.'))) :: tokens) := by
  induction l with
  | nil =>
      refine ⟨⟨[], rfl⟩, fun read => ⟨[], ?_⟩⟩
      rw [List.takeWhile_nil, List.append_nil]
      rfl
  | cons c rest ih =>
      rw [List.mem_cons, not_or] at h
      rcases ih h.2 with ⟨⟨tokens, hbetween⟩, hident⟩
      have hbracket : c ≠ '[' := Ne.symm h.1
      by_cases hc : c = '.'
      · refine ⟨⟨tokens, ?_⟩, fun read => ⟨tokens, ?_⟩⟩
        · rw [tokenizeFrom, if_pos hc, hbetween]
        · rw [tokenizeFrom, if_pos hc, hbetween, List.takeWhile_cons_of_neg (by simpa using hc),
            List.append_nil]
          rfl
      · refine ⟨?_, fun read => ?_⟩
        · rcases hident [c] with ⟨tokens', h'⟩
          exact ⟨_, by rw [tokenizeFrom, if_neg hc, if_neg hbracket, h']⟩
        · rcases hident (c :: read) with ⟨tokens', h'⟩
          refine ⟨tokens', ?_⟩
          rw [tokenizeFrom, if_neg hc, if_neg hbracket, h',
            List.takeWhile_cons_of_pos (by simpa using hc), List.reverse_cons, List.append_assoc,
            List.singleton_append]

/-- Both read the same first name in a chain of identifiers. -/
theorem tokenizePath_of_plain (path : List Char) (h : PlainPath path) :
    ∃ rest, tokenizePath path = some (.ident (firstName path) :: rest) := by
  have hbracket := no_bracket path h
  unfold firstName tokenizePath
  rw [headD_splitOn]
  cases path with
  | nil => exact absurd h (by unfold PlainPath; decide)
  | cons c rest =>
      rw [List.mem_cons, not_or] at hbracket
      have hdot : c ≠ '.' := by
        rintro rfl
        unfold PlainPath at h
        rw [List.splitOn_cons_eq_if_modifyHead, if_pos (beq_self_eq_true '.'), List.all_cons] at h
        simp only [isIdentSegment, Bool.false_and, Bool.false_eq_true] at h
      rcases (tokenizeFrom_of_no_bracket rest hbracket.2).2 [c] with ⟨tokens, htokens⟩
      refine ⟨tokens, ?_⟩
      rw [tokenizeFrom, if_neg hdot, if_neg (Ne.symm hbracket.1), htokens,
        List.takeWhile_cons_of_pos (by simpa using hdot)]
      rfl

/-! ## The keys of a tree -/

mutual

/-- Every key in a step has a property, with the names of the enclosing loops
    and the id of its step. -/
def Step.EachKey (P : List String → String → String → Prop) (loops : List String) : Step → Prop
  | .mk id kind policy => (∀ key, policy.idempotencyKey = some key → P loops id key) ∧
    kind.EachKey P loops

def StepKind.EachKey (P : List String → String → String → Prop) (loops : List String) :
    StepKind → Prop
  | .tool _ _ | .toolRemote _ _ _ | .approve _ => True
  | .foreach _ name steps => EachKey P (loops ++ [name]) steps
  | .parallel steps => EachKey P loops steps
  | .branch _ thenSteps elseSteps => EachKey P loops thenSteps ∧ EachKey P loops elseSteps

def EachKey (P : List String → String → String → Prop) (loops : List String) : List Step → Prop
  | [] => True
  | step :: rest => step.EachKey P loops ∧ EachKey P loops rest

end

mutual

/-- A step without the keys in it. -/
def Step.withoutKeys : Step → Step
  | .mk id kind policy => .mk id kind.withoutKeys { policy with idempotencyKey := none }

def StepKind.withoutKeys : StepKind → StepKind
  | .foreach items name steps => .foreach items name (withoutKeys steps)
  | .parallel steps => .parallel (withoutKeys steps)
  | .branch on thenSteps elseSteps => .branch on (withoutKeys thenSteps) (withoutKeys elseSteps)
  | kind => kind

def withoutKeys : List Step → List Step
  | [] => []
  | step :: rest => step.withoutKeys :: withoutKeys rest

end

/-- A specification without its keys. -/
def WorkflowSpec.withoutKeys (spec : WorkflowSpec) : WorkflowSpec :=
  { spec with steps := Workflow.withoutKeys spec.steps }

mutual

theorem Step.ids_withoutKeys (step : Step) : step.withoutKeys.ids = step.ids := by
  cases step with
  | mk id kind policy => rw [Step.withoutKeys, Step.ids, Step.ids, StepKind.ids_withoutKeys kind]

theorem StepKind.ids_withoutKeys (kind : StepKind) : kind.withoutKeys.ids = kind.ids := by
  cases kind with
  | tool | toolRemote | approve => rfl
  | foreach items name steps | parallel steps =>
      rw [StepKind.withoutKeys, StepKind.ids, StepKind.ids, stepIds_withoutKeys steps]
  | branch on thenSteps elseSteps =>
      rw [StepKind.withoutKeys, StepKind.ids, StepKind.ids, stepIds_withoutKeys thenSteps,
        stepIds_withoutKeys elseSteps]

theorem stepIds_withoutKeys (steps : List Step) : stepIds (withoutKeys steps) = stepIds steps := by
  cases steps with
  | nil => rfl
  | cons step rest =>
      rw [withoutKeys, stepIds, stepIds, Step.ids_withoutKeys step, stepIds_withoutKeys rest]

end

/-- The keys do not add to the known names. -/
theorem knownIdents_withoutKeys (spec : WorkflowSpec) :
    knownIdents spec.withoutKeys = knownIdents spec := by
  unfold knownIdents WorkflowSpec.withoutKeys
  dsimp only
  rw [stepIds_withoutKeys]

theorem exists_and_and {α : Type} (p q : α → Prop) (r r' : Prop) :
    (∃ a, (p a ∧ r) ∧ q a ∧ r') ↔ (∃ a, p a ∧ q a) ∧ r ∧ r' :=
  ⟨fun ⟨a, ⟨hp, hr⟩, hq, hr'⟩ => ⟨⟨a, hp, hq⟩, hr, hr'⟩,
    fun ⟨⟨a, hp, hq⟩, hr, hr'⟩ => ⟨a, ⟨hp, hr⟩, hq, hr'⟩⟩

section Accept

variable (parseJsonPath : String → Option String) (known : List String)

/-- The validation accepts a key. -/
def KeyAccepted (_ : List String) (id key : String) : Prop :=
  checkTemplateRefs id key known = .ok ()

theorem validateKey_iff (id : String) (policy : StepPolicy) (loops : List String) :
    validateKey id policy known = .ok () ↔
      ∀ key, policy.idempotencyKey = some key → KeyAccepted known loops id key := by
  unfold validateKey KeyAccepted
  cases policy.idempotencyKey with
  | none => exact iff_of_true rfl nofun
  | some key => simp only [Option.some.injEq, forall_eq']

mutual

theorem validateStep_iff (step : Step) (seen seen' loops : List String) :
    validateStep parseJsonPath known step seen = .ok seen' ↔
      validateStep parseJsonPath known step.withoutKeys seen = .ok seen' ∧
        step.EachKey (KeyAccepted known) loops := by
  cases step with
  | mk id kind policy =>
      rw [Step.withoutKeys, validateStep, validateStep, Step.EachKey]
      split
      · simp only [reduceCtorEq, false_and]
      split
      · simp only [reduceCtorEq, false_and]
      rw [bind_ok_iff, bind_ok_iff]
      simp only [exists_const, validateKey_iff known id _ loops,
        validateKind_iff kind id (id :: seen) seen' loops, reduceCtorEq, false_implies,
        implies_true, true_and]
      exact and_left_comm

theorem validateKind_iff (kind : StepKind) (id : String) (seen seen' loops : List String) :
    validateKind parseJsonPath known id kind seen = .ok seen' ↔
      validateKind parseJsonPath known id kind.withoutKeys seen = .ok seen' ∧
        kind.EachKey (KeyAccepted known) loops := by
  cases kind with
  | tool | toolRemote | approve => exact (and_iff_left trivial).symm
  | foreach items name steps =>
      rw [StepKind.withoutKeys, validateKind, validateKind, StepKind.EachKey, bind_ok_iff,
        bind_ok_iff]
      simp only [validateSteps_iff steps seen seen' (loops ++ [name]), ← and_assoc,
        exists_and_right]
  | parallel steps =>
      rw [StepKind.withoutKeys, validateKind, validateKind, StepKind.EachKey]
      exact validateSteps_iff steps seen seen' loops
  | branch on thenSteps elseSteps =>
      rw [StepKind.withoutKeys, validateKind, validateKind, StepKind.EachKey]
      simp only [bind_ok_iff, validateSteps_iff thenSteps seen _ loops,
        validateSteps_iff elseSteps _ seen' loops, exists_and_and, exists_and_right]
      exact and_assoc.symm

theorem validateSteps_iff (steps : List Step) (seen seen' loops : List String) :
    validateSteps parseJsonPath known steps seen = .ok seen' ↔
      validateSteps parseJsonPath known (withoutKeys steps) seen = .ok seen' ∧
        EachKey (KeyAccepted known) loops steps := by
  cases steps with
  | nil => exact (and_iff_left trivial).symm
  | cons step rest =>
      rw [withoutKeys, validateSteps, validateSteps, EachKey, bind_ok_iff, bind_ok_iff]
      simp only [validateStep_iff step seen _ loops, validateSteps_iff rest _ seen' loops,
        exists_and_and]

end

/-- A specification is valid if it is valid without its keys and all of its
    keys are accepted. -/
theorem validate_iff (spec : WorkflowSpec) :
    validate parseJsonPath spec = .ok () ↔ validate parseJsonPath spec.withoutKeys = .ok () ∧
      EachKey (KeyAccepted (knownIdents spec)) [] spec.steps := by
  unfold validate
  rw [knownIdents_withoutKeys]
  have hempty : spec.withoutKeys.steps.isEmpty = spec.steps.isEmpty := by
    unfold WorkflowSpec.withoutKeys
    dsimp only
    cases spec.steps <;> rfl
  rw [hempty]
  split
  · simp only [reduceCtorEq, false_and]
  · simp only [bind_ok_iff, validateSteps_iff parseJsonPath (knownIdents spec) spec.steps [] _ [],
      pure, Except.pure, and_true, exists_and_right]
    rfl

end Accept

mutual

theorem Step.eachKey_congr (P Q R : List String → String → String → Prop)
    (h : ∀ loops id key, P loops id key → (Q loops id key ↔ R loops id key))
    (loops : List String) (step : Step) (hP : step.EachKey P loops) :
    step.EachKey Q loops ↔ step.EachKey R loops := by
  cases step with
  | mk id kind policy =>
      exact and_congr (forall₂_congr (fun key hkey => h loops id key (hP.1 key hkey)))
        (StepKind.eachKey_congr P Q R h loops kind hP.2)

theorem StepKind.eachKey_congr (P Q R : List String → String → String → Prop)
    (h : ∀ loops id key, P loops id key → (Q loops id key ↔ R loops id key))
    (loops : List String) (kind : StepKind) (hP : kind.EachKey P loops) :
    kind.EachKey Q loops ↔ kind.EachKey R loops := by
  cases kind with
  | tool | toolRemote | approve => exact Iff.rfl
  | foreach items name steps => exact eachKey_congr P Q R h (loops ++ [name]) steps hP
  | parallel steps => exact eachKey_congr P Q R h loops steps hP
  | branch on thenSteps elseSteps =>
      exact and_congr (eachKey_congr P Q R h loops thenSteps hP.1)
        (eachKey_congr P Q R h loops elseSteps hP.2)

theorem eachKey_congr (P Q R : List String → String → String → Prop)
    (h : ∀ loops id key, P loops id key → (Q loops id key ↔ R loops id key))
    (loops : List String) (steps : List Step) (hP : EachKey P loops steps) :
    EachKey Q loops steps ↔ EachKey R loops steps := by
  cases steps with
  | nil => exact Iff.rfl
  | cons step rest =>
      exact and_congr (Step.eachKey_congr P Q R h loops step hP.1)
        (eachKey_congr P Q R h loops rest hP.2)

end

/-- A key that only uses the inputs, the outputs of steps, and the items of the
    enclosing loops, as the renderer reads them. -/
def UsesOnly (loops : List String) (_ key : String) : Prop :=
  ∀ path, .reference path ∈ pieces key.toList → ∃ first rest,
    tokenizePath (trim path) = some (.ident first :: rest) ∧ (first ∈ fixedNames ∨ first ∈ loops)

/-- A key in the form the validation asks for, in which every loop is called by
    a name that the validation knows. -/
def PlainKey (known loops : List String) (_ key : String) : Prop :=
  PlainTemplate key ∧ ∀ path, .reference path ∈ pieces key.toList →
    firstName (trim path) ∈ loops → firstName (trim path) ∈ known

theorem keyAccepted_iff (spec : WorkflowSpec) (loops : List String) (id key : String)
    (huses : UsesOnly loops id key) :
    KeyAccepted (knownIdents spec) loops id key ↔ PlainKey (knownIdents spec) loops id key := by
  unfold KeyAccepted PlainKey
  rw [checkTemplateRefs_ok_iff]
  refine and_congr_right (fun hplain => forall₂_congr (fun path hpath => ?_))
  constructor
  · exact fun hknown _ => hknown
  · intro hloops
    rcases huses path hpath with ⟨first, rest, htokens, hfirst⟩
    rcases tokenizePath_of_plain (trim path) (hplain.2 path hpath) with ⟨rest', htokens'⟩
    have heq : first = firstName (trim path) := by
      rw [htokens, Option.some.injEq, List.cons.injEq, PathToken.ident.injEq] at htokens'
      exact htokens'.1
    rw [heq] at hfirst
    rcases hfirst with hfixed | hloop
    · -- The fixed names of the renderer are known to the validation.
      unfold knownIdents
      simp only [fixedNames, List.mem_cons, List.not_mem_nil, or_false] at hfixed
      rcases hfixed with h | h | h <;> rw [h] <;>
        simp only [List.cons_append, List.mem_cons, String.reduceEq, true_or, or_true, false_or]
    · exact hloops hloop

/-- When a key is rendered, and when it is accepted. An accepted key is
    rendered if every path the renderer reads in it starts with a name that is
    there. A key that only uses what is there is accepted exactly if it has the
    form that the validation asks for and calls loops by known names. -/
theorem keys_resolve_and_pass (executor : Executor) :
    (∀ (run : RunState) (c₀ c : Config) (events : List Event) (path : List Nat)
      (scope : List Binding) (id : String) (policy : StepPolicy) (known : List String)
      (k : Except TemplateError (Option String) → Process Action Action.Answer WorkflowStatus),
      Launched executor run c₀ → exec (step run) c₀ events = some c →
        subAt path c.process = some (renderKey run scope policy k) →
          validateKey id policy known = .ok () → KeyResolvable scope policy →
            Resolves run c path scope k) ∧
    (∀ (parseJsonPath : String → Option String) (spec : WorkflowSpec),
      validate parseJsonPath spec.withoutKeys = .ok () → EachKey UsesOnly [] spec.steps →
        (validate parseJsonPath spec = .ok () ↔
          EachKey (PlainKey (knownIdents spec)) [] spec.steps)) := by
  refine ⟨fun run c₀ c events path scope id policy known k hlaunched hrun hat hvalid =>
    key_resolves executor run c₀ c events hlaunched hrun path scope id policy known k hat hvalid,
      fun parseJsonPath spec hvalid huses => ?_⟩
  rw [validate_iff parseJsonPath spec]
  have hcongr := eachKey_congr UsesOnly _ _ (keyAccepted_iff spec) [] spec.steps huses
  exact ⟨fun h => hcongr.mp h.2, fun h => ⟨hvalid, hcongr.mpr h⟩⟩

/-- A policy with a key. -/
def keyed (key : String) : StepPolicy := { StepPolicy.default with idempotencyKey := some key }

/-- A loop whose body calls a tool under a key. -/
def keyedLoop (name key : String) : WorkflowSpec :=
  ⟨"shots", .null, [.mk "all" (.foreach "$.inputs.left" name
    [.mk "one" (.tool "render" .null) (keyed key)]) .default]⟩

/-- A tool that is called under a key, with an input that is declared. -/
def keyedTool (key : String) : WorkflowSpec :=
  ⟨"shots", .object [("scene", .null)], [.mk "one" (.tool "render" .null) (keyed key)]⟩

theorem pieces_item : pieces "\x7b\x7bitem\x7d\x7d".toList =
    [.text [], .reference ['i', 't', 'e', 'm'], .text []] := rfl

theorem eq_of_reference_item (path : List Char)
    (h : .reference path ∈ pieces "\x7b\x7bitem\x7d\x7d".toList) : path = ['i', 't', 'e', 'm'] := by
  rw [pieces_item] at h
  simpa using h

/-- The item of a loop, under its fixed name, is accepted and rendered. -/
theorem keys_resolve_and_pass_item :
    (∃ run c₀ c k, start shotsExecutor 0 (keyedLoop "shot" "\x7b\x7bitem\x7d\x7d") twoShots =
        .ok (run, c₀) ∧ exec (step run) c₀ (ticksAt [] 14) = some c ∧
      subAt [] c.process = some (renderKey run [⟨"shot", .string "a", 0⟩]
        (keyed "\x7b\x7bitem\x7d\x7d") k) ∧
      Resolves run c [] [⟨"shot", .string "a", 0⟩] k) ∧
    validate shotsHost.parseJsonPath (keyedLoop "shot" "\x7b\x7bitem\x7d\x7d") = .ok () := by
  constructor
  · have hthere : ∃ run c₀ c k,
        start shotsExecutor 0 (keyedLoop "shot" "\x7b\x7bitem\x7d\x7d") twoShots = .ok (run, c₀) ∧
        exec (step run) c₀ (ticksAt [] 14) = some c ∧
        subAt [] c.process = some (renderKey run [⟨"shot", .string "a", 0⟩]
          (keyed "\x7b\x7bitem\x7d\x7d") k) := ⟨_, _, _, _, rfl, rfl, rfl⟩
    rcases hthere with ⟨run, c₀, c, k, hstart, hrun, hat⟩
    refine ⟨run, c₀, c, k, hstart, hrun, hat, (keys_resolve_and_pass shotsExecutor).1 run c₀ c
      (ticksAt [] 14) [] _ "one" _ ["item"] k (.started 0 _ _ run c₀ hstart) hrun hat rfl ?_⟩
    intro key hkey path hpath
    obtain rfl := Option.some.inj hkey
    have hreferences : references "\x7b\x7bitem\x7d\x7d" = [['i', 't', 'e', 'm']] := by decide
    rw [hreferences, List.mem_singleton] at hpath
    rw [hpath]
    exact ⟨"item", [], by decide, .inl (by decide)⟩
  · have huses : EachKey UsesOnly [] (keyedLoop "shot" "\x7b\x7bitem\x7d\x7d").steps := by
      refine ⟨⟨nofun, ⟨fun key hkey path hpath => ?_, trivial⟩, trivial⟩, trivial⟩
      obtain rfl := Option.some.inj hkey
      rw [eq_of_reference_item path hpath]
      exact ⟨"item", [], by decide, .inl (by decide)⟩
    refine ((keys_resolve_and_pass shotsExecutor).2 shotsHost.parseJsonPath _ rfl huses).mpr
      ⟨⟨nofun, ⟨fun key hkey => ?_, trivial⟩, trivial⟩, trivial⟩
    obtain rfl := Option.some.inj hkey
    refine ⟨⟨by rw [pieces_item]; simp, fun path hpath => ?_⟩, fun path hpath _ => ?_⟩
    · rw [eq_of_reference_item path hpath]
      unfold PlainPath
      decide
    · rw [eq_of_reference_item path hpath]
      decide

/-- The error in an update. -/
def WorkflowUpdate.error (u : WorkflowUpdate) : Option String :=
  (u.detail.get "error").bind Value.asStr

/-- The error of a step whose key has an input under its own name. -/
def sceneError : String :=
  "idempotency key template: template \"\x7b\x7bscene\x7d\x7d\" references unknown path \"scene\""

/-- The validation accepts an input under its own name, and the step fails
    since the renderer does not know it. The validation refuses the name of a
    loop, which the renderer would know. -/
theorem accepted_key_unresolved :
    (∃ run c c', start shotsExecutor 0 (keyedTool "\x7b\x7bscene\x7d\x7d")
        (.object [("scene", .string "a")]) = .ok (run, c) ∧
      exec (step run) c (ticksAt [] 10) = some c' ∧
      c'.state.updates.filterMap WorkflowUpdate.error = [sceneError]) ∧
    validate shotsHost.parseJsonPath (keyedLoop "shot" "\x7b\x7bshot\x7d\x7d") =
      .error (.unknownTemplateVar "one" "\x7b\x7bshot\x7d\x7d" "shot") := by
  constructor
  · rcases exists_of_reaches shotsExecutor (keyedTool "\x7b\x7bscene\x7d\x7d")
      (.object [("scene", .string "a")]) (ticksAt [] 10)
      (fun _ _ c' => decide (c'.state.updates.filterMap WorkflowUpdate.error = [sceneError]))
      (by decide +kernel) with ⟨run, c, c', hstart, hrun, hok⟩
    exact ⟨run, c, c', hstart, hrun, of_decide_eq_true hok⟩
  · decide +kernel

end Workflow

end DccMcp
