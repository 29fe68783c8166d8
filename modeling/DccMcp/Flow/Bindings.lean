import DccMcp.Flow.Composition
import DccMcp.Flow.Resume

/-!
# Loop Bindings under Parallel Branches

Which item a template sees.

There is one stack of bindings for the whole run. An iteration puts its item
on top and takes it away at its end, by name. As long as one branch at a time
is inside of iterations, the stack is the list of the enclosing iterations of
that branch, and everything is as in a sequential program. Two branches that
iterate at the same time put their items on the same stack: one sees the
items of the other, and drops them.

A name is looked up among the bindings first, and in the document of the run
second. The document has the innermost item under the name `item`, but a loop
that calls its items `item` is found first, also from inside of a loop with
another name.

## Main definitions

* `Action.After`, `Live`: The bindings a process holds, read off what it has
  still to do.
* `Apart`: No other branch is inside of an iteration, and the name is not
  hidden.
* `Isolated`: What a step reads is the item of its own iteration, and what it
  drops is what this iteration has bound.

## Theorems

* `bindings_isolated`: Runs in which the branches are apart.
* `bindings_mixed`: A run in which they are not.
-/

namespace DccMcp

namespace Workflow

open Json Process Machine

/-! ## The bindings a process holds -/

/-- The bindings of a thread before and after one of its actions. -/
def Action.After : (a : Action) → a.Answer → List Binding → List Binding → Prop
  | .pushItem inner name value, tag, scope, scope' =>
    inner = scope ∧ scope' = scope ++ [⟨name, value, tag⟩]
  | .popItem inner name, _, scope, scope' =>
    inner = scope ∧ ∃ value tag, scope = scope' ++ [⟨name, value, tag⟩]
  | a, _, scope, scope' => a.Plain scope ∧ scope' = scope

/-- Of the branches that were forked with some bindings, at most one holds
    more, and the whole holds what this one does. -/
structure Held {n : Nat} (fork : List Binding) (holds : Fin n → List Binding)
    (stack : List Binding) : Prop where
  each : ∀ i, holds i = fork ∨ holds i = stack
  apart : ∀ i j, i ≠ j → holds i = fork ∨ holds j = fork
  whole : stack = fork ∨ ∃ i, stack = holds i

/-- A process that was started with the bindings `base` now holds `stack`, and
    will be back at `base` when it is done. -/
def Live : Process Action Action.Answer WorkflowStatus → List Binding → List Binding → Prop
  | .done _, base, stack => stack = base
  | .act a k, base, stack =>
    base <+: stack ∧ ∀ b, ∃ stack', a.After b stack stack' ∧ Live (k b) base stack'
  | .par n branches k, base, stack =>
    ∃ (fork : List Binding) (holds : Fin n → List Binding), base <+: fork ∧
      (∀ i, Live (branches i) fork (holds i)) ∧ Held fork holds stack ∧
      ∀ rs, Live (k rs) base fork

theorem live_base (p : Process Action Action.Answer WorkflowStatus) (base stack : List Binding)
    (h : Live p base stack) : base <+: stack := by
  induction p generalizing base stack with
  | done r => exact h ▸ List.prefix_rfl
  | act a k _ => exact h.1
  | par n branches k ih _ =>
      obtain ⟨fork, holds, hfork, hbranches, hheld, _⟩ := h
      rcases hheld.whole with rfl | ⟨i, rfl⟩
      · exact hfork
      · exact hfork.trans (ih i fork (holds i) (hbranches i))

/-- What one step does to the bindings: the thread that takes it has the
    bindings `scope` before and `scope'` after. It is the one that holds all
    of them, or it does not drop any. -/
theorem live_step (run : RunState) (p p' : Process Action Action.Answer WorkflowStatus)
    (s s' : State) (label : Option (Action × Answer)) (hstep : Process.Step (perform run) p s label p' s')
    (base stack : List Binding) (h : Live p base stack) :
    (label = none ∧ Live p' base stack) ∨
      ∃ a answer b scope scope', label = some (a, answer) ∧ respond run a answer s = some b ∧
        a.After b scope scope' ∧ base <+: scope' ∧ base <+: scope ∧ scope <+: stack ∧
        (scope = stack ∨ scope <+: scope') ∧ (scope = stack → Live p' base scope') ∧
        (scope' = scope → Live p' base stack) := by
  induction hstep generalizing base stack with
  | act a k answer s s' b hsem =>
      rcases h.2 b with ⟨stack', hafter, hlive⟩
      refine .inr ⟨a, answer, b, stack, stack', rfl, (perform_eq_some run a answer s s' b hsem).1,
        hafter, live_base _ base stack' hlive, h.1, List.prefix_rfl, .inl rfl, fun _ => hlive, ?_⟩
      rintro rfl
      exact hlive
  | join n branches k rs s hdone =>
      obtain ⟨fork, holds, _, hbranches, hheld, hk⟩ := h
      -- Every branch is back at what it was forked with.
      have hback : ∀ i, holds i = fork := by
        intro i
        have hi := hbranches i
        rw [hdone i] at hi
        exact hi
      have hstack : stack = fork := by
        rcases hheld.whole with hfork | ⟨i, hi⟩
        · exact hfork
        · rw [hi, hback i]
      exact .inl ⟨rfl, hstack ▸ hk rs⟩
  | branch n branches k i label q s s' _ ih =>
      obtain ⟨fork, holds, hfork, hbranches, hheld, hk⟩ := h
      have hstack : fork <+: stack := by
        rcases hheld.whole with rfl | ⟨j, rfl⟩
        · exact List.prefix_rfl
        · exact live_base _ fork (holds j) (hbranches j)
      -- The other branches keep what they hold.
      have hothers : ∀ (holds' : Fin n → List Binding), (∀ j, j ≠ i → holds' j = holds j) →
          Live q fork (holds' i) → ∀ j, Live (Function.update branches i q j) fork (holds' j) := by
        intro holds' hsame hq j
        by_cases hj : j = i
        · rw [hj, Function.update_self]
          exact hq
        · rw [Function.update_of_ne hj, hsame j hj]
          exact hbranches j
      have hkeep : Live q fork (holds i) →
          Live (.par n (Function.update branches i q) k) base stack := fun hq =>
        ⟨fork, holds, hfork, hothers holds (fun _ _ => rfl) hq, hheld, hk⟩
      rcases ih fork (holds i) (hbranches i) with ⟨rfl, hq⟩ |
        ⟨a, answer, b, scope, scope', rfl, hrespond, hafter, hfork', hforkScope, hscope, hgrow,
          hmoved, hkept⟩
      · exact .inl ⟨rfl, hkeep hq⟩
      refine .inr ⟨a, answer, b, scope, scope', rfl, hrespond, hafter, hfork.trans hfork',
        hfork.trans hforkScope, ?_, ?_, ?_, fun heq => hkeep (hkept heq)⟩
      · rcases hheld.each i with hi | hi
        · exact (hi ▸ hscope).trans hstack
        · exact hi ▸ hscope
      · rcases hgrow with rfl | hgrow
        · rcases hheld.each i with hi | hi
          · exact .inr (hi ▸ hfork')
          · exact .inl hi
        · exact .inr hgrow
      · rintro rfl
        -- A branch that holds only what it was forked with holds all there is.
        have hi : scope = holds i := by
          rcases hheld.each i with hi | hi
          · rw [hi] at hscope ⊢
            exact hscope.eq_of_length_le hforkScope.length_le
          · exact hi.symm
        have hrest : ∀ j, j ≠ i → holds j = fork := by
          intro j hj
          rcases hheld.apart i j (Ne.symm hj) with hforked | hforked
          · rcases hheld.each j with hjf | hjs
            · exact hjf
            · rw [hjs, hi, hforked]
          · exact hforked
        refine ⟨fork, Function.update holds i scope', hfork, hothers _ ?_ ?_, ⟨?_, ?_, ?_⟩, hk⟩
        · exact fun j hj => Function.update_of_ne hj _ _
        · rw [Function.update_self]
          exact hmoved hi
        · intro j
          by_cases hj : j = i
          · rw [hj, Function.update_self]
            exact .inr rfl
          · rw [Function.update_of_ne hj]
            exact .inl (hrest j hj)
        · intro j l hjl
          by_cases hj : j = i
          · refine .inr ?_
            rw [Function.update_of_ne (fun hl => hjl (hj.trans hl.symm))]
            exact hrest l (fun hl => hjl (hj.trans hl.symm))
          · rw [Function.update_of_ne hj]
            exact .inl (hrest j hj)
        · exact .inr ⟨i, (Function.update_self i scope' holds).symm⟩

/-! ## The programs of the executor -/

/-- A program that leaves the bindings as it finds them. -/
def Scoped (scope : List Binding) (ρ : Type) (m : Program ρ) : Prop :=
  ∀ base k, base <+: scope → (∀ r, Live (k r) base scope) → Live (m k) base scope

theorem after_of_plain (a : Action) (b : a.Answer) (scope : List Binding) (h : a.Plain scope) :
    a.After b scope scope := by
  cases a with
  | pushItem | popItem => exact h.elim
  | _ => exact ⟨h, rfl⟩

theorem compositional_scoped : Compositional (fun _ => True) Scoped where
  pure r _ _ _ hk := hk r
  bind hm hf base k hbase hk := hm base _ hbase (fun r => hf r base k hbase hk)
  act a hplain _ base k hbase hk := ⟨hbase, fun b => ⟨_, after_of_plain a b _ hplain, hk b⟩⟩
  par {scope branches} h base k hbase hk := by
    refine ⟨scope, fun _ => scope, hbase, fun i => ?_, ⟨fun _ => .inl rfl, fun _ _ _ => .inl rfl,
      .inl rfl⟩, fun rs => hk _⟩
    exact h _ (List.getElem_mem i.isLt) scope _ List.prefix_rfl (fun _ => rfl)
  withItem {scope ρ body} name value h base k hbase hk := by
    refine ⟨hbase, fun tag => ⟨scope ++ [⟨name, value, tag⟩], ⟨rfl, rfl⟩, ?_⟩⟩
    have hinner : base <+: scope ++ [⟨name, value, tag⟩] :=
      hbase.trans (List.prefix_append scope _)
    refine h _ base _ hinner (fun r => ⟨hinner, fun _ => ⟨scope, ⟨rfl, value, tag, rfl⟩, hk r⟩⟩)

/-- A run starts without bindings and ends without them. -/
theorem live_runProgram (run : RunState) (steps : List Step) :
    Live (runProgram run steps).toProcess [] [] :=
  compositional_scoped.runProgram run steps (fun _ _ _ => trivial) [] _ List.prefix_rfl
    (fun _ => rfl)

/-! ## Reading and dropping -/

theorem removeLast_concat (outer : List Binding) (b : Binding) :
    Context.removeLast b.name (outer ++ [b]) = outer := by
  simp [Context.removeLast]

theorem lookupItem_concat (ctx : Context) (outer : List Binding) (b : Binding)
    (h : ctx.itemStack = outer ++ [b]) (name : String) :
    ctx.lookupItem name =
      if b.name = name then some b.value else
        (outer.reverse.find? (fun x => x.name = name)).map Binding.value := by
  unfold Context.lookupItem
  rw [h, List.reverse_append, List.reverse_singleton, List.singleton_append]
  by_cases hname : b.name = name
  · rw [if_pos hname, List.find?_cons_of_pos (by simpa only [decide_eq_true_eq] using hname)]
    rfl
  · rw [if_neg hname, List.find?_cons_of_neg (by simpa only [decide_eq_true_eq] using hname)]

/-- The document has the innermost item, under its own name and as `item`. -/
theorem get_asJson_concat (host : Host) (ctx : Context) (outer : List Binding) (b : Binding)
    (h : ctx.itemStack = outer ++ [b]) :
    (ctx.asJson host).get "item" = some b.value ∧ (ctx.asJson host).get b.name = some b.value := by
  simp only [Context.asJson, h, Value.get, List.foldl_append, List.foldl_cons, List.foldl_nil,
    List.getLast?_concat, Option.map_some, Option.getD_some, lookup_insertMember, if_true]
  refine ⟨trivial, ?_⟩
  split <;> rfl

/-- The first step of a path is the binding if there is one, and the member of
    the document otherwise. -/
theorem resolvePath_of_get (lookup : String → Option Value) (document : Value) (path : List Char)
    (first : String) (rest : List PathToken) (value : Value)
    (hpath : tokenizePath path = some (.ident first :: rest))
    (hget : document.get first = some value) :
    resolvePath (m := Id) lookup document path =
      some (walkPath ((lookup first).getD value) rest) := by
  unfold resolvePath
  rw [hpath]
  simp only [hget, Option.getD_some, bind, pure]
  cases (lookup first).getD value <;> rfl

/-! ## Runs in which the branches are apart -/

/-- Every live binding is one of the scope. -/
def Alone (scope stack : List Binding) : Prop := ∀ b ∈ stack, b.tag ∈ scope.map Binding.tag

/-- No outer loop of another one calls its items `item`. -/
def Unhidden (scope : List Binding) : Prop :=
  ∀ b ∈ scope.getLast?, b.name = "item" ∨ ∀ outer ∈ scope.dropLast, outer.name ≠ "item"

/-- Binding an item, and reading inside of an iteration, happens while the
    live bindings are those of the enclosing iterations. -/
def Action.Apart (stack : List Binding) : Action → Prop
  | .pushItem scope _ _ => Alone scope stack
  | .asJson scope | .lookupItem scope _ =>
    scope.isEmpty = true ∨ (Alone scope stack ∧ Unhidden scope)
  | _ => True

/-- The condition on a step of a run. -/
def Apart (c : Config) : Event → Prop
  | .act path _ => ∀ a ∈ actionAt path c.process, a.Apart c.state.context.itemStack
  | .cancel => True

/-- What is right about an action. A reference whose first name is `item` or
    the name of the loop leads to the item of the own iteration, if the
    document was read in the same iteration. An iteration binds its item on
    top of the enclosing ones, and leaves these when it drops it. -/
def Action.Isolated (host : Host) (before after : Context) : Action → Prop
  | .asJson scope => ∀ b ∈ scope.getLast?,
    (before.asJson host).get "item" = some b.value ∧
      (before.asJson host).get b.name = some b.value
  | .lookupItem scope first => ∀ b ∈ scope.getLast?, (first = "item" ∨ first = b.name) →
    ∀ document path rest, document.get first = some b.value →
      tokenizePath path = some (.ident first :: rest) →
        resolvePath (m := Id) before.lookupItem document path = some (walkPath b.value rest)
  | .pushItem scope name value =>
    before.itemStack = scope ∧ ∃ tag, after.itemStack = scope ++ [⟨name, value, tag⟩]
  | .popItem scope _ =>
    before.itemStack = scope ∧ scope ≠ [] ∧ after.itemStack = scope.dropLast
  | _ => after.itemStack = before.itemStack

/-- What is right about a step of a run. -/
def Isolated (run : RunState) (c : Config) (e : Event) : Prop :=
  ∀ c', step run c e = some c' →
    match e with
    | .act path _ => ∀ a ∈ actionAt path c.process,
      a.Isolated run.host c.state.context c'.state.context
    | .cancel => c'.state.context.itemStack = c.state.context.itemStack

/-- The invariant: the stack is what the process holds, and its tags are all
    different. -/
structure Bound (c : Config) : Prop where
  live : Live c.process [] c.state.context.itemStack
  fresh : ∀ b ∈ c.state.context.itemStack, b.tag < c.state.nextTag
  nodup : (c.state.context.itemStack.map Binding.tag).Nodup

/-- A scope that has all live bindings is the stack. -/
theorem eq_of_alone (scope stack : List Binding) (hscope : scope <+: stack)
    (hnodup : (stack.map Binding.tag).Nodup) (h : Alone scope stack) : scope = stack := by
  obtain ⟨more, rfl⟩ := hscope
  cases more with
  | nil => exact (List.append_nil scope).symm
  | cons b more =>
      rw [List.map_append, List.nodup_append] at hnodup
      have hb := h b (List.mem_append_right scope List.mem_cons_self)
      exact absurd rfl (hnodup.2.2 b.tag hb b.tag (List.mem_map_of_mem List.mem_cons_self))

/-- What an action of a thread with the bindings `scope` does to the stack. -/
inductive Moves (s s' : State) (scope scope' : List Binding) : Action → Prop
  | push (name : String) (value : Value) (hscope : scope' = scope ++ [⟨name, value, s.nextTag⟩])
      (hstack : s'.context.itemStack = s.context.itemStack ++ [⟨name, value, s.nextTag⟩])
      (htag : s'.nextTag = s.nextTag + 1) : Moves s s' scope scope' (.pushItem scope name value)
  | pop (name : String) (value : Value) (tag : Nat)
      (hscope : scope = scope' ++ [⟨name, value, tag⟩])
      (hstack : s'.context.itemStack = Context.removeLast name s.context.itemStack)
      (htag : s'.nextTag = s.nextTag) : Moves s s' scope scope' (.popItem scope name)
  | stay (a : Action) (hplain : a.Plain scope) (hscope : scope' = scope)
      (hstack : s'.context.itemStack = s.context.itemStack)
      (htag : s'.nextTag = s.nextTag) : Moves s s' scope scope' a

theorem moves_effect (run : RunState) (a : Action) (answer : Answer) (s : State) (b : a.Answer)
    (scope scope' : List Binding) (hrespond : respond run a answer s = some b)
    (hafter : a.After b scope scope') : Moves s (effect run a answer s) scope scope' a := by
  cases a with
  | pushItem inner name value =>
      cases answer with
      | nothing =>
          rw [← Option.some.inj hrespond] at hafter
          obtain ⟨rfl, hscope⟩ := hafter
          exact .push name value hscope rfl rfl
      | _ => simp [respond] at hrespond
  | popItem inner name =>
      obtain ⟨rfl, value, tag, hscope⟩ := hafter
      exact .pop name value tag hscope rfl rfl
  | idempotencyPut => cases answer <;> exact .stay _ hafter.1 hafter.2 rfl rfl
  | _ => exact .stay _ hafter.1 hafter.2 rfl rfl

/-- A step of a run is a join, or an action of some thread. -/
theorem moves_of_step (run : RunState) (c c' : Config) (path : List Nat) (answer : Answer)
    (h : Bound c) (hstep : step run c (.act path answer) = some c') :
    (actionAt path c.process = none ∧ c'.state = c.state ∧
      Live c'.process [] c.state.context.itemStack) ∨
    ∃ a scope scope', actionAt path c.process = some a ∧ Moves c.state c'.state scope scope' a ∧
      scope <+: c.state.context.itemStack ∧
      (scope = c.state.context.itemStack ∨ scope <+: scope') ∧
      (scope = c.state.context.itemStack → Live c'.process [] scope') ∧
      (scope' = scope → Live c'.process [] c.state.context.itemStack) := by
  rcases Option.map_eq_some_iff.mp hstep with ⟨⟨p', s'⟩, hat, rfl⟩
  have hlabelled := step_of_stepAt (perform run) path answer c.process p' c.state s' hat
  have hstate := step_state (perform run) _ _ _ _ _ hlabelled
  -- A thread has the scope it is written in, so its action is one of three
  -- kinds.
  rcases live_step run _ _ _ _ _ hlabelled [] _ h.live with ⟨hnone, hlive⟩ |
    ⟨a, ans, b, scope, scope', hlabel, hrespond, hafter, _, _, hscope, hgrow, hmoved, hkept⟩
  · rcases hstate with ⟨_, hsame⟩ | ⟨a, ans, b, hsome, _⟩
    · exact .inl ⟨Option.map_eq_none_iff.mp hnone, hsame, hlive⟩
    · rw [hnone] at hsome
      simp at hsome
  · rcases Option.map_eq_some_iff.mp hlabel with ⟨a', ha', heq⟩
    obtain ⟨rfl, rfl⟩ := Prod.mk.inj heq
    refine .inr ⟨a', scope, scope', ha', ?_, hscope, hgrow, hmoved, hkept⟩
    rcases hstate with ⟨hnone, _⟩ | ⟨a, ans, b', hsome, hperform⟩
    · rw [hnone] at hlabel
      simp at hlabel
    · rw [hlabel, Option.some.injEq, Prod.mk.injEq] at hsome
      obtain ⟨rfl, rfl⟩ := hsome
      rw [(perform_eq_some run _ _ _ _ _ hperform).2]
      exact moves_effect run a' answer c.state b scope scope' hrespond hafter

/-- A thread that drops a binding holds all of them. -/
theorem eq_of_pop (scope scope' stack : List Binding) (b : Binding) (h : scope = scope' ++ [b])
    (hgrow : scope = stack ∨ scope <+: scope') : stack = scope' ++ [b] := by
  rcases hgrow with rfl | hgrow
  · exact h
  · have hlength := hgrow.length_le
    rw [h, List.length_append, List.length_singleton] at hlength
    omega

theorem bound_step (run : RunState) (c c' : Config) (e : Event) (h : Bound c) (hapart : Apart c e)
    (hstep : step run c e = some c') : Bound c' := by
  cases e with
  | cancel =>
      rw [← Option.some.inj hstep]
      exact ⟨h.live, h.fresh, h.nodup⟩
  | act path answer =>
      rcases moves_of_step run c c' path answer h hstep with ⟨_, hstate, hlive⟩ |
        ⟨a, scope, scope', ha, hmoves, hscope, hgrow, hmoved, hkept⟩
      · refine ⟨?_, ?_, ?_⟩ <;> rw [hstate]
        · exact hlive
        · exact h.fresh
        · exact h.nodup
      have hcond := hapart a ha
      cases hmoves with
      | push name value hpush hstack htag =>
          -- Nobody else has a binding, so the new one is the innermost for all.
          have hall := eq_of_alone scope _ hscope h.nodup hcond
          refine ⟨?_, ?_, ?_⟩
          · rw [hstack, ← hall, ← hpush]
            exact hmoved hall
          · intro b hb
            rw [hstack] at hb
            rcases List.mem_append.mp hb with hb | hb
            · have := h.fresh b hb
              omega
            · rw [List.mem_singleton.mp hb, htag]
              exact Nat.lt_succ_self _
          · rw [hstack, List.map_append, List.nodup_append]
            refine ⟨h.nodup, List.nodup_singleton _, fun t ht t' ht' heq => ?_⟩
            -- The new tag is larger than all that are there.
            rcases List.mem_map.mp ht with ⟨b, hb, rfl⟩
            have hlt := h.fresh b hb
            rw [heq, List.mem_singleton.mp ht'] at hlt
            exact Nat.lt_irrefl _ hlt
      | pop name value tag hpop hstack htag =>
          -- The binding that is dropped is the last one, whatever its name.
          have hold := eq_of_pop scope scope' _ _ hpop hgrow
          rw [hold, removeLast_concat scope' ⟨name, value, tag⟩] at hstack
          refine ⟨?_, ?_, ?_⟩
          · rw [hstack]
            exact hmoved (hpop.trans hold.symm)
          · intro b hb
            rw [hstack] at hb
            rw [htag]
            exact h.fresh b (hold ▸ List.mem_append_left _ hb)
          · have hnodup := h.nodup
            rw [hold, List.map_append] at hnodup
            rw [hstack]
            exact (List.nodup_append.mp hnodup).1
      | stay _ hplain hsame hstack htag =>
          refine ⟨?_, ?_, ?_⟩
          · rw [hstack]
            exact hkept hsame
          · rw [hstack, htag]
            exact h.fresh
          · rw [hstack]
            exact h.nodup

/-- A read in a scope that has all live bindings. -/
theorem isolated_read (host : Host) (before after : Context) (scope : List Binding) (a : Action)
    (hread : a = .asJson scope ∨ ∃ first, a = .lookupItem scope first)
    (hstack : before.itemStack = scope) (hnames : Unhidden scope) :
    a.Isolated host before after := by
  -- The innermost binding of the scope is the last of the stack.
  have hlast : ∀ b ∈ scope.getLast?, before.itemStack = scope.dropLast ++ [b] := by
    intro b hb
    rw [hstack, List.dropLast_append_getLast? b hb]
  rcases hread with rfl | ⟨first, rfl⟩
  · exact fun b hb => get_asJson_concat host before scope.dropLast b (hlast b hb)
  · intro b hb hfirst document path rest hget hpath
    rw [resolvePath_of_get _ document path first rest b.value hpath hget,
      lookupItem_concat before scope.dropLast b (hlast b hb)]
    by_cases hname : b.name = first
    · rw [if_pos hname, Option.getD_some]
    · -- The name is `item`, and no outer loop has it.
      have hitem : first = "item" := hfirst.resolve_right (Ne.symm hname)
      have hnone : scope.dropLast.reverse.find? (fun x => x.name = first) = none := by
        rw [List.find?_eq_none]
        intro x hx
        rw [hitem, decide_eq_true_eq]
        exact (hnames b hb).resolve_left (fun h => hname (h.trans hitem.symm)) x
          (List.mem_reverse.mp hx)
      rw [if_neg hname, hnone, Option.map_none, Option.getD_none]

theorem isolated_of_bound (run : RunState) (c : Config) (e : Event) (h : Bound c)
    (hapart : Apart c e) : Isolated run c e := by
  intro c' hstep
  cases e with
  | cancel =>
      rw [← Option.some.inj hstep]
  | act path answer =>
      intro a ha
      rcases moves_of_step run c c' path answer h hstep with ⟨hnone, _⟩ |
        ⟨a', scope, scope', ha', hmoves, hscope, hgrow, _⟩
      · rw [hnone] at ha
        simp [Option.mem_def] at ha
      obtain rfl : a' = a := Option.some.inj (ha'.symm.trans ha)
      -- What the step is asked to keep apart is what its kind needs.
      have hcond := hapart a' ha
      cases hmoves with
      | push name value hpush hstack htag =>
          have hall := eq_of_alone scope _ hscope h.nodup hcond
          exact ⟨hall.symm, c.state.nextTag, hall ▸ hstack⟩
      | pop name value tag hpop hstack htag =>
          have hold := eq_of_pop scope scope' _ _ hpop hgrow
          rw [hold, removeLast_concat scope' ⟨name, value, tag⟩] at hstack
          refine ⟨hold.trans hpop.symm, ?_, ?_⟩
          · rw [hpop]
            exact List.append_ne_nil_of_right_ne_nil scope' (List.cons_ne_nil _ _)
          · rw [hstack, hpop, List.dropLast_concat]
      | stay _ hplain hsame hstack htag =>
          cases a' with
          | asJson inner | lookupItem inner first =>
              obtain rfl : inner = scope := hplain
              rcases hcond with hempty | ⟨halone, hnames⟩
              · -- Outside of all loops there is nothing to show.
                rw [List.isEmpty_iff] at hempty
                subst hempty
                exact nofun
              · have hall := eq_of_alone inner _ hscope h.nodup halone
                refine isolated_read _ _ _ inner _ ?_ hall.symm hnames
                first
                  | exact .inl rfl
                  | exact .inr ⟨first, rfl⟩
          | pushItem | popItem => exact hplain.elim
          | _ => exact hstack

/-- A run that was just started or resumed. -/
inductive Launched (executor : Executor) : RunState → Config → Prop
  | started (rootJobId : Uuid) (spec : WorkflowSpec) (inputs : Value) (run : RunState) (c : Config)
      (h : start executor rootJobId spec inputs = .ok (run, c)) : Launched executor run c
  | resumed (rootJobId : Uuid) (st : Storage) (opts : ResumeOptions) (run : RunState) (c : Config)
      (h : resume executor rootJobId st opts = .ok (run, c)) : Launched executor run c

theorem itemStack_resumedContext (host : Host) (inputs : Value)
    (outputs : List (String × Value)) : (resumedContext host inputs outputs).itemStack = [] := by
  unfold resumedContext
  have hstack : ∀ ctx : Context,
      (outputs.foldl (fun ctx e => ctx.recordStep e.1 (StepOutput.fromValue host e.2)) ctx).itemStack =
        ctx.itemStack := by
    induction outputs with
    | nil => exact fun ctx => rfl
    | cons e rest ih => exact fun ctx => ih (ctx.recordStep e.1 (StepOutput.fromValue host e.2))
  exact hstack _

/-- A run starts with the program of its steps, and without bindings. -/
theorem launched_process (executor : Executor) (run : RunState) (c : Config)
    (h : Launched executor run c) :
    ∃ steps, c.process = (runProgram run steps).toProcess ∧ c.state.context.itemStack = [] := by
  cases h with
  | started rootJobId spec inputs _ _ h =>
      rcases start_eq_ok executor rootJobId spec inputs run c h with
        ⟨_, _, _, hprocess, hcontext, _⟩
      exact ⟨spec.steps, hprocess, hcontext ▸ rfl⟩
  | resumed rootJobId st opts _ _ h =>
      rcases resume_eq_ok executor rootJobId st opts run c h with
        ⟨spec, _, _, _, hprocess, hcontext, _⟩
      exact ⟨spec.steps, hprocess, hcontext ▸ itemStack_resumedContext _ _ _⟩

theorem bound_launched (executor : Executor) (run : RunState) (c : Config)
    (h : Launched executor run c) : Bound c := by
  rcases launched_process executor run c h with ⟨steps, hprocess, hstack⟩
  refine ⟨?_, ?_, ?_⟩ <;> rw [hstack]
  · rw [hprocess]
    exact live_runProgram run steps
  · exact nofun
  · exact List.nodup_nil

/-- In every run whose steps are taken while the live bindings belong to the
    branch that takes them, every reference inside of a loop leads to the item
    of its own iteration, and a loop leaves the bindings as it found them. -/
theorem bindings_isolated (executor : Executor) (run : RunState) (c : Config)
    (events : List Event) (hlaunched : Launched executor run c)
    (hapart : Along (step run) Apart c events) : Along (step run) (Isolated run) c events :=
  along_of_along (step run) Apart (Isolated run) Bound
    (fun c e c' hbound hcond hstep => bound_step run c c' e hbound hcond hstep)
    (fun c e hbound hcond => isolated_of_bound run c e hbound hcond) c events
    (bound_launched executor run c hlaunched) hapart

/-! ## Two loops at once -/

instance decidableApartAction (stack : List Binding) : ∀ a : Action, Decidable (a.Apart stack)
  | .pushItem scope _ _ =>
    inferInstanceAs (Decidable (∀ b ∈ stack, b.tag ∈ scope.map Binding.tag))
  | .asJson scope | .lookupItem scope _ =>
    inferInstanceAs (Decidable (scope.isEmpty = true ∨
      (∀ b ∈ stack, b.tag ∈ scope.map Binding.tag) ∧
      (∀ b ∈ scope.getLast?, b.name = "item" ∨ ∀ outer ∈ scope.dropLast, outer.name ≠ "item")))
  | .popItem _ _ | .isCancelled | .emit _ _ _ | .incCompleted | .upsertStep _ _ _ _
  | .updateWorkflowStatus _ _ | .updateStepOutputs | .step _ | .stepsSnapshot | .recordStep _ _
  | .recordOutputSnapshot _ _ | .idempotencyGet _ _ | .idempotencyPut _ _ _ _ | .sleep _
  | .invoke _ _ _ _ | .awaitCall _ _ _ | .awaitApproval _ _ => isTrue trivial

instance decidableApart (c : Config) : ∀ e, Decidable (Apart c e)
  | .act path _ =>
    inferInstanceAs (Decidable (∀ a ∈ actionAt path c.process, a.Apart c.state.context.itemStack))
  | .cancel => isTrue trivial

/-- Two paths, as the library evaluates them. -/
def shotsHost : Host where
  query expr root :=
    if expr = "$.inputs.left" then .ok ((root.get "inputs").bind (·.get "left")).toList
    else if expr = "$.inputs.right" then .ok ((root.get "inputs").bind (·.get "right")).toList
    else .ok []
  parseJsonPath _ := none
  text _ := ""
  decodeFileRef _ := none
  encodeFileRef _ := .null
  promote _ value := value
  specHash _ := ""
  reread spec := .ok spec

def shotsExecutor : Executor := ⟨shotsHost, none, true, ∅⟩

/-- A loop whose body calls a tool with the item. -/
def shotLoop (id items name call : String) : Step :=
  .mk id (.foreach items name
    [.mk call (.tool "render" (.string "\x7b\x7bitem\x7d\x7d")) .default]) .default

/-- Two loops in parallel. -/
def twoLoops : WorkflowSpec :=
  ⟨"shots", .null, [.mk "both" (.parallel
    [shotLoop "left" "$.inputs.left" "shot" "render_left",
      shotLoop "right" "$.inputs.right" "shot" "render_right"]) .default]⟩

def twoShots : Value :=
  .object [("left", .array [.string "a"]), ("right", .array [.string "b"])]

/-- Some actions of a thread that need nothing from outside. -/
def ticksAt (path : List Nat) (n : Nat) : List Event := List.replicate n (.act path .nothing)

/-- The tool a thread waits for returns. -/
def returnsAt (path : List Nat) : Event := .act path (.call (.returned (.ok .null)))

/-- The text of a value, if it is one. -/
def shownValue : Value → String
  | .string s => s
  | _ => ""

/-- A call, with the items of its iterations and its argument. -/
def IssuedCall.shown (call : IssuedCall) : List String × String × String :=
  (call.scope.map (fun b => shownValue b.value), call.stepId, shownValue call.args)

/-- The loops take turns: the left iteration is over when the right one
    begins. -/
def turns : List Event :=
  ticksAt [] 5 ++ ticksAt [0] 17 ++ [returnsAt [0]] ++ ticksAt [0] 8 ++ ticksAt [1] 17

/-- Each call gets the item of its own iteration. -/
theorem bindings_isolated_turns :
    ∃ run c c', start shotsExecutor 0 twoLoops twoShots = .ok (run, c) ∧
      exec (step run) c turns = some c' ∧ Along (step run) (Isolated run) c turns ∧
      c'.state.calls.map IssuedCall.shown =
        [(["a"], "render_left", "a"), (["b"], "render_right", "b")] := by
  rcases exists_of_reaches shotsExecutor twoLoops twoShots turns
    (fun run c c' => decide (Along (step run) Apart c turns ∧
      c'.state.calls.map IssuedCall.shown =
        [(["a"], "render_left", "a"), (["b"], "render_right", "b")])) (by decide +kernel) with
    ⟨run, c, c', hstart, hrun, hok⟩
  rw [decide_eq_true_eq] at hok
  exact ⟨run, c, c', hstart, hrun, bindings_isolated shotsExecutor run c turns
    (.started 0 twoLoops twoShots run c hstart) hok.1, hok.2⟩

/-- The left call is rendered while the right iteration has begun, and the
    left iteration ends before the right one. -/
def overlap : List Event :=
  ticksAt [] 5 ++ ticksAt [0] 8 ++ ticksAt [1] 8 ++ ticksAt [0] 9 ++ [returnsAt [0]] ++
    ticksAt [0] 8

/-- The call in the left loop gets the item of the right one, and the left loop
    drops the binding of the right one and leaves its own. -/
theorem bindings_mixed :
    ∃ run c c', start shotsExecutor 0 twoLoops twoShots = .ok (run, c) ∧
      exec (step run) c overlap = some c' ∧
      c'.state.calls.map IssuedCall.shown = [(["a"], "render_left", "b")] ∧
      c'.state.context.itemStack.map (fun b => shownValue b.value) = ["a"] := by
  rcases exists_of_reaches shotsExecutor twoLoops twoShots overlap
    (fun _ _ c' => decide (c'.state.calls.map IssuedCall.shown = [(["a"], "render_left", "b")] ∧
      c'.state.context.itemStack.map (fun b => shownValue b.value) = ["a"])) (by decide +kernel) with
    ⟨run, c, c', hstart, hrun, hok⟩
  exact ⟨run, c, c', hstart, hrun, of_decide_eq_true hok⟩

end Workflow

end DccMcp
