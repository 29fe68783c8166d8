import DccMcp.Scheduler.Template
import DccMcp.Flow.Modes
import Mathlib.Data.List.Infix

/-!
# What Placeholders are Replaced by

A template is read from the left: a placeholder begins at two opening braces
and ends at the next two closing ones, and everything else is text. Rendering
should put the value of each documented placeholder in its place and leave all
the rest as it is written. This file says for which templates it does, in
every context.

Three things are done otherwise. A placeholder that resolves to nothing is
written again without the white space in it. A path that only begins like the
payload's, or ends behind its dot, is taken for the payload. And a string that
is taken for one placeholder loses what is around it, white space or a brace.

## Main definitions

* `Segment`, `segments`: What a template consists of.
* `documented`, `meaning`: What should come out.
* `Misread`, `Kept`, `Faithful`: The condition.

## Theorems

* `renderString_faithful_iff`: The templates that are rendered as they should.
-/

namespace DccMcp

namespace Scheduler

open Json (Value)

open Bytes (stripPrefix stripPrefix_eq_some)

/-! ## Segments -/

inductive Segment
  | literal (c : Char)
  | placeholder (inside : List Char)
  deriving DecidableEq

/-- A text with each placeholder replaced. -/
def Segment.fill (f : List Char → List Char) : Segment → List Char
  | .literal c => [c]
  | .placeholder inside => f inside

/-- A placeholder as it is written. -/
def written (inside : List Char) : List Char := '{' :: '{' :: inside ++ ['}', '}']

/-- The segments of a text, behind two opening braces or not. -/
def segmentsFrom : Option (List Char) → List Char → List Segment
  | none, [] => []
  | none, '{' :: '{' :: rest => segmentsFrom (some []) rest
  | none, c :: rest => .literal c :: segmentsFrom none rest
  | some read, [] => ('{' :: '{' :: read.reverse).map .literal
  | some read, '}' :: '}' :: rest => .placeholder read.reverse :: segmentsFrom none rest
  | some read, c :: rest => segmentsFrom (some (c :: read)) rest

def segments (s : String) : List Segment := segmentsFrom none s.toList

theorem fill_literals (f : List Char → List Char) (s : List Char) :
    (s.map Segment.literal).flatMap (Segment.fill f) = s := by
  induction s with
  | nil => rfl
  | cons c s ih =>
      rw [List.map_cons, List.flatMap_cons, ih]
      rfl

variable (text : Value → String) (s : String) (path : String) (ctx : RenderCtx)

/-- The loop fills the segments. -/
theorem interpolateFrom_eq (read : Option (List Char)) (s : List Char) :
    interpolateFrom text ctx read s =
      (segmentsFrom read s).flatMap (Segment.fill (replacement text ctx)) := by
  fun_induction segmentsFrom read s with
  | case1 => rw [interpolateFrom, List.flatMap_nil]
  | case2 rest ih => rw [interpolateFrom, ih]
  | case3 c rest hne ih =>
      rw [interpolateFrom, ih, List.flatMap_cons, Segment.fill, List.singleton_append]
      exact hne
  | case4 read => rw [fill_literals, interpolateFrom, List.cons_append, List.singleton_append]
  | case5 read rest ih => rw [interpolateFrom, ih, List.flatMap_cons, Segment.fill]
  | case6 read c rest hne ih =>
      rw [interpolateFrom, ih]
      exact hne

/-- Nothing is lost between the segments. -/
theorem source_segmentsFrom (read : Option (List Char)) (s : List Char) :
    (segmentsFrom read s).flatMap (Segment.fill written) =
      (read.elim [] (fun read => '{' :: '{' :: read.reverse)) ++ s := by
  fun_induction segmentsFrom read s with
  | case1 => rfl
  | case2 rest ih => exact ih
  | case3 c rest hne ih =>
      rw [List.flatMap_cons, ih]
      rfl
  | case4 read =>
      rw [fill_literals]
      exact (List.append_nil _).symm
  | case5 read rest ih =>
      rw [List.flatMap_cons, ih]
      simp [Segment.fill, written]
  | case6 read c rest hne ih =>
      rw [ih]
      simp

/-! ## What should come out -/

/-- What a documented placeholder stands for. -/
def documented (path : String) (ctx : RenderCtx) : Option Value :=
  let path := Text.trim path
  if path = "trigger.payload" then some ctx.payload
  else
    match stripPrefix "trigger.payload.".toList path.toList with
    | some sub => if sub = [] then none else lookupJson ctx.payload (.ofList sub)
    | none =>
      if path = "trigger.schedule_id" then some (.string ctx.scheduleId)
      else if path = "trigger.workflow" then some (.string ctx.workflow)
      else none

/-- The path of a placeholder. -/
def pathOf (inside : List Char) : String := Text.trim (.ofList inside)

/-- What should be in the place of a placeholder. -/
def asDocumented (text : Value → String) (ctx : RenderCtx) (inside : List Char) : List Char :=
  match documented (pathOf inside) ctx with
  | some (.string s) => s.toList
  | some other => (text other).toList
  | none => written inside

/-- The inside of the placeholder a template consists of, if no other one is
    opened in it. -/
def soleInside (s : String) : Option (List Char) :=
  match segments s with
  | [.placeholder inside] =>
    if Text.contains "\x7b\x7b" (.ofList inside) then none else some inside
  | _ => none

/-- What a template should be rendered to. -/
def meaning (text : Value → String) (s : String) (ctx : RenderCtx) : Value :=
  match soleInside s with
  | some inside => (documented (pathOf inside) ctx).getD (.string s)
  | none => .string (.ofList ((segments s).flatMap (Segment.fill (asDocumented text ctx))))

/-- The path begins like the payload's and does not go on as a path below it. -/
def Misread (path : String) : Prop :=
  ∃ rest, (Text.trim path).toList = "trigger.payload".toList ++ rest ∧ rest ≠ [] ∧
    (rest.head? ≠ some '.' ∨ rest = ['.'])

/-- Only misread paths are resolved otherwise than documented. -/
theorem resolve_eq_documented (h : ¬Misread path) : resolve path ctx = documented path ctx := by
  unfold resolve documented
  unfold Misread at h
  generalize Text.trim path = path at h ⊢
  dsimp only
  have hdot : "trigger.payload.".toList = "trigger.payload".toList ++ ['.'] := by decide
  have hpayload : path = "trigger.payload" ↔ path.toList = "trigger.payload".toList :=
    String.toList_inj.symm
  rw [hdot]
  cases hrest : stripPrefix "trigger.payload".toList path.toList with
  | none =>
      have hno : ∀ rest, path.toList ≠ "trigger.payload".toList ++ rest := fun rest heq => by
        rw [(stripPrefix_eq_some _ _ _).mpr heq] at hrest
        cases hrest
      rw [if_neg (fun heq => hno [] ((hpayload.mp heq).trans (List.append_nil _).symm))]
      cases hsub : stripPrefix ("trigger.payload".toList ++ ['.']) path.toList with
      | none => rfl
      | some sub =>
          rw [stripPrefix_eq_some, List.append_assoc] at hsub
          exact absurd hsub (hno _)
  | some rest =>
      rw [stripPrefix_eq_some] at hrest
      by_cases hempty : rest = []
      · rw [hempty, List.append_nil] at hrest
        rw [if_pos (hpayload.mpr hrest), hempty]
        rfl
      · have hgood : rest.head? = some '.' ∧ rest ≠ ['.'] := by
          by_contra hbad
          rw [not_and_or, not_not] at hbad
          exact h ⟨rest, hrest, hempty, hbad⟩
        rcases List.head?_eq_some_iff.mp hgood.1 with ⟨sub, rfl⟩
        have hsub : sub ≠ [] := by
          rintro rfl
          exact hgood.2 rfl
        have hpath : path ≠ "trigger.payload" := by
          intro heq
          rw [hpayload.mp heq] at hrest
          exact List.cons_ne_nil _ _ (List.append_right_eq_self.mp hrest.symm)
        rw [if_neg hpath, (stripPrefix_eq_some _ _ sub).mpr (by rw [hrest, List.append_assoc]; rfl)]
        dsimp only
        rw [if_neg hsub]
        rfl

theorem resolve_misread (h : Misread path) : resolve path ctx = some ctx.payload := by
  rcases h with ⟨rest, hpath, hrest, hbad⟩
  have hsub : (stripPrefix ['.'] rest).getD [] = [] := by
    cases hstrip : stripPrefix ['.'] rest with
    | none => rfl
    | some sub =>
        rw [stripPrefix_eq_some] at hstrip
        rcases hbad with hhead | rfl
        · rw [hstrip] at hhead
          exact absurd rfl hhead
        · exact (List.cons.inj hstrip).2.symm
  unfold resolve
  dsimp only
  rw [(stripPrefix_eq_some _ _ rest).mpr hpath]
  dsimp only
  rw [hsub]
  rfl

theorem documented_misread (h : Misread path) : documented path ctx = none := by
  rcases h with ⟨rest, hpath, hrest, hbad⟩
  have hno : ∀ other : String, stripPrefix "trigger.payload".toList other.toList = none →
      Text.trim path ≠ other := by
    rintro _ hother rfl
    rw [(stripPrefix_eq_some _ _ rest).mpr hpath] at hother
    cases hother
  unfold documented
  dsimp only
  rw [if_neg]
  · split
    · next sub hsub =>
        rw [stripPrefix_eq_some, hpath, show "trigger.payload.".toList =
          "trigger.payload".toList ++ ['.'] by decide, List.append_assoc] at hsub
        have heq : rest = '.' :: sub := List.append_cancel_left hsub
        rcases hbad with hhead | hdot
        · rw [heq] at hhead
          exact absurd rfl hhead
        · rw [hdot] at heq
          exact if_pos (List.cons.inj heq).2.symm
    · rw [if_neg (hno "trigger.schedule_id" (by decide)),
        if_neg (hno "trigger.workflow" (by decide))]
  · intro heq
    rw [heq] at hpath
    exact hrest (List.append_right_eq_self.mp hpath.symm)

/-- A path that resolves to something resolves to the empty text elsewhere. -/
theorem exists_resolve_empty (v : Value) (h : resolve path ctx = some v) :
    ∃ ctx', resolve path ctx' = some (.string "") := by
  -- A value that has the text at the end of the segments.
  have hbuild : ∀ (segs : List String) (cur w : Value), lookupSegments cur segs = some w →
      ∃ root, lookupSegments root segs = some (.string "") := by
    intro segs
    induction segs with
    | nil => exact fun _ _ _ => ⟨.string "", rfl⟩
    | cons seg rest ih =>
        intro cur w hcur
        unfold lookupSegments at hcur ⊢
        by_cases hseg : seg = ""
        · rw [if_pos hseg] at hcur
          cases hcur
        · rw [if_neg hseg] at hcur
          cases hindex : Workflow.parseUsize seg.toList with
          | some i =>
              rw [hindex] at hcur
              rcases Option.bind_eq_some_iff.mp hcur with ⟨next, -, hnext⟩
              rcases ih next w hnext with ⟨root, hroot⟩
              refine ⟨.array (List.replicate i .null ++ [root]), ?_⟩
              rw [if_neg hseg]
              simp [Value.getIndex, hroot]
          | none =>
              rw [hindex] at hcur
              rcases Option.bind_eq_some_iff.mp hcur with ⟨next, -, hnext⟩
              rcases ih next w hnext with ⟨root, hroot⟩
              refine ⟨.object [(seg, root)], ?_⟩
              rw [if_neg hseg]
              simp [Value.get, hroot]
  unfold resolve at h ⊢
  dsimp only at h ⊢
  cases hrest : stripPrefix "trigger.payload".toList (Text.trim path).toList with
  | some rest =>
      rw [hrest] at h
      unfold lookupJson at h ⊢
      dsimp only at h ⊢
      by_cases hempty : String.ofList ((stripPrefix ['.'] rest).getD []) = ""
      · exact ⟨⟨.string "", "", ""⟩, by rw [if_pos hempty]⟩
      · rw [if_neg hempty] at h
        rcases hbuild _ _ _ h with ⟨root, hroot⟩
        exact ⟨⟨root, "", ""⟩, by rw [if_neg hempty]; exact hroot⟩
  | none =>
      rw [hrest] at h
      refine ⟨⟨.string "", "", ""⟩, ?_⟩
      dsimp only at h ⊢
      split at h
      · next heq => rw [if_pos heq]
      · next hne =>
          split at h
          · next heq => rw [if_neg hne, if_pos heq]
          · cases h

/-! ## Where the two agree -/

/-- A placeholder that is replaced as it should be, whatever the context: it
    always has a value, or its path is read right and no white space is lost. -/
def Kept (inside : List Char) : Prop :=
  (Text.trim (pathOf inside) = "trigger.payload" ∨
    Text.trim (pathOf inside) = "trigger.schedule_id" ∨
    Text.trim (pathOf inside) = "trigger.workflow") ∨
  (¬Misread (pathOf inside) ∧ (pathOf inside).toList = inside)

/-- The context in which everything is empty. -/
def emptyCtx : RenderCtx := ⟨.string "", "", ""⟩

theorem length_pathOf (inside : List Char) : (pathOf inside).toList.length ≤ inside.length ∧
    ((pathOf inside).toList.length = inside.length → (pathOf inside).toList = inside) := by
  have hpath : (pathOf inside).toList = Workflow.trim inside := by
    unfold pathOf Text.trim
    rw [String.toList_ofList, String.toList_ofList]
    rfl
  rcases Workflow.trim_spec inside with ⟨front, back, heq, -, -⟩
  rw [← hpath] at heq
  have hlength := congrArg List.length heq
  rw [List.length_append, List.length_append] at hlength
  refine ⟨by omega, fun h => ?_⟩
  have hfront : front = [] := List.length_eq_zero_iff.mp (by omega)
  have hback : back = [] := List.length_eq_zero_iff.mp (by omega)
  rw [hfront, hback, List.nil_append, List.append_nil] at heq
  exact heq.symm

/-- In the empty context only the paths that always resolve have a value. -/
theorem documented_emptyCtx (v : Value) (h : documented path emptyCtx = some v) :
    v = .string "" ∧ (Text.trim path = "trigger.payload" ∨
      Text.trim path = "trigger.schedule_id" ∨ Text.trim path = "trigger.workflow") := by
  unfold documented at h
  dsimp only at h
  split at h
  · next heq => exact ⟨(Option.some.inj h).symm, Or.inl heq⟩
  · split at h
    · next sub hsub =>
        exfalso
        split at h
        · cases h
        · next hne =>
            -- Nothing is found below a text.
            have hnone : ∀ segs : List String, segs ≠ [] →
                lookupSegments emptyCtx.payload segs = none := by
              intro segs hsegs
              cases segs with
              | nil => exact absurd rfl hsegs
              | cons seg rest =>
                  unfold lookupSegments
                  split
                  · rfl
                  · split <;> rfl
            unfold lookupJson at h
            rw [if_neg, hnone] at h
            · cases h
            · rw [ne_eq, List.map_eq_nil_iff]
              unfold Text.splitOn
              split
              · exact List.cons_ne_nil _ _
              · split
                · exact List.cons_ne_nil _ _
                · split <;> exact List.cons_ne_nil _ _
            · intro heq
              refine hne ?_
              rw [← String.toList_ofList (l := sub), heq]
              rfl
    · split at h
      · next heq => exact ⟨(Option.some.inj h).symm, Or.inr (Or.inl heq)⟩
      · split at h
        · next heq => exact ⟨(Option.some.inj h).symm, Or.inr (Or.inr heq)⟩
        · cases h

theorem documented_always
    (h : Text.trim path = "trigger.payload" ∨ Text.trim path = "trigger.schedule_id" ∨
      Text.trim path = "trigger.workflow") :
    ∃ v, documented path ctx = some v := by
  unfold documented
  dsimp only
  rcases h with heq | heq | heq <;> rw [heq]
  · exact ⟨_, if_pos rfl⟩
  · exact ⟨.string ctx.scheduleId, rfl⟩
  · exact ⟨.string ctx.workflow, rfl⟩

theorem length_written (inside : List Char) : (written inside).length = inside.length + 4 := by
  simp [written]

/-- In the empty context a placeholder that is not kept comes out shorter. -/
theorem length_replacement (text : Value → String) (inside : List Char) :
    (replacement text emptyCtx inside).length ≤ (asDocumented text emptyCtx inside).length ∧
    ((replacement text emptyCtx inside).length = (asDocumented text emptyCtx inside).length →
      Kept inside) := by
  unfold replacement asDocumented
  dsimp only
  by_cases hmisread : Misread (pathOf inside)
  · have hresolve := resolve_misread (pathOf inside) emptyCtx hmisread
    unfold pathOf at hresolve
    rw [documented_misread _ _ hmisread, hresolve]
    simp only [emptyCtx, length_written]
    exact ⟨Nat.zero_le _, fun h => by simp at h⟩
  · have hresolve := resolve_eq_documented (pathOf inside) emptyCtx hmisread
    unfold pathOf at hresolve ⊢
    rw [hresolve]
    cases hvalue : documented (Text.trim (.ofList inside)) emptyCtx with
    | some v =>
        rcases documented_emptyCtx _ v hvalue with ⟨rfl, hpath⟩
        exact ⟨le_refl _, fun _ => Or.inl hpath⟩
    | none =>
        have hlength := length_pathOf inside
        unfold pathOf at hlength
        dsimp only
        rw [length_written, List.length_append, List.length_append]
        simp only [List.length_cons, List.length_nil]
        refine ⟨by omega, fun h => Or.inr ⟨hmisread, hlength.2 (by omega)⟩⟩

theorem replacement_kept (inside : List Char) (h : Kept inside) :
    replacement text ctx inside = asDocumented text ctx inside := by
  have hread : ¬Misread (pathOf inside) := by
    rcases h with hpath | ⟨hread, -⟩
    · rintro ⟨rest, hrest, hne, -⟩
      have hno : ∀ other : String, stripPrefix "trigger.payload".toList other.toList = none →
          Text.trim (pathOf inside) ≠ other := by
        rintro _ hother rfl
        rw [(stripPrefix_eq_some _ _ rest).mpr hrest] at hother
        cases hother
      rcases hpath with heq | heq | heq
      · rw [heq] at hrest
        exact hne (List.append_right_eq_self.mp hrest.symm)
      · exact hno _ (by decide) heq
      · exact hno _ (by decide) heq
    · exact hread
  have hresolve := resolve_eq_documented (pathOf inside) ctx hread
  unfold replacement asDocumented
  dsimp only
  unfold pathOf at hresolve ⊢
  rw [hresolve]
  cases hvalue : documented (Text.trim (.ofList inside)) ctx with
  | some v => cases v <;> rfl
  | none =>
      rcases h with hpath | ⟨-, hinside⟩
      · rcases documented_always (pathOf inside) ctx hpath with ⟨v, hv⟩
        unfold pathOf at hv
        rw [hvalue] at hv
        cases hv
      · unfold pathOf at hinside
        dsimp only
        rw [hinside]
        rfl

/-- What fills placeholders with shorter texts fills them with texts of the same
    length if the whole has the same length. -/
theorem length_fill (f g : List Char → List Char) (segs : List Segment)
    (h : ∀ x, (f x).length ≤ (g x).length) :
    (segs.flatMap (Segment.fill f)).length ≤ (segs.flatMap (Segment.fill g)).length ∧
    ((segs.flatMap (Segment.fill f)).length = (segs.flatMap (Segment.fill g)).length →
      ∀ x, .placeholder x ∈ segs → (f x).length = (g x).length) := by
  induction segs with
  | nil => exact ⟨le_refl _, fun _ x hx => absurd hx List.not_mem_nil⟩
  | cons seg segs ih =>
      rw [List.flatMap_cons, List.flatMap_cons, List.length_append, List.length_append]
      have hseg : (seg.fill f).length ≤ (seg.fill g).length := by
        cases seg with
        | literal c => exact le_refl 1
        | placeholder x => exact h x
      refine ⟨Nat.add_le_add hseg ih.1, fun heq x hx => ?_⟩
      have hle := ih.1
      rcases List.mem_cons.mp hx with rfl | hx
      · exact (by omega : (Segment.fill f (.placeholder x)).length =
          (Segment.fill g (.placeholder x)).length)
      · exact ih.2 (by omega) x hx

theorem fill_congr (f g : List Char → List Char) (segs : List Segment)
    (h : ∀ x, .placeholder x ∈ segs → f x = g x) :
    segs.flatMap (Segment.fill f) = segs.flatMap (Segment.fill g) := by
  refine List.flatMap_congr (fun seg hseg => ?_)
  cases seg with
  | literal c => rfl
  | placeholder x => exact h x hseg

/-- The loop renders as documented exactly where every placeholder is kept. -/
theorem interpolate_iff (text : Value → String) (s : String) :
    (∀ ctx, interpolate text s ctx =
        .ofList ((segments s).flatMap (Segment.fill (asDocumented text ctx)))) ↔
      ∀ x, .placeholder x ∈ segments s → Kept x := by
  unfold interpolate segments
  simp only [interpolateFrom_eq]
  constructor
  · intro h x hx
    have hlists := String.ofList_injective (h emptyCtx)
    exact (length_replacement text x).2 ((length_fill _ _ _
      (fun x => (length_replacement text x).1)).2 (congrArg List.length hlists) x hx)
  · intro h ctx
    rw [fill_congr _ _ _ (fun x hx => replacement_kept text ctx x (h x hx))]

/-! ## Templates that are taken for one placeholder -/

theorem segmentsFrom_text (front rest : List Char) (h : '{' ∉ front) :
    segmentsFrom none (front ++ rest) = front.map .literal ++ segmentsFrom none rest := by
  induction front with
  | nil => rfl
  | cons c front ih =>
      rw [List.mem_cons, not_or] at h
      rw [List.cons_append, segmentsFrom, ih h.2]
      · rfl
      · rintro r rfl
        exact absurd rfl h.1

theorem segmentsFrom_placeholder (inside read rest : List Char)
    (h : Workflow.Unpaired '}' inside) :
    segmentsFrom (some read) (inside ++ '}' :: '}' :: rest) =
      .placeholder (read.reverse ++ inside) :: segmentsFrom none rest := by
  induction inside generalizing read with
  | nil => rw [List.nil_append, segmentsFrom, List.append_nil]
  | cons c inside ih =>
      rcases (Workflow.unpaired_cons '}' c inside).mp h with ⟨hfirst, hinside⟩
      rw [List.cons_append, segmentsFrom, ih (c :: read) hinside, List.reverse_cons,
        List.append_assoc]
      · rfl
      · rintro r rfl heq
        refine hfirst ⟨rfl, ?_⟩
        cases inside with
        | nil => rfl
        | cons d inside =>
            rw [List.cons_append, List.cons.injEq] at heq
            rw [heq.1]
            rfl

theorem contains_iff (pattern : String) (s : List Char) :
    Text.contains pattern (.ofList s) = true ↔ pattern.toList <:+: s := by
  unfold Text.contains
  rw [String.toList_ofList, List.any_eq_true, List.infix_iff_prefix_suffix]
  constructor
  · rintro ⟨t, ht, hfront⟩
    exact ⟨t, List.isPrefixOf_iff_prefix.mp hfront, (List.mem_tails t s).mp ht⟩
  · rintro ⟨t, hfront, ht⟩
    exact ⟨t, (List.mem_tails t s).mpr ht, List.isPrefixOf_iff_prefix.mpr hfront⟩

/-- A template that is taken for one placeholder has one, with text without
    placeholders around it. It ends where the template does, white space aside,
    or one brace earlier. -/
theorem segments_of_whole (s path : String) (h : wholePlaceholder s = some path) :
    ∃ front inside rest : List Char, segments s =
        front.map .literal ++ .placeholder inside :: rest.map .literal ∧
      Text.contains "\x7b\x7b" (.ofList inside) = false ∧ (rest = [] → path = pathOf inside) := by
  unfold wholePlaceholder at h
  simp only [Option.bind_eq_bind, Option.bind_eq_some_iff] at h
  rcases h with ⟨body, hbody, inner, hinner, h⟩
  rw [stripPrefix_eq_some] at hbody
  have hclose : body = inner ++ ['}', '}'] := by
    unfold stripSuffix at hinner
    rcases Option.map_eq_some_iff.mp hinner with ⟨r, hr, rfl⟩
    rw [stripPrefix_eq_some] at hr
    have hback := congrArg List.reverse hr
    rw [List.reverse_reverse, List.reverse_append] at hback
    exact hback
  split at h
  · cases h
  · next hpairs =>
      rw [Bool.or_eq_true, not_or, Bool.not_eq_true, Bool.not_eq_true] at hpairs
      cases h
      have htrim : Workflow.trim s.toList = '{' :: '{' :: (inner ++ ['}', '}']) := by
        rw [← hclose]
        unfold Text.trim at hbody
        rw [String.toList_ofList] at hbody
        exact hbody
      rcases Workflow.trim_spec s.toList with ⟨front, back, hs, hfront, hback⟩
      have hback' := Workflow.ne_of_isWhitespace back hback
      rw [htrim] at hs
      have hfill : ∀ inside rest : List Char, Workflow.Unpaired '}' inside → '{' ∉ rest →
          inner ++ ['}', '}'] ++ back = inside ++ '}' :: '}' :: rest →
          segments s = front.map .literal ++ .placeholder inside :: rest.map .literal := by
        intro inside rest hinside hrest heq
        have hend : segmentsFrom none rest = rest.map .literal := by
          have htext := segmentsFrom_text rest [] hrest
          rw [List.append_nil] at htext
          rw [htext, segmentsFrom, List.append_nil]
        unfold segments
        rw [hs, List.cons_append, List.cons_append, heq,
          segmentsFrom_text front _ (Workflow.ne_of_isWhitespace front hfront), segmentsFrom,
          segmentsFrom_placeholder inside [] rest hinside, hend]
        rfl
      by_cases hunpaired : Workflow.Unpaired '}' inner
      · exact ⟨front, inner, back, hfill inner back hunpaired hback' (by simp), hpairs.1,
          fun _ => rfl⟩
      · -- No pair is inside, so the pair is made with the first closing brace.
        rcases Workflow.exists_first_pair '}' (inner ++ ['}']) hunpaired with
          ⟨init, rest, heq, hinit⟩
        rcases rest.eq_nil_or_concat' with rfl | ⟨rest, c, rfl⟩
        · have hinner' : inner = init ++ ['}'] := by
            have hsplit : inner ++ ['}'] = (init ++ ['}']) ++ ['}'] := by
              rw [heq, List.append_assoc]
              rfl
            exact List.append_cancel_right hsplit
          refine ⟨front, init, '}' :: back, hfill init _ hinit ?_ (by rw [hinner']; simp), ?_,
            fun h => nomatch h⟩
          · rw [List.mem_cons, not_or]
            exact ⟨by decide, hback'⟩
          · rw [← Bool.not_eq_true, contains_iff] at hpairs ⊢
            exact fun hopen => hpairs.1 (hinner' ▸ hopen.trans (List.prefix_append _ _).isInfix)
        · exfalso
          have hsplit : inner ++ ['}'] = (init ++ '}' :: '}' :: rest) ++ [c] := by
            rw [heq, List.append_assoc]
            rfl
          have hinner' := List.append_inj_left' hsplit rfl
          have hpair : "\x7d\x7d".toList <:+: inner := by
            rw [hinner']
            exact ⟨init, rest, List.append_assoc _ _ _⟩
          rw [(contains_iff _ _).mpr hpair] at hpairs
          cases hpairs.2

theorem soleInside_of_segments (front inside rest : List Char)
    (h : segments s = front.map .literal ++ .placeholder inside :: rest.map .literal)
    (hopen : Text.contains "\x7b\x7b" (.ofList inside) = false) :
    soleInside s = if front = [] ∧ rest = [] then some inside else none := by
  unfold soleInside
  rw [h]
  cases front with
  | cons c front => cases front <;> simp
  | nil =>
      cases rest with
      | cons c rest => simp
      | nil =>
          simp [hopen]

/-- A template is rendered as it should be in every context: where it is taken
    for one placeholder and is one, its path is read right; where it is not
    one, nothing is found for the path that is looked up, nor for the right
    one; and where it is not taken for one each placeholder is kept. -/
def Faithful (s : String) : Prop :=
  match wholePlaceholder s with
  | none => ∀ x, .placeholder x ∈ segments s → Kept x
  | some path =>
    if (soleInside s).isSome then ¬Misread path
    else (∀ ctx, resolve path ctx = none) ∧
      ∀ x, .placeholder x ∈ segments s → ∀ ctx, documented (pathOf x) ctx = none

theorem source_segments : (segments s).flatMap (Segment.fill written) = s.toList :=
  (source_segmentsFrom none s.toList).trans (List.nil_append _)

/-- A template that is one placeholder is taken for it. -/
theorem whole_of_soleInside (inside : List Char) (h : soleInside s = some inside) :
    wholePlaceholder s = some (pathOf inside) := by
  have hparts : segments s = [.placeholder inside] ∧
      Text.contains "\x7b\x7b" (.ofList inside) = false := by
    unfold soleInside at h
    split at h
    · next hsegments =>
        split at h
        · cases h
        · next hopen =>
            cases h
            exact ⟨hsegments, Bool.not_eq_true _ ▸ hopen⟩
    · cases h
  rcases hparts with ⟨hsegments, hopen⟩
  have hs : s.toList = '{' :: '{' :: (inside ++ ['}', '}']) := by
    rw [← source_segments s, hsegments]
    simp [Segment.fill, written]
  -- The placeholder ends at the first pair, so there is none in it.
  have hunpaired : Workflow.Unpaired '}' inside := by
    rcases Workflow.exists_first_pair '}' (inside ++ ['}', '}'])
      (Workflow.countPairs_append_pair '}' inside []) with ⟨front, rest, heq, hfront⟩
    unfold segments at hsegments
    rw [hs, heq, segmentsFrom, segmentsFrom_placeholder front [] rest hfront] at hsegments
    simp only [List.cons.injEq, Segment.placeholder.injEq] at hsegments
    rw [← hsegments.1]
    exact hfront
  have hclose : Text.contains "\x7d\x7d" (.ofList inside) = false := by
    rw [← Bool.not_eq_true, contains_iff]
    rintro ⟨a, b, rfl⟩
    unfold Workflow.Unpaired at hunpaired
    rw [List.append_assoc, List.append_assoc] at hunpaired
    exact Workflow.countPairs_append_pair '}' a _ hunpaired
  have htrim : (Text.trim s).toList = '{' :: '{' :: (inside ++ ['}', '}']) := by
    unfold Text.trim
    rw [String.toList_ofList, hs]
    exact Workflow.trim_braces inside
  have hfront : stripPrefix ['{', '{'] ('{' :: '{' :: (inside ++ ['}', '}'])) =
      some (inside ++ ['}', '}']) := (stripPrefix_eq_some _ _ _).mpr rfl
  have hsuffix : stripSuffix ['}', '}'] (inside ++ ['}', '}']) = some inside := by
    unfold stripSuffix
    rw [(stripPrefix_eq_some _ _ inside.reverse).mpr (by simp), Option.map_some,
      List.reverse_reverse]
  unfold wholePlaceholder
  rw [htrim]
  simp only [Option.bind_eq_bind, Option.bind_some, hfront, hsuffix, hopen, hclose, Bool.or_self,
    Bool.false_eq_true, if_false]
  rfl

/-- Nothing is lost between the segments of a template, and it is rendered by
    them in every context exactly when it is faithful. -/
theorem renderString_faithful_iff (text : Value → String) (s : String) :
    (segments s).flatMap (Segment.fill written) = s.toList ∧
    ((∀ ctx, renderString text s ctx = meaning text s ctx) ↔ Faithful s) := by
  refine ⟨source_segments s, ?_⟩
  unfold renderString meaning Faithful
  cases hwhole : wholePlaceholder s with
  | none =>
      have hsole : soleInside s = none := by
        cases hsole : soleInside s with
        | none => rfl
        | some inside =>
            rw [whole_of_soleInside s inside hsole] at hwhole
            cases hwhole
      rw [hsole]
      simp only [Value.string.injEq]
      exact interpolate_iff text s
  | some path =>
      rcases segments_of_whole s path hwhole with ⟨front, inside, rest, hsegments, hopen, hpath⟩
      have hsource := source_segments s
      have hfill : ∀ f, (segments s).flatMap (Segment.fill f) = front ++ (f inside ++ rest) := by
        intro f
        rw [hsegments, List.flatMap_append, List.flatMap_cons, fill_literals, fill_literals]
        rfl
      rw [hfill] at hsource
      have hlength := congrArg List.length hsource
      rw [List.length_append, List.length_append, length_written] at hlength
      rw [soleInside_of_segments s front inside rest hsegments hopen]
      by_cases hends : front = [] ∧ rest = []
      · simp only [if_pos hends, Option.isSome_some, if_true, hpath hends.2]
        constructor
        · intro h hmisread
          have hempty := h emptyCtx
          rw [resolve_misread _ _ hmisread, documented_misread _ _ hmisread] at hempty
          have hs : s = "" := (Value.string.inj hempty).symm
          rw [hs] at hlength
          simp at hlength
        · intro h ctx
          rw [resolve_eq_documented _ ctx h]
      · simp only [if_neg hends, Option.isSome_none, Bool.false_eq_true, if_false, hfill]
        constructor
        · intro h
          have hsilent : ∀ ctx, resolve path ctx = none := by
            intro ctx
            cases hvalue : resolve path ctx with
            | none => rfl
            | some v =>
                exfalso
                rcases exists_resolve_empty path ctx v hvalue with ⟨ctx', hctx'⟩
                have hcontext := h ctx'
                rw [hctx'] at hcontext
                have hlists := congrArg String.toList (Value.string.inj hcontext)
                simp only [String.toList_ofList] at hlists
                have hnil := List.append_eq_nil_iff.mp hlists.symm
                exact hends ⟨hnil.1, (List.append_eq_nil_iff.mp hnil.2).2⟩
          refine ⟨hsilent, fun x hx ctx => ?_⟩
          have hxin : x = inside := by
            rw [hsegments] at hx
            simpa using hx
          rw [hxin]
          cases hvalue : documented (pathOf inside) ctx with
          | none => rfl
          | some v =>
              exfalso
              have hread : ¬Misread (pathOf inside) := fun hmisread => by
                rw [documented_misread _ ctx hmisread] at hvalue
                cases hvalue
              rw [← resolve_eq_documented _ ctx hread] at hvalue
              rcases exists_resolve_empty _ ctx v hvalue with ⟨ctx', hctx'⟩
              have hcontext := h ctx'
              rw [resolve_eq_documented _ ctx' hread] at hctx'
              unfold asDocumented at hcontext
              rw [hsilent, hctx', Option.getD_none] at hcontext
              have hlists := congrArg (fun v : String => v.toList.length)
                (Value.string.inj hcontext)
              simp only [String.toList_ofList, List.length_append] at hlists
              have hzero : "".toList.length = 0 := rfl
              omega
        · rintro ⟨hsilent, hdocumented⟩ ctx
          have hx : Segment.placeholder inside ∈ segments s := by
            rw [hsegments]
            simp
          unfold asDocumented
          rw [hsilent, hdocumented inside hx, hsource, Option.getD_none, String.ofList_toList]

/-- The white space in an unknown placeholder is lost. -/
theorem white_space_is_lost :
    renderString (fun _ => "") "\x7b\x7b foo \x7d\x7d x" emptyCtx =
        .string "\x7b\x7bfoo\x7d\x7d x" ∧
      meaning (fun _ => "") "\x7b\x7b foo \x7d\x7d x" emptyCtx =
        .string "\x7b\x7b foo \x7d\x7d x" := ⟨rfl, rfl⟩

end Scheduler

end DccMcp
