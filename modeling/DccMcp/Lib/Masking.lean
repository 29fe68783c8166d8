import DccMcp.Lib.Json

/-!
# Masking

Members of JSON objects that are replaced by marks, however deep they are.

A rule looks at the name of a member, at what its object says of all its members,
at how deep it is, and at whether it is null. It does not look at what is in the
member. So what a rule replaces is the same for two documents that differ in what
is replaced only, and two rules in a row are one rule.

## Main definitions

* `Descent`: What a walk knows where it is.
* `Rule`, `mask`: What is replaced, and a document in which it is.
* `Secret`, `Alike`: What may differ, and two documents that differ in it only.
* `Value.modifyMember`: A member is changed.
* `Rule.andThen`: Two rules in a row.

## Theorems

* `alike_mask`: What a rule replaces no longer differs.
* `alike_modifyMember`: A change that is the same in both keeps the differences secret.
* `eq_of_alike`: Nothing else differs.
* `mask_mask`: Two rules in a row are one.
-/

namespace DccMcp

namespace Json

def Value.isNull : Value → Bool
  | .null => true
  | _ => false

/-- Where a walk is, below a member and below an array, and what an object says of
    its members. -/
structure Descent (Z B : Type) where
  member : Z → String → Z
  item : Z → Z
  sign : List (String × Value) → B

/-- The mark in place of a member, if it is replaced. -/
abbrev Rule (Z B : Type) := Z → B → String → Bool → Option String

/-- The members that may differ. -/
abbrev Secret (Z B : Type) := Z → B → String → Bool

variable {Z B : Type}

section Walk

variable (d : Descent Z B)

mutual

/-- A document in which a rule has replaced members. -/
def mask (f : Rule Z B) (z : Z) : Value → Value
  | .array items => .array (maskItems f (d.item z) items)
  | .object members => .object (maskMembers f z (d.sign members) members)
  | v => v

def maskItems (f : Rule Z B) (z : Z) : List Value → List Value
  | [] => []
  | v :: rest => mask f z v :: maskItems f z rest

def maskMembers (f : Rule Z B) (z : Z) (b : B) : List (String × Value) → List (String × Value)
  | [] => []
  | (key, v) :: rest =>
    (key, match f z b key v.isNull with
      | some mark => .string mark
      | none => mask f (d.member z key) v) :: maskMembers f z b rest

end

mutual

/-- The paths of the members that a rule replaces, in the order of the document. -/
def marked (f : Rule Z B) (z : Z) (path : List String) : Value → List (List String)
  | .array items => markedItems f (d.item z) path 0 items
  | .object members => markedMembers f z path (d.sign members) members
  | _ => []

def markedItems (f : Rule Z B) (z : Z) (path : List String) (i : Nat) :
    List Value → List (List String)
  | [] => []
  | v :: rest => marked f z (path ++ [toString i]) v ++ markedItems f z path (i + 1) rest

def markedMembers (f : Rule Z B) (z : Z) (path : List String) (b : B) :
    List (String × Value) → List (List String)
  | [] => []
  | (key, v) :: rest =>
    (match f z b key v.isNull with
      | some _ => [path ++ [key]]
      | none => marked f (d.member z key) (path ++ [key]) v) ++ markedMembers f z path b rest

end

mutual

/-- Two documents that differ in secrets only. A secret that is null is not kept. -/
def Alike (S : Secret Z B) (z : Z) : Value → Value → Prop
  | .array items, .array items' => AlikeItems S (d.item z) items items'
  | .object members, .object members' => AlikeMembers S z (d.sign members) members members'
  | v, v' => v = v'

def AlikeItems (S : Secret Z B) (z : Z) : List Value → List Value → Prop
  | [], [] => True
  | v :: rest, v' :: rest' => Alike S z v v' ∧ AlikeItems S z rest rest'
  | _, _ => False

def AlikeMembers (S : Secret Z B) (z : Z) (b : B) :
    List (String × Value) → List (String × Value) → Prop
  | [], [] => True
  | (key, v) :: rest, (key', v') :: rest' =>
    key = key' ∧
      (Alike S (d.member z key) v v' ∨ S z b key = true ∧ v.isNull = false ∧ v'.isNull = false) ∧
      AlikeMembers S z b rest rest'
  | _, _ => False

end

/-! ## What a walk leaves as it is -/

theorem isNull_mask (f : Rule Z B) (z : Z) (v : Value) : (mask d f z v).isNull = v.isNull := by
  cases v <;> rfl

variable (S : Secret Z B) (z : Z)

theorem Alike.isNull (v v' : Value) (h : Alike d S z v v') : v.isNull = v'.isNull := by
  cases v <;> cases v' <;> first | rfl | cases h

/-- What an object says of its members does not change with what a rule replaces. -/
def Unseen (f : Rule Z B) : Prop :=
  ∀ z b members, d.sign (maskMembers d f z b members) = d.sign members

/-- What an object says of its members is not secret. -/
def Open (S : Secret Z B) : Prop :=
  ∀ z b members members', AlikeMembers d S z b members members' → d.sign members = d.sign members'

mutual

theorem alike_refl (S : Secret Z B) (z : Z) (v : Value) : Alike d S z v v := by
  cases v with
  | array items => exact alikeItems_refl S _ items
  | object members => exact alikeMembers_refl S z _ members
  | null | bool _ | number _ | string _ => rfl

theorem alikeItems_refl (S : Secret Z B) (z : Z) (items : List Value) :
    AlikeItems d S z items items := by
  cases items with
  | nil => trivial
  | cons v rest => exact ⟨alike_refl S z v, alikeItems_refl S z rest⟩

theorem alikeMembers_refl (S : Secret Z B) (z : Z) (b : B) (members : List (String × Value)) :
    AlikeMembers d S z b members members := by
  cases members with
  | nil => trivial
  | cons entry rest =>
      exact ⟨rfl, .inl (alike_refl S _ entry.2), alikeMembers_refl S z b rest⟩

end

/-- A text in a document is the same in two documents that agree. -/
theorem Alike.asStr (v v' : Value) (h : Alike d S z v v') : v.asStr = v'.asStr := by
  cases v <;> cases v' <;> first | rfl | exact congrArg Value.asStr h

theorem asStr_mask (f : Rule Z B) (z : Z) (v : Value) : (mask d f z v).asStr = v.asStr := by
  cases v <;> rfl

/-- The member of a name that is not secret. -/
theorem AlikeMembers.lookup (b : B) (key : String) (hkey : S z b key = false)
    (members members' : List (String × Value))
    (h : AlikeMembers d S z b members members') :
    Option.Rel (Alike d S (d.member z key)) (members.lookup key) (members'.lookup key) := by
  induction members generalizing members' with
  | nil =>
      cases members' with
      | nil => exact .none
      | cons _ _ => exact h.elim
  | cons entry rest ih =>
      cases members' with
      | nil => exact h.elim
      | cons entry' rest' =>
          rcases entry with ⟨name, v⟩
          rcases entry' with ⟨name', v'⟩
          rcases h with ⟨hname, hdiffer, hrest⟩
          subst hname
          rw [List.lookup_cons, List.lookup_cons]
          by_cases hfound : key = name
          · subst hfound
            rw [beq_self_eq_true]
            rcases hdiffer with hagree | hsecret
            · exact .some hagree
            · rw [hkey] at hsecret
              cases hsecret.1
          · rw [beq_false_of_ne hfound]
            exact ih rest' hrest

theorem lookup_maskMembers (f : Rule Z B) (z : Z) (b : B) (key : String)
    (hkey : ∀ null, f z b key null = none) (members : List (String × Value)) :
    (maskMembers d f z b members).lookup key =
      (members.lookup key).map (mask d f (d.member z key)) := by
  induction members with
  | nil => rfl
  | cons entry rest ih =>
      rcases entry with ⟨name, v⟩
      unfold maskMembers
      rw [List.lookup_cons, List.lookup_cons]
      by_cases hfound : key = name
      · subst hfound
        rw [beq_self_eq_true, hkey]
        rfl
      · rw [beq_false_of_ne hfound]
        exact ih

/-! ## What is not reached -/

section Unreached

variable (f : Rule Z B) (P : Z → Prop)

mutual

/-- A rule changes nothing where it replaces nothing. -/
theorem mask_eq_self (hmember : ∀ z key, P z → P (d.member z key)) (hitem : ∀ z, P z → P (d.item z))
    (hnone : ∀ z b key null, P z → f z b key null = none) (z : Z) (hz : P z) (v : Value) :
    mask d f z v = v := by
  cases v with
  | array items =>
      exact congrArg Value.array (maskItems_eq_self hmember hitem hnone _ (hitem z hz) items)
  | object members =>
      exact congrArg Value.object (maskMembers_eq_self hmember hitem hnone z hz _ members)
  | null | bool _ | number _ | string _ => rfl

theorem maskItems_eq_self (hmember : ∀ z key, P z → P (d.member z key))
    (hitem : ∀ z, P z → P (d.item z)) (hnone : ∀ z b key null, P z → f z b key null = none)
    (z : Z) (hz : P z) (items : List Value) : maskItems d f z items = items := by
  cases items with
  | nil => rfl
  | cons v rest =>
      show mask d f z v :: maskItems d f z rest = _
      rw [mask_eq_self hmember hitem hnone z hz v,
        maskItems_eq_self hmember hitem hnone z hz rest]

theorem maskMembers_eq_self (hmember : ∀ z key, P z → P (d.member z key))
    (hitem : ∀ z, P z → P (d.item z)) (hnone : ∀ z b key null, P z → f z b key null = none)
    (z : Z) (hz : P z) (b : B) (members : List (String × Value)) :
    maskMembers d f z b members = members := by
  cases members with
  | nil => rfl
  | cons entry rest =>
      rcases entry with ⟨key, v⟩
      unfold maskMembers
      rw [hnone z b key _ hz, maskMembers_eq_self hmember hitem hnone z hz b rest]
      dsimp only
      rw [mask_eq_self hmember hitem hnone _ (hmember z key hz) v]

end

end Unreached

/-! ## A member is changed -/

/-- The member of a name, changed. -/
def Value.modifyMember (key : String) (g : Value → Value) : Value → Value
  | .object members =>
    .object (members.map (fun entry => (entry.1, if entry.1 = key then g entry.2 else entry.2)))
  | v => v

theorem isNull_modifyMember (key : String) (g : Value → Value) (v : Value) :
    (v.modifyMember key g).isNull = v.isNull := by
  cases v <;> rfl

theorem alikeMembers_modify (b b' : B) (key : String) (g : Value → Value)
    (hsign : ∀ key, S z b key = S z b' key)
    (hagree : ∀ v v', Alike d S (d.member z key) v v' → Alike d S (d.member z key) (g v) (g v'))
    (hnull : ∀ v, v.isNull = false → (g v).isNull = false)
    (members members' : List (String × Value)) (h : AlikeMembers d S z b members members') :
    AlikeMembers d S z b'
      (members.map (fun entry => (entry.1, if entry.1 = key then g entry.2 else entry.2)))
      (members'.map (fun entry => (entry.1, if entry.1 = key then g entry.2 else entry.2))) := by
  induction members generalizing members' with
  | nil =>
      cases members' with
      | nil => trivial
      | cons _ _ => exact h.elim
  | cons entry rest ih =>
      cases members' with
      | nil => exact h.elim
      | cons entry' rest' =>
          rcases entry with ⟨name, v⟩
          rcases entry' with ⟨name', v'⟩
          rcases h with ⟨hname, hdiffer, hrest⟩
          subst hname
          refine ⟨rfl, ?_, ih rest' hrest⟩
          dsimp only
          rw [← hsign]
          split
          next hfound =>
            subst hfound
            exact hdiffer.imp (hagree v v') (fun h => ⟨h.1, hnull v h.2.1, hnull v' h.2.2⟩)
          next => exact hdiffer

/-- Two documents that agree still do after the same change, if what an object says of
    its members makes none of them secret. -/
theorem alike_modifyMember (key : String) (g : Value → Value)
    (hsign : ∀ b b' key, S z b key = S z b' key)
    (hagree : ∀ v v', Alike d S (d.member z key) v v' → Alike d S (d.member z key) (g v) (g v'))
    (hnull : ∀ v, v.isNull = false → (g v).isNull = false) (v v' : Value)
    (h : Alike d S z v v') : Alike d S z (v.modifyMember key g) (v'.modifyMember key g) := by
  cases v with
  | object members =>
      cases v' with
      | object members' =>
          exact alikeMembers_modify d S z _ _ key g (hsign _ _) hagree hnull members members' h
      | null | bool _ | number _ | string _ | array _ => cases h
  | array items =>
      cases v' with
      | array items' => exact h
      | null | bool _ | number _ | string _ | object _ => cases h
  | null | bool _ | number _ | string _ =>
      cases v' <;> first | exact h | cases h

/-! ## What a rule replaces -/

section Replaced

variable (f : Rule Z B) (S S' : Secret Z B)

mutual

/-- After a rule, two documents differ only in the secrets that it has not replaced. -/
theorem alike_mask
    (hcovers : ∀ z b key, S z b key = true → (f z b key false).isSome = true ∨ S' z b key = true)
    (hunseen : Unseen d f) (hopen : Open d S) (z : Z)
    (v v' : Value) (h : Alike d S z v v') :
    Alike d S' z (mask d f z v) (mask d f z v') := by
  cases v with
  | array items =>
      cases v' with
      | array items' => exact alikeItems_mask hcovers hunseen hopen _ items items' h
      | null | bool _ | number _ | string _ | object _ => cases h
  | object members =>
      cases v' with
      | object members' =>
          have hmembers := alikeMembers_mask hcovers hunseen hopen z (d.sign members) members
            members' h
          show AlikeMembers d S' z (d.sign (maskMembers d f z (d.sign members) members))
            (maskMembers d f z (d.sign members) members)
            (maskMembers d f z (d.sign members') members')
          rw [hunseen, ← hopen z _ members members' h]
          exact hmembers
      | null | bool _ | number _ | string _ | array _ => cases h
  | null | bool _ | number _ | string _ =>
      cases v' <;> first | exact h | cases h

theorem alikeItems_mask
    (hcovers : ∀ z b key, S z b key = true → (f z b key false).isSome = true ∨ S' z b key = true)
    (hunseen : Unseen d f) (hopen : Open d S) (z : Z)
    (items items' : List Value) (h : AlikeItems d S z items items') :
    AlikeItems d S' z (maskItems d f z items) (maskItems d f z items') := by
  cases items with
  | nil =>
      cases items' with
      | nil => trivial
      | cons _ _ => exact h.elim
  | cons v rest =>
      cases items' with
      | nil => exact h.elim
      | cons v' rest' => exact ⟨alike_mask hcovers hunseen hopen z v v' h.1,
        alikeItems_mask hcovers hunseen hopen z rest rest' h.2⟩

theorem alikeMembers_mask
    (hcovers : ∀ z b key, S z b key = true → (f z b key false).isSome = true ∨ S' z b key = true)
    (hunseen : Unseen d f) (hopen : Open d S) (z : Z) (b : B)
    (members members' : List (String × Value))
    (h : AlikeMembers d S z b members members') :
    AlikeMembers d S' z b (maskMembers d f z b members) (maskMembers d f z b members') := by
  cases members with
  | nil =>
      cases members' with
      | nil => trivial
      | cons _ _ => exact h.elim
  | cons entry rest =>
      cases members' with
      | nil => exact h.elim
      | cons entry' rest' =>
          rcases entry with ⟨key, v⟩
          rcases entry' with ⟨key', v'⟩
          rcases h with ⟨hkey, hdiffer, hrest⟩
          subst hkey
          refine ⟨rfl, ?_, alikeMembers_mask hcovers hunseen hopen z b rest rest' hrest⟩
          rcases hdiffer with hagree | ⟨hsecret, hnull, hnull'⟩
          · rw [← Alike.isNull d S _ v v' hagree]
            cases f z b key v.isNull with
            | some mark => exact .inl rfl
            | none => exact .inl (alike_mask hcovers hunseen hopen _ v v' hagree)
          · -- Both are replaced by the same mark, or both are still there.
            rw [hnull, hnull']
            cases hmark : f z b key false with
            | some mark => exact .inl rfl
            | none =>
                rcases hcovers z b key hsecret with hreplaced | hkept
                · rw [hmark] at hreplaced
                  cases hreplaced
                · exact .inr ⟨hkept, (isNull_mask d f _ v).trans hnull,
                    (isNull_mask d f _ v').trans hnull'⟩

end

end Replaced

mutual

/-- Without secrets, two documents that agree are the same. -/
theorem eq_of_alike (S : Secret Z B) (hnone : ∀ z b key, S z b key = false) (z : Z)
    (v v' : Value) (h : Alike d S z v v') : v = v' := by
  cases v with
  | array items =>
      cases v' with
      | array items' => exact congrArg Value.array (eq_of_alikeItems S hnone _ items items' h)
      | null | bool _ | number _ | string _ | object _ => cases h
  | object members =>
      cases v' with
      | object members' =>
          exact congrArg Value.object (eq_of_alikeMembers S hnone z _ members members' h)
      | null | bool _ | number _ | string _ | array _ => cases h
  | null | bool _ | number _ | string _ =>
      cases v' <;> exact h

theorem eq_of_alikeItems (S : Secret Z B) (hnone : ∀ z b key, S z b key = false) (z : Z)
    (items items' : List Value) (h : AlikeItems d S z items items') : items = items' := by
  cases items with
  | nil =>
      cases items' with
      | nil => rfl
      | cons _ _ => exact h.elim
  | cons v rest =>
      cases items' with
      | nil => exact h.elim
      | cons v' rest' =>
          rw [eq_of_alike S hnone z v v' h.1, eq_of_alikeItems S hnone z rest rest' h.2]

theorem eq_of_alikeMembers (S : Secret Z B) (hnone : ∀ z b key, S z b key = false) (z : Z)
    (b : B) (members members' : List (String × Value))
    (h : AlikeMembers d S z b members members') : members = members' := by
  cases members with
  | nil =>
      cases members' with
      | nil => rfl
      | cons _ _ => exact h.elim
  | cons entry rest =>
      cases members' with
      | nil => exact h.elim
      | cons entry' rest' =>
          rcases entry with ⟨key, v⟩
          rcases entry' with ⟨key', v'⟩
          rcases h with ⟨hkey, hagree | hsecret, hrest⟩
          · rw [hkey, eq_of_alike S hnone _ v v' hagree,
              eq_of_alikeMembers S hnone z b rest rest' hrest]
          · rw [hnone] at hsecret
            cases hsecret.1

end

/-! ## Rules in a row -/

/-- The first rule, and then the second. A mark is not null. -/
def Rule.andThen (f g : Rule Z B) : Rule Z B := fun z b key null =>
  match f z b key null with
  | some mark => some ((g z b key false).getD mark)
  | none => g z b key null

section Row

variable (f g : Rule Z B)

mutual

theorem mask_mask (hunseen : Unseen d f) (z : Z) (v : Value) :
    mask d g z (mask d f z v) = mask d (f.andThen g) z v := by
  cases v with
  | array items => exact congrArg Value.array (maskItems_maskItems hunseen _ items)
  | object members =>
      show Value.object (maskMembers d g z (d.sign (maskMembers d f z (d.sign members) members))
        (maskMembers d f z (d.sign members) members)) = _
      rw [hunseen]
      exact congrArg Value.object (maskMembers_maskMembers hunseen z _ members)
  | null | bool _ | number _ | string _ => rfl

theorem maskItems_maskItems (hunseen : Unseen d f) (z : Z) (items : List Value) :
    maskItems d g z (maskItems d f z items) = maskItems d (f.andThen g) z items := by
  cases items with
  | nil => rfl
  | cons v rest =>
      show mask d g z (mask d f z v) :: maskItems d g z (maskItems d f z rest) = _
      rw [mask_mask hunseen z v, maskItems_maskItems hunseen z rest]
      rfl

theorem maskMembers_maskMembers (hunseen : Unseen d f) (z : Z) (b : B)
    (members : List (String × Value)) :
    maskMembers d g z b (maskMembers d f z b members) =
      maskMembers d (f.andThen g) z b members := by
  cases members with
  | nil => rfl
  | cons entry rest =>
      rcases entry with ⟨key, v⟩
      simp only [maskMembers, Rule.andThen]
      rw [maskMembers_maskMembers hunseen z b rest]
      cases f z b key v.isNull with
      | some mark =>
          show (key, match g z b key false with
            | some mark => Value.string mark
            | none => mask d g (d.member z key) (.string mark)) :: _ = _
          cases g z b key false with
          | some mark' => rfl
          | none => rfl
      | none =>
          dsimp only
          rw [isNull_mask, mask_mask hunseen _ v]

end

end Row

end Walk

end Json

end DccMcp
