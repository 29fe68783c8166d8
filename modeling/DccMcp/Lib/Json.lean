import Mathlib.Data.List.Basic

/-!
# JSON Values

The values that programs pass to each other as JSON, as trees. An object is
the list of its members in the order of the map that holds it, and numbers
keep the three representations a parsed number has.

## Main definitions

* `Number`, `Value`: JSON values, with a decidable equality.
* `Value.get`, `Value.getIndex`: A member of an object, an item of an array.
* `Value.asStr`, `Value.asBool`, `Value.asU64`, `Value.asArray`,
  `Value.asObject`: What a value is, if it is of that kind.
* `insertMember`: A member of an object is replaced in place or put at the end.
-/

namespace DccMcp

namespace Json

/-- A JSON number: an unsigned or a negative integer, or the bits of a float. -/
inductive Number
  | posInt (n : UInt64)
  | negInt (n : Int64)
  | float (bits : UInt64)
  deriving DecidableEq

/-- A JSON value. -/
inductive Value
  | null
  | bool (b : Bool)
  | number (n : Number)
  | string (s : String)
  | array (items : List Value)
  | object (members : List (String × Value))

mutual

/-- Whether two values are the same. -/
def Value.beq : Value → Value → Bool
  | .null, .null => true
  | .bool b, .bool b' => b == b'
  | .number n, .number n' => n == n'
  | .string s, .string s' => s == s'
  | .array items, .array items' => beqItems items items'
  | .object members, .object members' => beqMembers members members'
  | _, _ => false

def beqItems : List Value → List Value → Bool
  | [], [] => true
  | v :: rest, v' :: rest' => v.beq v' && beqItems rest rest'
  | _, _ => false

def beqMembers : List (String × Value) → List (String × Value) → Bool
  | [], [] => true
  | (name, v) :: rest, (name', v') :: rest' => name == name' && v.beq v' && beqMembers rest rest'
  | _, _ => false

end

mutual

theorem Value.beq_iff (v v' : Value) : v.beq v' = true ↔ v = v' := by
  cases v <;> cases v' <;>
    simp [Value.beq]
  next items items' => exact beqItems_iff items items'
  next members members' => exact beqMembers_iff members members'

theorem beqItems_iff (items items' : List Value) : beqItems items items' = true ↔ items = items' := by
  cases items with
  | nil => cases items' <;> simp only [beqItems, reduceCtorEq, Bool.false_eq_true]
  | cons v rest =>
      cases items' with
      | nil => simp only [beqItems, reduceCtorEq, Bool.false_eq_true]
      | cons v' rest' =>
          simp [beqItems, Value.beq_iff v v', beqItems_iff rest rest']

theorem beqMembers_iff (members members' : List (String × Value)) :
    beqMembers members members' = true ↔ members = members' := by
  cases members with
  | nil => cases members' <;> simp only [beqMembers, reduceCtorEq, Bool.false_eq_true]
  | cons m rest =>
      cases members' with
      | nil => simp only [beqMembers, reduceCtorEq, Bool.false_eq_true]
      | cons m' rest' =>
          rcases m with ⟨name, v⟩
          rcases m' with ⟨name', v'⟩
          simp [beqMembers, Value.beq_iff v v', beqMembers_iff rest rest']

end

instance : DecidableEq Value := fun v v' => decidable_of_iff (v.beq v' = true) (Value.beq_iff v v')

/-- The member of an object. Nothing else has members. -/
def Value.get (key : String) : Value → Option Value
  | .object members => members.lookup key
  | _ => none

/-- The item of an array. Nothing else has items. -/
def Value.getIndex (i : Nat) : Value → Option Value
  | .array items => items[i]?
  | _ => none

def Value.asStr : Value → Option String
  | .string s => some s
  | _ => none

def Value.asBool : Value → Option Bool
  | .bool b => some b
  | _ => none

/-- Only an unsigned integer is one. -/
def Value.asU64 : Value → Option UInt64
  | .number (.posInt n) => some n
  | _ => none

def Value.asArray : Value → Option (List Value)
  | .array items => some items
  | _ => none

def Value.asObject : Value → Option (List (String × Value))
  | .object members => some members
  | _ => none

/-- A member is replaced in place, or put at the end if it is new. -/
def insertMember (key : String) (value : Value) :
    List (String × Value) → List (String × Value)
  | [] => [(key, value)]
  | entry :: rest =>
    if key = entry.1 then (key, value) :: rest else entry :: insertMember key value rest

theorem lookup_insertMember (key key' : String) (value : Value)
    (members : List (String × Value)) :
    (insertMember key value members).lookup key' =
      if key' = key then some value else members.lookup key' := by
  -- A member of the same name is replaced where it stands.
  induction members with
  | nil =>
      by_cases h : key' = key
      · rw [if_pos h, h, insertMember, List.lookup_cons_self]
      · rw [if_neg h, insertMember, List.lookup_cons, beq_false_of_ne h]
  | cons entry rest ih =>
      unfold insertMember
      split
      next hkey =>
        by_cases h : key' = key
        · rw [if_pos h, h, List.lookup_cons_self]
        · rw [if_neg h, List.lookup_cons, beq_false_of_ne h, List.lookup_cons,
            beq_false_of_ne (fun he => h (he.trans hkey.symm))]
      next hkey =>
        rw [List.lookup_cons, ih, List.lookup_cons]
        by_cases h : key' = entry.1
        · have hne : entry.1 ≠ key := fun he => hkey he.symm
          rw [h, beq_self_eq_true, if_neg hne, if_neg hne]
        · rw [beq_false_of_ne h]

end Json

end DccMcp
