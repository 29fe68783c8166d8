import DccMcp.Lib.Json

/-!
# Decoding JSON Values

Decoders of the usual field types from JSON values, with their encoders.

A structure is decoded from an object by the names of its fields, or from an
array by their positions. A field that may be left out is decoded from nothing
at all, and an optional one also from null. An enumeration without data is
decoded from the name of the variant, or from an object that has the name as
its only member and null for the data.

Each decoder reads back what its encoder writes, and these facts are all that
is needed of them for the round trip of a larger type.

## Main definitions

* `DecodeError`: What can be wrong with a value.
* `u64`, `u32`, `str`, `strings`, `unitVariant`, `optionalField`: The decoders.
* `Fields`, `fields`: The fields of a structure.

## Theorems

* `bind_ok_iff`, `mapError_ok_iff`: When a sequence of decoders succeeds.
* `u32_encode`, `strings_encode`, `optionalField_encode`: What is written is read.
-/

namespace DccMcp

namespace Serde

open Json

/-- What can be wrong with a value. The wording is left out. -/
inductive DecodeError
  | invalidType
  | invalidValue
  | invalidLength
  | unknownVariant (name : String)
  | missingField (name : String)
  deriving DecidableEq

/-! ## Decoders -/

def u64 : Value → Except DecodeError UInt64
  | .number (.posInt n) => .ok n
  | _ => .error .invalidType

def u32 : Value → Except DecodeError UInt32
  | .number (.posInt n) => if n.toNat < UInt32.size then .ok n.toUInt32 else .error .invalidValue
  | _ => .error .invalidType

/-- `String`. -/
def str : Value → Except DecodeError String
  | .string s => .ok s
  | _ => .error .invalidType

/-- `Vec<String>`. -/
def strings : Value → Except DecodeError (List String)
  | .array items => items.mapM str
  | _ => .error .invalidType

/-- The name of a variant without data. -/
def unitVariant : Value → Except DecodeError String
  | .string name => .ok name
  | .object [(name, .null)] => .ok name
  | _ => .error .invalidType

/-- An optional field that may be left out. -/
def optionalField {α : Type} (decode : Value → Except DecodeError α) :
    Option Value → Except DecodeError (Option α)
  | none => .ok none
  | some .null => .ok none
  | some value => (decode value).map some

/-- A field that must be there. -/
def requiredField {α : Type} (decode : Value → Except DecodeError α) (name : String) :
    Option Value → Except DecodeError α
  | none => .error (.missingField name)
  | some value => decode value

/-- The fields of a structure, by name and position. -/
abbrev Fields := String → Nat → Option Value

/-- The fields of a structure with `arity` fields. -/
def fields (arity : Nat) : Value → Except DecodeError Fields
  | .object members => .ok (fun name _ => members.lookup name)
  | .array items => if items.length ≤ arity then .ok (fun _ i => items[i]?) else .error .invalidLength
  | _ => .error .invalidType

/-- A sequence of decoders succeeds if each of them does. -/
theorem bind_ok_iff {ε α β : Type} (x : Except ε α) (g : α → Except ε β) (b : β) :
    (x >>= g) = .ok b ↔ ∃ a, x = .ok a ∧ g a = .ok b := by
  cases x with
  | error e => simp only [bind, Except.bind, reduceCtorEq, false_and, exists_false]
  | ok a => simp only [bind, Except.bind, Except.ok.injEq, exists_eq_left']

theorem mapError_ok_iff {ε ε' α : Type} (g : ε → ε') (x : Except ε α) (a : α) :
    x.mapError g = .ok a ↔ x = .ok a := by
  cases x with
  | error e => simp only [Except.mapError, reduceCtorEq]
  | ok b => simp only [Except.mapError, Except.ok.injEq]

/-! ## Encoders -/

def encodeU64 (n : UInt64) : Value := .number (.posInt n)

def encodeU32 (n : UInt32) : Value := .number (.posInt n.toUInt64)

def encodeStrings (items : List String) : Value := .array (items.map .string)

def encodeOption {α : Type} (encode : α → Value) : Option α → Value
  | none => .null
  | some a => encode a

theorem optionalField_u64 (n : UInt64) :
    optionalField u64 (some (encodeU64 n)) = .ok (some n) := rfl

theorem u32_encode (n : UInt32) : u32 (encodeU32 n) = .ok n := by
  unfold u32 encodeU32
  have hlt : n.toUInt64.toNat < UInt32.size := by
    rw [UInt32.toNat_toUInt64]
    exact n.toNat_lt
  simp only [hlt, if_true, UInt32.toUInt32_toUInt64]

theorem mapM_str (items : List String) : (items.map Value.string).mapM str = .ok items := by
  induction items with
  | nil => rfl
  | cons item items ih =>
      rw [List.map_cons, List.mapM_cons, ih]
      rfl

theorem strings_encode (items : List String) : strings (encodeStrings items) = .ok items :=
  mapM_str items

/-- An optional field is read back, if its values are and are not null. -/
theorem optionalField_encode {α : Type} (decode : Value → Except DecodeError α) (encode : α → Value)
    (a : Option α) (hread : ∀ x, a = some x → decode (encode x) = .ok x)
    (hnull : ∀ x, a = some x → encode x ≠ .null) :
    optionalField decode (some (encodeOption encode a)) = .ok a := by
  cases a with
  | none => rfl
  | some x =>
      simp only [encodeOption]
      have hnull := hnull x rfl
      have hread := hread x rfl
      cases hx : encode x with
      | null => exact absurd hx hnull
      | _ =>
          rw [hx] at hread
          simp only [optionalField, hread]
          rfl

end Serde

end DccMcp
