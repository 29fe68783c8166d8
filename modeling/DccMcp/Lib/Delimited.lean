import DccMcp.Lib.Text

/-!
# Self-Delimiting Codes

Codes that can be followed by anything. If two encodings, each with something
behind it, are the same bytes, then the same value was encoded and the same
bytes stand behind it. Values written one after the other with such codes are
read back one after the other, so a sequence of fields needs no more than that
each field has a code of this kind. A sequence of unknown length is where this
ends: the values of a list are read back if their number is known.

## Main definitions

* `SelfDelimiting`: A code that can be followed by anything.
* `encodeText`, `encodeBool`, `encodeOption`, `encodeU32`: Codes.

## Theorems

* `SelfDelimiting.text`, `SelfDelimiting.bool`, `SelfDelimiting.option`,
  `SelfDelimiting.u32`: They delimit themselves.
* `SelfDelimiting.list`: So does a list whose length is known.
-/

namespace DccMcp

namespace Delimited

variable {α : Type}

/-- What stands behind an encoding does not change how it is read. -/
def SelfDelimiting (encode : α → Bytes) : Prop :=
  ∀ a b rest rest', encode a ++ rest = encode b ++ rest' → a = b ∧ rest = rest'

/-- A text, ended by a byte that no text has. -/
def encodeText (s : String) : Bytes := Text.utf8 s ++ [0xff]

def encodeBool (b : Bool) : Bytes := [if b then 1 else 0]

/-- A number of eight bytes, the lowest first. -/
def encodeTag (n : UInt8) : Bytes := [n, 0, 0, 0, 0, 0, 0, 0]

/-- A tag that says whether there is a value, and the value. -/
def encodeOption (encode : α → Bytes) : Option α → Bytes
  | none => encodeTag 0
  | some a => encodeTag 1 ++ encode a

/-- A number of four bytes, the lowest first. -/
def encodeU32 (n : UInt32) : Bytes :=
  [UInt8.ofNat n.toNat, UInt8.ofNat (n.toNat / 2 ^ 8), UInt8.ofNat (n.toNat / 2 ^ 16),
    UInt8.ofNat (n.toNat / 2 ^ 24)]

namespace SelfDelimiting

/-- An encoding that is as long as every other one. -/
theorem fixed (encode : α → Bytes) (hlength : ∀ a b, (encode a).length = (encode b).length)
    (hinj : ∀ a b, encode a = encode b → a = b) : SelfDelimiting encode := by
  intro a b rest rest' h
  have hcut := List.append_inj h (hlength a b)
  exact ⟨hinj a b hcut.1, hcut.2⟩

/-- What ends with a byte that it does not contain. -/
theorem terminated (body : α → Bytes) (stop : UInt8) (hstop : ∀ a, stop ∉ body a)
    (hinj : ∀ a b, body a = body b → a = b) : SelfDelimiting (fun a => body a ++ [stop]) := by
  have hcut : ∀ (u v rest rest' : Bytes), stop ∉ u → stop ∉ v →
      u ++ stop :: rest = v ++ stop :: rest' → u = v ∧ rest = rest' := by
    intro u
    induction u with
    | nil =>
        intro v rest rest' _ hv h
        rcases v with _ | ⟨c, v⟩
        · exact ⟨rfl, (List.cons.inj h).2⟩
        · exact absurd (List.cons.inj h).1 (fun heq => hv (heq ▸ List.mem_cons_self))
    | cons c u ih =>
        intro v rest rest' hu hv h
        rcases v with _ | ⟨d, v⟩
        · exact absurd (List.cons.inj h).1.symm (fun heq => hu (heq ▸ List.mem_cons_self))
        · rcases List.cons.inj h with ⟨hfirst, hrest⟩
          rcases ih v rest rest' (fun hmem => hu (List.mem_cons_of_mem c hmem))
            (fun hmem => hv (List.mem_cons_of_mem d hmem)) hrest with ⟨htail, hend⟩
          exact ⟨by rw [hfirst, htail], hend⟩
  intro a b rest rest' h
  simp only [List.append_assoc, List.singleton_append] at h
  rcases hcut _ _ _ _ (hstop a) (hstop b) h with ⟨hbody, hend⟩
  exact ⟨hinj a b hbody, hend⟩

theorem text : SelfDelimiting encodeText :=
  terminated Text.utf8 0xff Text.ff_notMem_utf8 Text.utf8_injective

theorem bool : SelfDelimiting encodeBool := by
  refine fixed encodeBool (fun _ _ => rfl) (fun a b h => ?_)
  cases a <;> cases b <;> first | rfl | exact absurd h (by decide)

theorem option (encode : α → Bytes) (h : SelfDelimiting encode) :
    SelfDelimiting (encodeOption encode) := by
  intro a b rest rest' heq
  cases a with
  | none =>
      cases b with
      | none => exact ⟨rfl, List.append_cancel_left heq⟩
      | some b => exact absurd (List.cons.inj heq).1 (by decide)
  | some a =>
      cases b with
      | none => exact absurd (List.cons.inj heq).1 (by decide)
      | some b =>
          simp only [encodeOption, List.append_assoc, List.append_cancel_left_eq] at heq
          rcases h a b rest rest' heq with ⟨hvalue, hrest⟩
          exact ⟨congrArg some hvalue, hrest⟩

theorem u32 : SelfDelimiting encodeU32 := by
  refine fixed encodeU32 (fun _ _ => rfl) (fun a b h => ?_)
  simp only [encodeU32, List.cons.injEq, and_true, ← UInt8.toNat_inj, UInt8.toNat_ofNat'] at h
  have ha := a.toNat_lt
  have hb := b.toNat_lt
  refine UInt32.toNat_inj.mp ?_
  omega

/-- The values of a list are read back if their number is known. -/
theorem list (encode : α → Bytes) (h : SelfDelimiting encode) (l l' : List α)
    (hlength : l.length = l'.length) (rest rest' : Bytes)
    (heq : l.flatMap encode ++ rest = l'.flatMap encode ++ rest') : l = l' ∧ rest = rest' := by
  induction l generalizing l' with
  | nil =>
      rw [List.eq_nil_of_length_eq_zero hlength.symm] at heq ⊢
      exact ⟨rfl, heq⟩
  | cons a l ih =>
      rcases l' with _ | ⟨b, l'⟩
      · cases hlength
      · rw [List.flatMap_cons, List.flatMap_cons, List.append_assoc, List.append_assoc] at heq
        rcases h a b _ _ heq with ⟨hfirst, htail⟩
        rcases ih l' (Nat.succ.inj hlength) htail with ⟨hrest, hend⟩
        exact ⟨by rw [hfirst, hrest], hend⟩

end SelfDelimiting

end Delimited

end DccMcp
