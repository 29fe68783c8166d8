import Mathlib.Data.List.Basic

/-!
# Framed Streams

A stream decoder over a buffer: bytes are appended as they arrive, and a
parser that looks at the buffer either pops one frame off its front, or asks
for more, or fails.

How a transport cuts a stream is nobody's choice, so what such a decoder
yields must not depend on it. `IsWord` is what a parser owes for that: it
recognises a code word whatever follows it, and asks for more on every cut
through it. Everything else is bookkeeping. The buffer, with the bytes still
to come, is always the code words of the frames not yet yielded.

A schedule is a list of calls, in which feeding and popping may be mixed in
any way.

## Main definitions

* `IsWord`: The parser recognises a code word and asks for more before.
* `Call`, `run`: A schedule of a decoder, and its outcomes.
* `fed`, `yielded`: What a schedule feeds, and what its outcomes yield.

## Theorems

* `parse_stream`: What the parser says about a cut through a stream.
* `run_stream`: Every schedule yields the next frames, in order, and keeps
  the code words of the others.
* `run_drain`: Popping often enough yields all of them.
-/

namespace DccMcp

namespace Framing

variable {α φ ε : Type}

/-- A parser's verdict on the front of a buffer: a frame with the length of
    its code word, a request for more, or an error. -/
abbrev Parser (α φ ε : Type) := List α → Except ε (Option (φ × Nat))

/-- The parser recognises a code word whatever follows it, and asks for more
    on every cut through it. -/
structure IsWord (parse : Parser α φ ε) (frame : φ) (word : List α) : Prop where
  whole : ∀ rest, parse (word ++ rest) = .ok (some (frame, word.length))
  cut : ∀ front back, word = front ++ back → back ≠ [] → parse front = .ok none

/-- A call of a stream decoder. -/
inductive Call (α : Type)
  | extend (chunk : List α)
  | next

/-- One pop: the frame is cut off the buffer. -/
def pop (parse : Parser α φ ε) (buf : List α) : Except ε (Option φ) × List α :=
  match parse buf with
  | .ok (some (frame, consumed)) => (.ok (some frame), buf.drop consumed)
  | .ok none => (.ok none, buf)
  | .error e => (.error e, buf)

/-- The outcomes of the pops of a schedule, and the buffer after it. -/
def run (parse : Parser α φ ε) (buf : List α) :
    List (Call α) → List (Except ε (Option φ)) × List α
  | [] => ([], buf)
  | .extend chunk :: calls => run parse (buf ++ chunk) calls
  | .next :: calls =>
    let popped := pop parse buf
    let rest := run parse popped.2 calls
    (popped.1 :: rest.1, rest.2)

/-- The bytes a schedule feeds. -/
def fed : List (Call α) → List α
  | [] => []
  | .extend chunk :: calls => chunk ++ fed calls
  | .next :: calls => fed calls

/-- The frames in a list of outcomes. -/
def yielded : List (Except ε (Option φ)) → List φ
  | [] => []
  | .ok (some frame) :: rest => frame :: yielded rest
  | .ok none :: rest => yielded rest
  | .error _ :: rest => yielded rest

/-- No outcome is an error. -/
def NoError (outcomes : List (Except ε (Option φ))) : Prop :=
  ∀ outcome ∈ outcomes, ∃ frame, outcome = .ok frame

theorem fed_append (calls calls' : List (Call α)) : fed (calls ++ calls') = fed calls ++ fed calls' := by
  induction calls with
  | nil => rfl
  | cons call calls ih =>
      cases call with
      | extend chunk => rw [List.cons_append, fed, fed, ih, List.append_assoc]
      | next => rw [List.cons_append, fed, fed, ih]

theorem fed_replicate_next (n : Nat) : fed (List.replicate n (.next : Call α)) = [] := by
  induction n with
  | zero => rfl
  | succ n ih => rw [List.replicate_succ, fed, ih]

theorem run_append (parse : Parser α φ ε) (buf : List α) (calls calls' : List (Call α)) :
    run parse buf (calls ++ calls') =
      ((run parse buf calls).1 ++ (run parse (run parse buf calls).2 calls').1,
        (run parse (run parse buf calls).2 calls').2) := by
  induction calls generalizing buf with
  | nil => rfl
  | cons call calls ih =>
      cases call with
      | extend chunk => rw [List.cons_append, run, run, ih]
      | next => simp [run, ih]

theorem yielded_append (outcomes outcomes' : List (Except ε (Option φ))) :
    yielded (outcomes ++ outcomes') = yielded outcomes ++ yielded outcomes' := by
  induction outcomes with
  | nil => rfl
  | cons outcome rest ih =>
      cases outcome with
      | error e => rw [List.cons_append, yielded, yielded, ih]
      | ok frame =>
          cases frame with
          | none => rw [List.cons_append, yielded, yielded, ih]
          | some frame => rw [List.cons_append, yielded, yielded, ih, List.cons_append]

section Stream

variable (parse : Parser α φ ε) (hempty : parse [] = .ok none)

include hempty in
/-- What the parser says about the front of a stream of code words: it asks
    for more, or the first frame is complete. -/
theorem parse_stream (frames : List φ) (words : List (List α))
    (hwords : List.Forall₂ (IsWord parse) frames words) (buf later : List α)
    (hstream : buf ++ later = words.flatten) :
    parse buf = .ok none ∨
      ∃ frame frames' word words', frames = frame :: frames' ∧ words = word :: words' ∧
        List.Forall₂ (IsWord parse) frames' words' ∧
        parse buf = .ok (some (frame, word.length)) ∧
        buf.drop word.length ++ later = words'.flatten := by
  cases hwords with
  | nil =>
      rw [List.flatten_nil, List.append_eq_nil_iff] at hstream
      rw [hstream.1]
      exact .inl hempty
  | cons hword hrest =>
      next frame word frames' words' =>
      rw [List.flatten_cons, List.append_eq_append_iff] at hstream
      -- Either the buffer ends inside the first word, or it holds all of it.
      rcases hstream with ⟨back, hback, hlater⟩ | ⟨rest, hrest', hflat⟩
      · by_cases hnil : back = []
        · refine .inr ⟨frame, frames', word, words', rfl, rfl, hrest, ?_, ?_⟩
          · rw [hnil, List.append_nil] at hback
            have hwhole := hword.whole []
            rw [List.append_nil] at hwhole
            rw [← hback, hwhole]
          · rw [hnil, List.append_nil] at hback
            rw [hback, List.drop_length, hlater, hnil, List.nil_append, List.nil_append]
        · exact .inl (hword.cut buf back hback hnil)
      · refine .inr ⟨frame, frames', word, words', rfl, rfl, hrest, ?_, ?_⟩
        · rw [hrest']
          exact hword.whole rest
        · rw [hrest', List.drop_left, hflat]

include hempty in
/-- Every schedule yields the next frames in order and no error, and keeps
    the code words of the frames it did not yield. -/
theorem run_stream (calls : List (Call α)) (frames : List φ) (words : List (List α))
    (hwords : List.Forall₂ (IsWord parse) frames words) (buf later : List α)
    (hstream : buf ++ (fed calls ++ later) = words.flatten) :
    NoError (run parse buf calls).1 ∧
      ∃ k, yielded (run parse buf calls).1 = frames.take k ∧
        (run parse buf calls).2 ++ later = (words.drop k).flatten := by
  -- By induction on the calls, for any buffer.
  induction calls generalizing frames words buf with
  | nil => exact ⟨fun outcome h => absurd h List.not_mem_nil, 0, rfl, hstream⟩
  | cons call calls ih =>
      cases call with
      | extend chunk =>
          rw [fed, List.append_assoc, ← List.append_assoc] at hstream
          exact ih frames words hwords (buf ++ chunk) hstream
      | next =>
          rw [fed] at hstream
          simp only [run, pop]
          rcases parse_stream parse hempty frames words hwords buf _ hstream with
            hmore | ⟨frame, frames', word, words', rfl, rfl, hrest, hparse, hbuf⟩
          · rcases ih frames words hwords buf hstream with ⟨hok, k, hyield, hkept⟩
            rw [hmore]
            refine ⟨fun outcome h => ?_, k, hyield, hkept⟩
            rcases List.mem_cons.mp h with rfl | h
            · exact ⟨none, rfl⟩
            · exact hok outcome h
          · rcases ih frames' words' hrest (buf.drop word.length) hbuf with ⟨hok, k, hyield, hkept⟩
            rw [hparse]
            refine ⟨fun outcome h => ?_, k + 1, ?_, hkept⟩
            · rcases List.mem_cons.mp h with rfl | h
              · exact ⟨some frame, rfl⟩
              · exact hok outcome h
            · rw [yielded, hyield, List.take_succ_cons]

include hempty in
/-- With every byte there, each pop yields a frame until none is left. -/
theorem run_drain (n : Nat) (frames : List φ) (words : List (List α))
    (hwords : List.Forall₂ (IsWord parse) frames words) (hn : frames.length ≤ n) :
    yielded (run parse words.flatten (List.replicate n .next)).1 = frames ∧
      (run parse words.flatten (List.replicate n .next)).2 = [] := by
  -- Every call takes one word as long as there is one.
  induction n generalizing frames words with
  | zero =>
      cases hwords with
      | nil => exact ⟨rfl, rfl⟩
      | cons => exact absurd hn (Nat.not_succ_le_zero _)
  | succ n ih =>
      simp only [List.replicate_succ, run, pop]
      cases hwords with
      | nil =>
          rw [List.flatten_nil, hempty]
          exact ih [] [] .nil (Nat.zero_le n)
      | cons hword hrest =>
          next frame word frames' words' =>
          rw [List.flatten_cons, hword.whole]
          simp only [List.drop_left]
          rcases ih frames' words' hrest (Nat.le_of_succ_le_succ hn) with ⟨hframes, hbuf⟩
          refine ⟨?_, hbuf⟩
          rw [yielded, hframes]

end Stream

end Framing

end DccMcp
