import Mathlib.Data.Nat.Init
import Mathlib.Tactic.Common

set_option autoImplicit false

-- A sequence of items of different lengths, laid out one after the other.

namespace Decoding

inductive Start (extent : Nat → Nat) : Nat → Prop where
  | zero : Start extent 0
  | next {pos : Nat} (start : Start extent pos) : Start extent (pos + 1 + extent pos)

variable {extent : Nat → Nat} {first second : Nat}

theorem Start.apart (second_starts : Start extent second) (first_starts : Start extent first) (before : first < second) :
    first + 1 + extent first ≤ second := by
  -- The induction is on the place of the second item, which takes the role of the first one in the last case.
  induction second using Nat.strong_induction_on generalizing first with
  | _ second ih =>
    cases second_starts with
    | zero => omega
    | @next pos start =>
      rcases Nat.lt_trichotomy first pos with lower | rfl | upper
      · have below := ih pos (by omega) start first_starts lower
        omega
      · exact Nat.le_refl _
      · have above := ih first before first_starts start upper
        omega

theorem Start.not_inside (starts : Start extent first) (after : first < second) (inside : second ≤ first + extent first) :
    ¬ Start extent second := by
  intro other
  have := other.apart starts after
  omega

end Decoding
