import Mathlib.Data.List.Nodup
import Mathlib.Tactic.Common

set_option autoImplicit false

-- A loop that visits every key once, and at each key changes only what belongs to that key.

namespace KeyedLoop

variable {Key Store Part : Type} [DecidableEq Key]

structure Round (body : Store → Key → Store) (kept : Store → Prop) (part : Store → Key → Part)
    (act : Key → Part → Part) : Prop where
  keeps : ∀ store key, kept store → kept (body store key)
  own : ∀ store key, kept store → part (body store key) key = act key (part store key)
  frame : ∀ store key other, kept store → other ≠ key → part (body store key) other = part store other

theorem Round.loop {body : Store → Key → Store} {kept : Store → Prop} {part : Store → Key → Part}
    {act : Key → Part → Part} (round : Round body kept part act) {keys : List Key} (distinct : keys.Nodup)
    {store : Store} (holds : kept store) :
    kept (keys.foldl body store) ∧
      ∀ key, part (keys.foldl body store) key = if key ∈ keys then act key (part store key) else part store key := by
  induction keys generalizing store with
  | nil => exact ⟨holds, fun key => by simp⟩
  | cons first rest ih =>
    obtain ⟨fresh, distinct⟩ := List.nodup_cons.mp distinct
    obtain ⟨holds', after⟩ := ih distinct (round.keeps store first holds)
    refine ⟨holds', fun key => ?_⟩
    rw [List.foldl_cons, after]
    by_cases same : key = first
    · subst same
      simp [fresh, round.own store key holds]
    · simp [same, round.frame store first key holds same]

end KeyedLoop
