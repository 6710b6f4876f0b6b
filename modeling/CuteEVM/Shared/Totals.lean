import Mathlib.Algebra.BigOperators.Group.Finset.Basic
import Mathlib.Algebra.Order.BigOperators.Group.Finset
import Mathlib.Data.List.AList

set_option autoImplicit false

-- The sum of a quantity over the entries of a map, and how it moves when one entry is written or removed.

namespace Totals

variable {α β : Type} [DecidableEq α] {f g : α → β → Int} {s s' : AList fun _ : α => β} {a : α} {b : β}

def total (f : α → β → Int) (s : AList fun _ : α => β) : Int := ∑ a ∈ s.keys.toFinset, (s.lookup a).elim 0 (f a)

-- What the entries at other keys add up to.
theorem total_split (f : α → β → Int) (s : AList fun _ : α => β) (a : α) :
    total f s = (s.lookup a).elim 0 (f a) + ∑ k ∈ s.keys.toFinset.erase a, (s.lookup k).elim 0 (f k) := by
  by_cases inside : a ∈ s.keys.toFinset
  · exact (Finset.add_sum_erase _ _ inside).symm
  · have absent : s.lookup a = none :=
      AList.lookup_eq_none.mpr fun found => inside (List.mem_toFinset.mpr (AList.mem_keys.mp found))
    rw [absent, Finset.erase_eq_of_notMem inside, Option.elim_none, zero_add]
    rfl

theorem total_congr (mem : ∀ a, a ∈ s' ↔ a ∈ s) (same : ∀ a, (s'.lookup a).elim 0 (f a) = (s.lookup a).elim 0 (g a)) :
    total f s' = total g s := by
  have keys : s'.keys.toFinset = s.keys.toFinset := by
    ext a
    rw [List.mem_toFinset, List.mem_toFinset, ← AList.mem_keys, ← AList.mem_keys, mem]
  rw [total, total, keys]
  exact Finset.sum_congr rfl fun a _ => same a

theorem total_insert (f : α → β → Int) (s : AList fun _ : α => β) (a : α) (b : β) :
    total f (s.insert a b) = total f s - (s.lookup a).elim 0 (f a) + f a b := by
  have keys : (s.insert a b).keys.toFinset.erase a = s.keys.toFinset.erase a := by
    ext k
    simp only [Finset.mem_erase, List.mem_toFinset, ← AList.mem_keys, AList.mem_insert]
    tauto
  have others : ∑ k ∈ (s.insert a b).keys.toFinset.erase a, ((s.insert a b).lookup k).elim 0 (f k) =
      ∑ k ∈ s.keys.toFinset.erase a, (s.lookup k).elim 0 (f k) := by
    rw [keys]
    exact Finset.sum_congr rfl fun k inside => by rw [AList.lookup_insert_ne (Finset.ne_of_mem_erase inside)]
  rw [total_split f (s.insert a b) a, total_split f s a, others, AList.lookup_insert, Option.elim_some]
  omega

theorem total_erase (f : α → β → Int) (s : AList fun _ : α => β) (a : α) :
    total f (s.erase a) = total f s - (s.lookup a).elim 0 (f a) := by
  have keys : (s.erase a).keys.toFinset.erase a = s.keys.toFinset.erase a := by
    ext k
    simp only [Finset.mem_erase, List.mem_toFinset, ← AList.mem_keys, AList.mem_erase]
    tauto
  have others : ∑ k ∈ (s.erase a).keys.toFinset.erase a, ((s.erase a).lookup k).elim 0 (f k) =
      ∑ k ∈ s.keys.toFinset.erase a, (s.lookup k).elim 0 (f k) := by
    rw [keys]
    exact Finset.sum_congr rfl fun k inside => by rw [AList.lookup_erase_ne (Finset.ne_of_mem_erase inside)]
  rw [total_split f (s.erase a) a, total_split f s a, others, AList.lookup_erase, Option.elim_none]
  omega

theorem le_total (nonneg : ∀ a b, 0 ≤ f a b) (s : AList fun _ : α => β) (a : α) : (s.lookup a).elim 0 (f a) ≤ total f s := by
  rw [total_split f s a]
  have others : 0 ≤ ∑ k ∈ s.keys.toFinset.erase a, (s.lookup k).elim 0 (f k) := by
    refine Finset.sum_nonneg fun k _ => ?_
    cases s.lookup k with
    | none => exact Int.le_refl 0
    | some b => exact nonneg k b
  omega

theorem total_nonneg (nonneg : ∀ a b, 0 ≤ f a b) (s : AList fun _ : α => β) : 0 ≤ total f s := by
  refine Finset.sum_nonneg fun k _ => ?_
  cases s.lookup k with
  | none => exact Int.le_refl 0
  | some b => exact nonneg k b

end Totals
