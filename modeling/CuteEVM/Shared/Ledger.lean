import Mathlib.Algebra.BigOperators.Group.Finset.Piecewise
import Mathlib.Data.Fintype.BigOperators
import Mathlib.Tactic.Ring

set_option autoImplicit false

-- Amounts that are held by finitely many accounts.

namespace Ledger

variable {Account : Type} [Fintype Account] [DecidableEq Account]

def total (ledger : Account → Int) : Int := ∑ account, ledger account

theorem total_update (ledger : Account → Int) (account : Account) (amount : Int) :
    total (Function.update ledger account amount) = total ledger - ledger account + amount := by
  have updated : total (Function.update ledger account amount) =
      amount + ∑ other ∈ Finset.univ \ {account}, ledger other :=
    Finset.sum_update_of_mem (Finset.mem_univ account) ledger amount
  have before : total (Function.update ledger account (ledger account)) =
      ledger account + ∑ other ∈ Finset.univ \ {account}, ledger other :=
    Finset.sum_update_of_mem (Finset.mem_univ account) ledger (ledger account)
  rw [Function.update_eq_self] at before
  rw [updated, before]
  ring

theorem total_move (ledger : Account → Int) (sender recipient : Account) (amount : Int) :
    total (Function.update (Function.update ledger sender (ledger sender - amount)) recipient
      (Function.update ledger sender (ledger sender - amount) recipient + amount)) = total ledger := by
  rw [total_update, total_update]
  ring

omit [Fintype Account] in
theorem update_nonneg {ledger : Account → Int} (nonneg : ∀ account, 0 ≤ ledger account) (account : Account) {amount : Int}
    (enough : 0 ≤ amount) : ∀ other, 0 ≤ Function.update ledger account amount other := by
  intro other
  by_cases same : other = account
  · rw [same, Function.update_self]
    exact enough
  · rw [Function.update_of_ne same]
    exact nonneg other

end Ledger
