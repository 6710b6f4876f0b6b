import CuteEVM.Proofs.Fees
import CuteEVM.State.Facts
import Mathlib.Data.Int.ModEq

set_option autoImplicit false

-- The nine branches of the rule, as the difference of what the old and the new value of the slot are worth.

namespace CuteEVM

open CallTree Exec

section Prices

variable [Crypto]

def finalPrice (original final : Hash) : Int :=
  if final = original then 0
  else if original = 0 then 19800
  else if final = 0 then 4800 - 15000
  else 4800

variable {fr fr' : Frame}

def Adjusts (before after : Nat) (delta : Int) : Prop :=
  (after : Int) ≡ before + delta [ZMOD 2 ^ 64] ∧ (before + 19800 < 2 ^ 64 → (after : Int) = before + delta)

omit [Crypto] in
theorem Adjusts.same (refund : Nat) : Adjusts refund refund 0 := by
  unfold Adjusts
  rw [Int.add_zero]
  exact ⟨Int.ModEq.refl _, fun _ => rfl⟩

omit [Crypto] in
theorem addRefund_adjusts {gas : Nat} (most : gas ≤ 19800) {done : Unit} (returned : addRefund gas fr = .ret (.ok done, fr')) :
    Adjusts fr.evm.db.refund fr'.evm.db.refund gas := by
  cases returned
  show Adjusts fr.evm.db.refund ((fr.evm.db.refund + gas) % 2 ^ 64) gas
  constructor
  · push_cast
    exact Int.mod_modEq _ _
  · intro small
    rw [Nat.mod_eq_of_lt (by omega)]
    push_cast
    rfl

omit [Crypto] in
theorem subRefund_returned {gas : Nat} {done : Unit} (returned : subRefund gas fr = .ret (.ok done, fr')) :
    gas ≤ fr.evm.db.refund ∧ fr'.evm.db.refund = fr.evm.db.refund - gas := by
  unfold subRefund StateDB.subRefund at returned
  by_cases short : fr.evm.db.refund < gas
  · rw [if_pos short] at returned
    cases returned
  · rw [if_neg short] at returned
    cases returned
    exact ⟨Nat.le_of_not_lt short, rfl⟩

omit [Crypto] in
theorem Adjusts.after_sub {before after gas : Nat} {delta : Int} (enough : gas ≤ before)
    (adjusts : Adjusts (before - gas) after delta) :
    Adjusts before after (delta - gas) := by
  obtain ⟨modular, exactly⟩ := adjusts
  have shifted : ((before - gas : Nat) : Int) + delta = before + (delta - gas) := by omega
  rw [shifted] at modular exactly
  exact ⟨modular, fun small => exactly (by omega)⟩

omit [Crypto] in
theorem refundReset_adjusts {original value : Hash} {done : Unit}
    (returned : refundReset original value fr = .ret (.ok done, fr')) :
    Adjusts fr.evm.db.refund fr'.evm.db.refund (if original = value then if original = 0 then 19800 else 4800 else 0) := by
  unfold refundReset at returned
  split at returned
  · next same =>
    rw [if_pos same]
    split at returned
    · next zero =>
      rw [if_pos zero]
      exact addRefund_adjusts (by decide) returned
    · next nonzero =>
      rw [if_neg nonzero]
      exact addRefund_adjusts (by decide) returned
  · next other =>
    rw [if_neg other]
    cases returned
    exact .same _

omit [Crypto] in
theorem gasSStoreNet_price {original current value : Hash} {cost : Nat} (changes : current ≠ value)
    (returned : gasSStoreNet original current value fr = .ret (.ok cost, fr')) :
    ∃ delta, Adjusts fr.evm.db.refund fr'.evm.db.refund delta ∧
      (cost : Int) - delta = 200 + (finalPrice original value - finalPrice original current) := by
  unfold gasSStoreNet at returned
  split at returned
  · next clean =>
    subst clean
    have price : finalPrice original original = 0 := if_pos rfl
    rw [price]
    unfold finalPrice
    rw [if_neg fun same => changes same.symm]
    split at returned
    · next zero =>
      cases returned
      exact ⟨0, .same _, by rw [if_pos zero]; rfl⟩
    · next nonzero =>
      rw [if_neg nonzero]
      split at returned
      · next cleared =>
        obtain ⟨done, fr₁, added, rest⟩ := bind_returned returned
        cases rest
        exact ⟨_, addRefund_adjusts (by decide) added, by rw [if_pos cleared]; rfl⟩
      · next kept =>
        cases returned
        exact ⟨0, .same _, by rw [if_neg kept]; rfl⟩
  · next dirty =>
    obtain ⟨done, fr₁, first, rest₁⟩ := bind_returned returned
    obtain ⟨done', fr₂, second, rest₂⟩ := bind_returned rest₁
    have reset := refundReset_adjusts second
    cases rest₂
    have current_price : finalPrice original current = if original = 0 then 19800 else if current =
        0 then 4800 - 15000 else 4800 :=
      if_neg fun same => dirty same.symm
    rw [current_price]
    unfold refundDirty at first
    split at first
    · next nonzero =>
      rw [if_neg nonzero]
      rw [if_neg nonzero] at reset
      split at first
      · next empty =>
        obtain ⟨enough, after⟩ := subRefund_returned first
        rw [after] at reset
        refine ⟨_, reset.after_sub enough, ?_⟩
        have written : ¬ value = 0 := fun zero => changes (empty.trans zero.symm)
        unfold finalPrice
        rw [if_pos empty, if_neg nonzero, if_neg written]
        by_cases same : original = value
        · rw [if_pos same, if_pos same.symm]
          rfl
        · rw [if_neg same, if_neg fun equal => same equal.symm]
          rfl
      · next full =>
        rw [if_neg full]
        split at first
        · next cleared =>
          have other : ¬ original = value := fun same => nonzero (same.trans cleared)
          unfold refundReset at second
          rw [if_neg other] at second
          cases second
          refine ⟨_, addRefund_adjusts (by decide) first, ?_⟩
          unfold finalPrice
          rw [if_neg fun equal => other equal.symm, if_neg nonzero, if_pos cleared]
          rfl
        · next kept =>
          cases first
          refine ⟨_, reset, ?_⟩
          unfold finalPrice
          by_cases same : original = value
          · rw [if_pos same, if_pos same.symm]
            rfl
          · rw [if_neg same, if_neg fun equal => same equal.symm, if_neg nonzero, if_neg kept]
            rfl
    · next unset =>
      have zero : original = 0 := not_not.mp unset
      cases first
      refine ⟨_, reset, ?_⟩
      unfold finalPrice
      simp only [if_pos zero]
      by_cases same : original = value
      · rw [if_pos same, if_pos same.symm]
        rfl
      · rw [if_neg same, if_neg fun equal => same equal.symm]
        rfl

theorem gasSStore_net {env : Env} (active : env.isConstantinople = true) (inactive : env.isPetersburg = false) {loc val : Int}
    (valid : Valid fr.evm.db) (first : fr.stack[0]? = some loc) (second : fr.stack[1]? = some val) :
    ∃ read mid : Frame, read.evm.db.refund = fr.evm.db.refund ∧ mid.evm.db.refund = fr.evm.db.refund ∧
      gasSStore env 0 fr = if (fr.evm.db.facts fr.contract.self).storage (bigToHash loc) = bigToHash val
        then .ret (.ok NetSstoreNoopGas, read)
        else gasSStoreNet ((fr.evm.db.facts fr.contract.self).committed (bigToHash loc))
          ((fr.evm.db.facts fr.contract.self).storage (bigToHash loc)) (bigToHash val) mid := by
  have reads := StateDB.getState_reads valid fr.contract.self (bigToHash loc)
  have again := StateDB.getCommittedState_reads reads.evolves.valid fr.contract.self (bigToHash loc)
  refine ⟨{ fr with evm := { fr.evm with db := (fr.evm.db.getState fr.contract.self (bigToHash loc)).2 } },
    { fr with evm := { fr.evm with db :=
      ((fr.evm.db.getState fr.contract.self (bigToHash loc)).2.getCommittedState fr.contract.self (bigToHash loc)).2 } },
    reads.refund, again.refund.trans reads.refund, ?_⟩
  unfold gasSStore
  simp only [bind_apply, back_apply second, back_apply first, get_apply, readDb_apply, Prog.bind_ret, active, inactive,
    Bool.not_true, Bool.or_self, Bool.false_eq_true, if_false, getState_facts]
  split
  · rfl
  · simp only [bind_apply, readDb_apply, Prog.bind_ret, getCommittedState_facts, reads.facts]

theorem gasSStore_price {env : Env} (active : env.isConstantinople = true) (inactive : env.isPetersburg = false) {loc val : Int}
    {cost : Nat} (valid : Valid fr.evm.db) (first : fr.stack[0]? = some loc) (second : fr.stack[1]? = some val)
    (returned : gasSStore env 0 fr = .ret (.ok cost, fr')) :
    ∃ delta, Adjusts fr.evm.db.refund fr'.evm.db.refund delta ∧
      (cost : Int) - delta = 200 + (finalPrice ((fr.evm.db.facts fr.contract.self).committed (bigToHash loc)) (bigToHash val) -
        finalPrice ((fr.evm.db.facts fr.contract.self).committed (bigToHash loc))
          ((fr.evm.db.facts fr.contract.self).storage (bigToHash loc))) := by
  obtain ⟨read, mid, refund, refund', body⟩ := gasSStore_net active inactive valid first second
  rw [body] at returned
  split at returned
  · next same =>
    cases returned
    rw [same, Int.sub_self]
    exact ⟨0, refund ▸ .same _, rfl⟩
  · next changes =>
    rw [← refund']
    exact gasSStoreNet_price changes returned

end Prices

end CuteEVM
