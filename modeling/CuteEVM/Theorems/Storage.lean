import CuteEVM.Proofs.NetPrices
import CuteEVM.Theorems.Memory
import CuteEVM.Theorems.Revert

set_option autoImplicit false

-- With net metering, what a transaction pays for a slot depends on how often it writes the slot, on the value before
-- the transaction and on the last value.

namespace CuteEVM

open CallTree Exec

section History

variable [Crypto]

-- An operation of the transaction that does not write the slot, does not undo anything, and does not start the account anew.
def Op.Passes (a : Address) (slot : Hash) : Op → Prop
  | .setState addr key _ => ¬ (addr = a ∧ key = slot)
  | .createAccount addr => addr ≠ a
  | op => op.forward = true

-- A frame of the account executes `SSTORE` on the slot.
structure StoresTo (env : Env) (a : Address) (slot : Hash) (fr later : Frame) : Prop where
  instruction : fr.contract.getOp fr.pc = 0x55
  account : fr.contract.self = a
  key : fr.stack.head?.map bigToHash = some slot
  stepped : step env fr = .ret (.inl later)

-- The gas that the iteration took, less what it added to the refund counter.
def netPrice (fr later : Frame) : Int :=
  ((fr.contract.gas : Int) - later.contract.gas) - ((later.evm.db.refund : Int) - fr.evm.db.refund)

-- Writes of a slot, with their number and their net price, and other operations in between.
inductive History (env : Env) (a : Address) (slot : Hash) (fits : StateDB → Prop) (first : StateDB) :
    Nat → Int → StateDB → Prop where
  | start : History env a slot fits first 0 0 first
  | other {count : Nat} {net : Int} {s s' : StateDB} {op : Op} (history : History env a slot fits first count net s)
      (passes : op.Passes a slot) (result : op.apply s = .ok s') : History env a slot fits first count net s'
  | store {count : Nat} {net : Int} {fr later : Frame} (history : History env a slot fits first count net fr.evm.db)
      (small : fits fr.evm.db) (stores : StoresTo env a slot fr later) :
      History env a slot fits first (count + 1) (net + netPrice fr later) later.evm.db

variable {fr fr' : Frame} {a : Address} {slot : Hash} {s s' : StateDB}

theorem Op.Passes.facts {op : Op} (valid : Valid s) (passes : op.Passes a slot) (result : op.apply s = .ok s') :
    (s'.facts a).storage slot = (s.facts a).storage slot ∧ (s'.facts a).committed slot = (s.facts a).committed slot := by
  have same : s'.facts = s.facts → (s'.facts a).storage slot = (s.facts a).storage slot ∧
      (s'.facts a).committed slot = (s.facts a).committed slot := by
    intro equal
    rw [equal]
    exact ⟨rfl, rfl⟩
  have inert : op.inert = true → (s'.facts a).storage slot = (s.facts a).storage slot ∧
      (s'.facts a).committed slot = (s.facts a).committed slot :=
    fun inert => same (Op.inert_apply valid inert result : Inert true s s').facts
  have updated : ∀ (b : Address) (facts : Facts), s'.facts = Function.update s.facts b facts →
      (b = a → facts.storage slot = (s.facts a).storage slot ∧ facts.committed slot = (s.facts a).committed slot) →
      (s'.facts a).storage slot = (s.facts a).storage slot ∧ (s'.facts a).committed slot = (s.facts a).committed slot := by
    intro b facts equal kept
    rw [equal]
    by_cases own : a = b
    · subst own
      rw [Function.update_self]
      exact kept rfl
    · rw [Function.update_of_ne own]
      exact ⟨rfl, rfl⟩
  cases op with
  | setState b key value =>
    cases result
    refine updated b _ (setState_facts valid b key value) fun own => ?_
    subst own
    have other : slot ≠ key := fun equal => passes ⟨rfl, equal.symm⟩
    exact ⟨Function.update_of_ne other _ _, rfl⟩
  | createAccount b =>
    cases result
    exact updated b _ (createAccount_facts valid b) fun own => absurd own passes
  | setNonce b nonce =>
    cases result
    exact updated b _ (setNonce_facts valid b nonce) fun own => own ▸ ⟨rfl, rfl⟩
  | setCode b code =>
    cases result
    exact updated b _ (setCode_facts valid b code) fun own => own ▸ ⟨rfl, rfl⟩
  | suicide b =>
    cases result
    exact updated b _ (suicide_facts valid b) fun own => own ▸ ⟨rfl, rfl⟩
  | setBalance b amount =>
    cases result
    exact same ((congrArg Book.facts (setBalance_book valid b amount)).trans (s.book.facts_pay b amount))
  | addRefund gas =>
    cases result
    exact same rfl
  | subRefund gas => exact same (subRefund_inert valid result).facts
  | prepare thash bhash ti =>
    cases result
    exact same rfl
  | revertToSnapshot revid => cases passes
  | finalise deleteEmptyObjects => cases passes
  | commit deleteEmptyObjects => cases passes
  | reset trie => cases passes
  | _ => exact inert rfl

theorem lookup_sstore (env : Env) : (jumpTable env).lookup 0x55 = some (sstoreEntry env) := by
  unfold jumpTable
  repeat' split
  all_goals rfl

theorem sstore_admitted {env : Env} {op : OpCode} {operation : Operation} {mid : Frame}
    (returned : admitOperation env op (sstoreEntry env) fr = .ret (.ok operation, mid)) : operation = sstoreEntry env ∧
    ∃ cost priced, gasSStore env 0 fr = .ret (.ok cost, priced) ∧ cost ≤ priced.contract.gas ∧ mid = priced.charge cost := by
  obtain ⟨rfl, size, asked, paid, required, dynamic, rfl⟩ := admitOperation_parts returned
  cases required
  obtain ⟨cost, priced, price, used⟩ := bind_returned dynamic
  obtain ⟨enough, rfl⟩ := pay_returned used
  exact ⟨rfl, cost, priced, orOutOfGas_returned price, enough, rfl⟩

theorem StoresTo.parts {env : Env} {later : Frame} (stores : StoresTo env a slot fr later) :
    ∃ cost priced loc val rest, gasSStore env 0 fr = .ret (.ok cost, priced) ∧ cost ≤ priced.contract.gas ∧
      priced.stack = loc :: val :: rest ∧ later = { (priced.charge cost).store loc val rest with pc := add64 priced.pc 1 } := by
  have found : (jumpTable env).lookup (fr.contract.getOp fr.pc) = some (sstoreEntry env) := by
    rw [stores.instruction]
    exact lookup_sstore env
  have stepped := stores.stepped
  unfold step at stepped
  rw [prepare_found found] at stepped
  cases prepared : admitOperation env (fr.contract.getOp fr.pc) (sstoreEntry env) fr with
  | ret reached =>
    obtain ⟨result, mid⟩ := reached
    rw [prepared] at stepped
    cases result with
    | error err => cases stepped
    | ok operation =>
      obtain ⟨rfl, cost, priced, price, enough, rfl⟩ := sstore_admitted prepared
      change ((opSstore (priced.charge cost)).bind fun p => .ret (finish (sstoreEntry env) p.1 p.2)) = _ at stepped
      cases ran : opSstore (priced.charge cost) with
      | ret reached =>
        obtain ⟨result, fr'⟩ := reached
        obtain ⟨loc, val, rest, operands, rfl, rfl⟩ := opSstore_stored ran
        rw [ran] at stepped
        cases stepped
        exact ⟨cost, priced, loc, val, rest, price, enough, operands, rfl⟩
      | panic fault =>
        rw [ran] at stepped
        cases stepped
      | call request next =>
        rw [ran] at stepped
        cases stepped
  | panic fault =>
    rw [prepared] at stepped
    cases stepped
  | call request next =>
    rw [prepared] at stepped
    cases stepped

structure Written (a : Address) (slot : Hash) (fr later : Frame) : Prop where
  valid : Valid later.evm.db
  committed : (later.evm.db.facts a).committed slot = (fr.evm.db.facts a).committed slot
  price : netPrice fr later ≡ 200 + (finalPrice ((fr.evm.db.facts a).committed slot) ((later.evm.db.facts a).storage slot) -
    finalPrice ((fr.evm.db.facts a).committed slot) ((fr.evm.db.facts a).storage slot)) [ZMOD 2 ^ 64]
  exactly : fr.evm.db.refund + 19800 < 2 ^ 64 → netPrice fr later =
    200 + (finalPrice ((fr.evm.db.facts a).committed slot) ((later.evm.db.facts a).storage slot) -
      finalPrice ((fr.evm.db.facts a).committed slot) ((fr.evm.db.facts a).storage slot))

theorem StoresTo.written {env : Env} {later : Frame} (active : env.isConstantinople = true) (inactive : env.isPetersburg = false)
    (valid : Valid fr.evm.db) (stores : StoresTo env a slot fr later) : Written a slot fr later := by
  obtain ⟨cost, priced, loc, val, rest, price, enough, operands, rfl⟩ := stores.parts
  have deep : 1 < fr.stack.length := by
    obtain ⟨y, fr₁, read, -⟩ := bind_returned price
    exact (List.getElem?_eq_some_iff.mp (back_returned read).1).1
  have prices : Prices true fr priced := by
    have costs := @gasSStore_costs _ _ env 0 deep
    unfold Costs at costs
    rw [price] at costs
    exact costs.1
  have inert : Inert true fr.evm.db priced.evm.db := by
    have gently := gasSStore_gently env 0 fr
    rw [price] at gently
    exact gently.db valid
  rw [prices.stack] at operands
  have key : bigToHash loc = slot := by
    have top := stores.key
    rw [operands] at top
    exact Option.some.inj top
  have self : priced.contract.self = a := by rw [prices.contract, stores.account]
  have facts := setState_facts inert.evolves.valid a slot (bigToHash val)
  have effects := setState_effects inert.evolves.valid a slot (bigToHash val)
  have later : ({ (priced.charge cost).store loc val rest with pc := add64 priced.pc 1 } : Frame).evm.db =
      priced.evm.db.setState a slot (bigToHash val) := by
    show priced.evm.db.setState priced.contract.self (bigToHash loc) (bigToHash val) = _
    rw [self, key]
  have stored : ((priced.evm.db.setState a slot (bigToHash val)).facts a).storage slot = bigToHash val := by
    rw [facts, Function.update_self]
    exact Function.update_self _ _ _
  have committed : ((priced.evm.db.setState a slot (bigToHash val)).facts a).committed slot =
      (fr.evm.db.facts a).committed slot := by
    rw [facts, Function.update_self, inert.facts]
  obtain ⟨delta, adjusts, balance⟩ := gasSStore_price active inactive valid (by rw [operands]; rfl) (by rw [operands]; rfl) price
  rw [stores.account, key] at balance
  rw [prices.contract] at enough
  have net : netPrice fr { (priced.charge cost).store loc val rest with pc := add64 priced.pc 1 } =
      cost - ((priced.evm.db.refund : Int) - fr.evm.db.refund) := by
    unfold netPrice
    rw [later, effects.refund]
    show (fr.contract.gas : Int) - ((priced.contract.gas - cost : Nat) : Int) - _ = _
    rw [prices.contract]
    omega
  refine ⟨?_, ?_, ?_, ?_⟩
  · rw [later]
    exact effects.evolves.valid
  · rw [later]
    exact committed
  · rw [later, stored, net, ← balance]
    exact Int.ModEq.sub (Int.ModEq.refl _) (by
      have moved := adjusts.1.sub (Int.ModEq.refl (fr.evm.db.refund : Int))
      rwa [add_sub_cancel_left] at moved)
  · intro small
    rw [later, stored, net, ← balance, adjusts.2 small]
    omega

theorem History.net {env : Env} {fits : StateDB → Prop} {first : StateDB} {count : Nat} {net : Int}
    (active : env.isConstantinople = true)
    (inactive : env.isPetersburg = false) (valid : Valid first) (history : History env a slot fits first count net s) :
    Valid s ∧ (s.facts a).committed slot = (first.facts a).committed slot ∧
    net ≡ 200 * count + (finalPrice ((first.facts a).committed slot) ((s.facts a).storage slot) -
      finalPrice ((first.facts a).committed slot) ((first.facts a).storage slot)) [ZMOD 2 ^ 64] ∧
    ((∀ t, fits t → t.refund + 19800 < 2 ^ 64) → net = 200 * count +
      (finalPrice ((first.facts a).committed slot) ((s.facts a).storage slot) -
        finalPrice ((first.facts a).committed slot) ((first.facts a).storage slot))) := by
  induction history with
  | start =>
    rw [Int.sub_self]
    exact ⟨valid, rfl, Int.ModEq.refl _, fun _ => rfl⟩
  | other history passes result ih =>
    obtain ⟨valid, committed, modular, exactly⟩ := ih
    obtain ⟨stored, kept⟩ := passes.facts valid result
    refine ⟨Op.valid valid result, kept.trans committed, ?_, ?_⟩
    · rw [stored]
      exact modular
    · rw [stored]
      exact exactly
  | store history small stores ih =>
    obtain ⟨valid, committed, modular, exactly⟩ := ih
    obtain ⟨valid', committed', price, price'⟩ := stores.written active inactive valid
    rw [committed] at price price' committed'
    refine ⟨valid', committed', ?_, fun bounded => ?_⟩
    · have sum := modular.add price
      refine sum.trans (congrArg (· % 2 ^ 64) ?_)
      push_cast
      omega
    · rw [exactly bounded, price' (bounded _ small)]
      push_cast
      omega

theorem net_storage_price {env : Env} {fits : StateDB → Prop} {first : StateDB} {count : Nat} {net : Int}
    (active : env.isConstantinople = true) (inactive : env.isPetersburg = false) (valid : Valid first)
    (fresh : (first.getState a slot).1 = (first.getCommittedState a slot).1)
    (history : History env a slot fits first count net s) :
    net ≡ 200 * count + finalPrice (first.getCommittedState a slot).1 (s.getState a slot).1 [ZMOD 2 ^ 64] ∧
    ((∀ t, fits t → t.refund + 19800 < 2 ^ 64) →
      net = 200 * count + finalPrice (first.getCommittedState a slot).1 (s.getState a slot).1) := by
  obtain ⟨-, -, modular, exactly⟩ := history.net active inactive valid
  have unpaid : finalPrice ((first.facts a).committed slot) ((first.facts a).storage slot) = 0 := by
    rw [← getCommittedState_facts, ← getState_facts]
    exact if_pos fresh
  rw [unpaid, Int.sub_zero] at modular exactly
  rw [getCommittedState_facts, getState_facts]
  exact ⟨modular, exactly⟩

end History

def netEnv : Env where
  chainConfig := ⟨some 0, some 0, some 0, some 0, some 0, some 1⟩

def writer (db : StateDB) (value : Int) : Frame where
  evm := { db := db }
  contract := { callerAddress := 1, self := 0x100, code := [0x55], gas := 50000, value := 0 }
  stack := [0, value]

def write [Crypto] (db : StateDB) (value : Int) : Option Int × StateDB :=
  match step netEnv (writer db value) with
  | .ret (.inl later) => (some (netPrice (writer db value) later), later.evm.db)
  | _ => (none, db)

theorem History.write [Crypto] {fits : StateDB → Prop} {first db : StateDB} {count : Nat} {net : Int}
    (history : History netEnv 0x100 0 fits first count net db) (small : fits db) (value : Int) {price : Int}
    (priced : (CuteEVM.write db value).1 = some price) :
    History netEnv 0x100 0 fits first (count + 1) (net + price) (CuteEVM.write db value).2 := by
  unfold CuteEVM.write at priced ⊢
  split at priced
  · next later stepped =>
    obtain rfl := Option.some.inj priced
    have stores : StoresTo netEnv 0x100 0 (writer db value) later := ⟨rfl, rfl, rfl, stepped⟩
    dsimp only
    exact @History.store _ _ _ _ _ _ _ _ (writer db value) later history small stores
  · cases priced

attribute [local instance] Crypto.sample

theorem net_storage_price_twice : ∃ s, History netEnv 0x100 0 (fun t => t.refund + 19800 < 2 ^ 64) (sampleState []) 2 20200 s ∧
    (20200 : Int) = 200 * 2 + finalPrice 0 (s.getState 0x100 0).1 := by
  have untouched : History netEnv 0x100 0 (fun t => t.refund + 19800 < 2 ^ 64) (sampleState []) 0 0 (sampleState []) := .start
  have first := untouched.write (by decide +kernel) 1 (show _ = some 20000 by decide +kernel)
  have second := first.write (by decide +kernel) 2 (show _ = some 200 by decide +kernel)
  have valid : Valid (sampleState []) := (sampleState_reached [] guarded_of_plain).valid
  have net := (net_storage_price (by decide) (by decide) valid (by decide +kernel) second).2 fun _ small => small
  have original : ((sampleState []).getCommittedState 0x100 0).1 = 0 := by decide +kernel
  rw [original] at net
  exact ⟨_, second, net⟩

-- The counter is close to its end when the slot is reset.
theorem net_storage_price_wraps : ∃ s net, History netEnv 0x100 0 (fun _ => True) (sampleState []) 2 net s ∧
    ((sampleState []).getState 0x100 0).1 = ((sampleState []).getCommittedState 0x100 0).1 ∧
    net ≠ 200 * 2 + finalPrice ((sampleState []).getCommittedState 0x100 0).1 (s.getState 0x100 0).1 := by
  have untouched : History netEnv 0x100 0 (fun _ => True) (sampleState []) 0 0 (sampleState []) := .start
  have filled := untouched.other (show (Op.addRefund (2 ^ 64 - 1)).Passes 0x100 0 from rfl) rfl
  have first := filled.write trivial 1 (show _ = some 20000 by decide +kernel)
  have second := first.write trivial 0 (show _ = some (200 - (19799 - (2 ^ 64 - 1))) by decide +kernel)
  exact ⟨_, _, second, by decide +kernel, by decide +kernel⟩

end CuteEVM
