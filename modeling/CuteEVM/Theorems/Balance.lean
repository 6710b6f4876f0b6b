import Mathlib.Algebra.Order.BigOperators.Group.List
import CuteEVM.Shared.Ledger
import CuteEVM.Theorems.Revert

set_option autoImplicit false

-- A call moves ether between accounts.

namespace CuteEVM

open CallTree

attribute [local instance] Crypto.sample

instance addressFintype : Fintype Address :=
  Fintype.ofEquiv (Fin (2 ^ 160)) ⟨BitVec.ofFin, BitVec.toFin, fun _ => rfl, fun _ => rfl⟩

def burnt (suicides : List Destroyed) : Int :=
  (suicides.map fun destroyed => if destroyed.contract = destroyed.beneficiary then destroyed.balance else 0).sum

theorem burnt_append (first second : List Destroyed) : burnt (first ++ second) = burnt first + burnt second := by
  simp [burnt]

section Conservation

variable [Crypto]

structure Balanced (evm evm' : EVM) : Prop where
  nonneg : ∀ a, 0 ≤ evm'.db.balances a
  total : ∃ recent, evm'.trace.suicides = recent ++ evm.trace.suicides ∧ (∀ destroyed ∈ recent, 0 ≤ destroyed.balance) ∧
    Ledger.total evm'.db.balances = Ledger.total evm.db.balances - burnt recent

omit [Crypto] in
theorem Balanced.refl {evm evm' : EVM} (nonneg : ∀ a, 0 ≤ evm.db.balances a) (same : evm'.db.balances = evm.db.balances)
    (suicides : evm'.trace.suicides = evm.trace.suicides) : Balanced evm evm' where
  nonneg := by
    rw [same]
    exact nonneg
  total := ⟨[], suicides, by simp, by rw [same]; simp [burnt]⟩

omit [Crypto] in
theorem Balanced.trans {first second third : EVM} (before : Balanced first second) (after : Balanced second third) :
    Balanced first third where
  nonneg := after.nonneg
  total := by
    obtain ⟨recent, suicides, positive, total⟩ := before.total
    obtain ⟨later, suicides', positive', total'⟩ := after.total
    refine ⟨later ++ recent, by rw [suicides', suicides, List.append_assoc], fun destroyed member => ?_, ?_⟩
    · rcases List.mem_append.mp member with new | old
      · exact positive' destroyed new
      · exact positive destroyed old
    rw [total', total, burnt_append]
    ring

omit [Crypto] in
theorem Balanced.moved {evm evm' : EVM} {sender recipient : Address} {amount : Int} (nonneg : ∀ a, 0 ≤ evm.db.balances a)
    (positive : 0 ≤ amount) (covered : amount ≤ evm.db.balances sender)
    (moved : evm'.db.balances = move evm.db.balances sender recipient amount)
    (suicides : evm'.trace.suicides = evm.trace.suicides) : Balanced evm evm' where
  nonneg := by
    rw [moved]
    have paid := Ledger.update_nonneg nonneg sender (Int.sub_nonneg_of_le covered)
    exact Ledger.update_nonneg paid recipient (Int.add_nonneg (paid recipient) positive)
  total := by
    refine ⟨[], suicides, by simp, ?_⟩
    rw [moved]
    have same := Ledger.total_move evm.db.balances sender recipient amount
    simp only [burnt, List.map_nil, List.sum_nil, sub_zero]
    exact same

theorem Perishes.balanced {env : Env} {fr fr' : Frame} {beneficiary : Address} (perishes : Perishes env fr beneficiary fr')
    (valid : Valid fr.evm.db) (nonneg : ∀ a, 0 ≤ fr.evm.db.balances a) : Balanced fr.evm fr'.evm where
  nonneg := by
    rw [perishes.balances valid]
    have paid := Ledger.update_nonneg nonneg beneficiary
      (Int.add_nonneg (nonneg beneficiary) (nonneg fr.contract.self))
    exact Ledger.update_nonneg paid fr.contract.self (Int.le_refl 0)
  total := by
    refine ⟨[⟨fr.contract.self, beneficiary, fr.evm.db.balances fr.contract.self⟩], perishes.suicides valid,
      by simpa using nonneg fr.contract.self, ?_⟩
    rw [perishes.balances valid, Ledger.total_update, Ledger.total_update]
    simp only [burnt, List.map_cons, List.map_nil, List.sum_cons, List.sum_nil]
    by_cases own : fr.contract.self = beneficiary
    · rw [← own, Function.update_self]
      simp only [if_true]
      ring
    · rw [Function.update_of_ne own, if_neg own]
      ring

structure Solvent (inv : Invocation) : Prop where
  nonneg : ∀ a, 0 ≤ inv.evm.db.balances a
  value : 0 ≤ inv.value
  delegated : ∀ parent, inv.caller = .contract parent → 0 ≤ parent.value

structure Endowed (request : RunReq) : Prop where
  nonneg : ∀ a, 0 ≤ request.evm.db.balances a
  value : 0 ≤ request.contract.value

variable {env : Env} {inv : Invocation} {request : RunReq} {fr fr' : Frame} {res : RunRes} {before : StateDB}

theorem Works.balanced (works : Works env fr fr') (valid : Valid fr.evm.db) (funded : fr.Funded) :
    Balanced fr.evm fr'.evm ∧ fr'.Funded := by
  obtain ⟨writes, -, gentle⟩ := works.db
  have same := (gentle valid).balances
  refine ⟨.refl funded.balances same (by rw [works.evm]), works.words valid funded, ?_, ?_⟩
  · rw [works.contract]
    exact funded.value
  · rw [same]
    exact funded.balances

theorem Asks.solvent {parent : Contract} (asks : Asks env fr parent inv) (valid : Valid fr.evm.db) (funded : fr.Funded) :
    Solvent inv ∧ Balanced fr.evm inv.evm := by
  obtain ⟨writes, -, gentle⟩ := asks.db
  have same := (gentle valid).balances
  refine ⟨⟨?_, asks.nonneg valid funded, fun other caller => ?_⟩, .refl funded.balances same (by rw [asks.evm])⟩
  · rw [same]
    exact funded.balances
  · obtain rfl := ContractRef.contract.inj (asks.caller.symm.trans caller)
    rw [asks.keeps]
    exact funded.value

omit [Crypto] in
theorem Continues.balanced {parent : Contract} {reply : Reply} (continues : Continues fr parent reply fr')
    (keeps : parent = { fr.contract with gas := parent.gas }) (funded : fr.Funded) (balanced : Balanced fr.evm reply.evm) :
    Balanced fr.evm fr'.evm ∧ fr'.Funded := by
  have same : Balanced fr.evm fr'.evm := by
    rw [continues.evm]
    exact ⟨balanced.nonneg, balanced.total⟩
  refine ⟨same, continues.words funded.words, ?_, same.nonneg⟩
  rw [continues.contract, keeps]
  exact funded.value

theorem Opens.balanced (opens : Opens inv before request) (valid : Valid inv.evm.db) (solvent : Solvent inv) :
    Balanced inv.evm request.evm ∧ Endowed request := by
  have prior := (opens.prior valid).2
  have suicides : request.evm.trace.suicides = inv.evm.trace.suicides := by rw [opens.evm]
  have balanced : Balanced inv.evm request.evm := by
    rcases opens.moved valid with same | ⟨covered, recipient, moved⟩
    · exact .refl solvent.nonneg (same.trans prior) suicides
    · rw [prior] at covered moved
      exact .moved solvent.nonneg solvent.value covered moved suicides
  exact ⟨balanced, balanced.nonneg, opens.value solvent.value solvent.delegated⟩

theorem Ran.balanced {spec : Spec RunReq RunRes Panic} {evm : EVM} (ran : Ran env spec request res)
    (post : ∀ request res, spec.post request res → Balanced request.evm res.evm) (opened : Balanced evm request.evm) :
    Balanced evm res.evm := by
  rcases ran.how with native | interpreted
  · rw [native.evm]
    exact opened
  · exact opened.trans (post request res interpreted)

theorem balance_step (kept : JournalKeeps (fun _ => True) request fr) (also : Balanced request.evm fr.evm ∧ fr.Funded) :
    (step env fr).Sat
      ⟨Solvent, fun inv reply => (journalCalls fun _ => True).post inv reply ∧ Balanced inv.evm reply.evm, fun _ => True⟩
      (Sum.elim (fun next => Balanced request.evm next.evm ∧ next.Funded) fun res => Balanced request.evm res.evm) := by
  obtain ⟨bounded, evolves, -⟩ := kept
  obtain ⟨balanced, funded⟩ := also
  have valid := evolves.valid
  refine step_sat bounded.fit (fun _ _ => trivial) (fun fr' works _ => ?_) (fun fr' ret err works _ _ => ?_)
    (fun beneficiary fr' perishes => ?_) fun parent inv asks => ⟨(asks.solvent valid funded).1, fun reply post fr' continues => ?_⟩
  · obtain ⟨next, kept⟩ := works.balanced valid funded
    exact ⟨balanced.trans next, kept⟩
  · have next := balanced.trans (works.balanced valid funded).1
    exact ⟨next.nonneg, next.total⟩
  · have next := balanced.trans (perishes.balanced valid funded.balances)
    exact ⟨next.nonneg, next.total⟩
  · have replied := (asks.solvent valid funded).2.trans post.2
    obtain ⟨next, kept⟩ := continues.balanced asks.keeps funded replied
    exact ⟨balanced.trans next, kept⟩

theorem balance_entry (env : Env) (pre : (journalCalls fun _ => True).pre inv) (solvent : Solvent inv) :
    (entry env inv).Sat
      ⟨Endowed, fun request res => (journalRuns fun _ => True).post request res ∧ Balanced request.evm res.evm, fun _ => True⟩
      fun reply => Balanced inv.evm reply.evm := by
  obtain ⟨-, valid, -⟩ := pre
  have journaled : Journaled ⟨Endowed, fun request res => (journalRuns fun _ => True).post request res ∧
      Balanced request.evm res.evm, fun _ => True⟩ := ⟨fun _ _ post => post.1.2, fun _ _ post => post.1.1.err, trivial⟩
  -- The state of the snapshot has the balances from before the call.
  have undone : ∀ {before request db} {evm : EVM}, Opens inv before request → Restored before db → evm.db = db →
      evm.trace.suicides = inv.evm.trace.suicides → Balanced inv.evm evm := by
    intro before request db evm opens restored state suicides
    refine .refl solvent.nonneg ?_ suicides
    rw [state, restored.balances, (opens.prior valid).2]
  refine entry_journaled journaled valid trivial (fun before request opens => (opens.balanced valid solvent).2)
    fun reply concluded => ?_
  cases concluded with
  | declines declined => exact .refl solvent.nonneg (declined.db valid).balances (by rw [declined.evm])
  | collides collided => exact .refl solvent.nonneg (collided.db valid).balances (by rw [collided.evm])
  | skips _ opens => exact (opens.balanced valid solvent).1
  | succeeds _ opens ran | unpaid _ opens _ ran => exact ran.balanced (fun _ _ post => post.2) (opens.balanced valid solvent).1
  | fails _ opens _ _ _ restored | abandons _ opens _ _ _ _ restored => exact undone opens restored rfl rfl
  | deploys _ opens _ ran =>
    have ended := ran.balanced (fun _ _ post => post.2) (opens.balanced valid solvent).1
    exact ended.trans (.refl ended.nonneg (setCode_balances (opens.done journaled valid ran).valid _ _) rfl)

theorem balance_upholds (env : Env) :
    Upholds env
      ⟨fun inv => (journalCalls fun _ => True).pre inv ∧ Solvent inv,
        fun inv reply => (journalCalls fun _ => True).post inv reply ∧ Balanced inv.evm reply.evm,
        fun fault => (journalCalls fun _ => True).safe fault ∧ True⟩
      ⟨fun request => (journalRuns fun _ => True).pre request ∧ Endowed request,
        fun request res => (journalRuns fun _ => True).post request res ∧ Balanced request.evm res.evm,
        fun fault => (journalRuns fun _ => True).safe fault ∧ True⟩
      fun request fr => JournalKeeps (fun _ => True) request fr ∧ Balanced request.evm fr.evm ∧ fr.Funded := by
  refine (journal_upholds env steady_true).extend (fun request _ endowed => ?_)
    (fun request fr kept also => balance_step kept also)
    fun inv pre solvent => balance_entry env pre solvent
  unfold start
  dsimp only
  split
  · exact ⟨endowed.nonneg, [], rfl, by simp, by simp [burnt, Frame.leave]⟩
  · exact ⟨⟨endowed.nonneg, [], rfl, by simp, by simp [burnt]⟩, ⟨by simp [Frame.Nonneg], endowed.value, endowed.nonneg⟩⟩

omit [Crypto] in
theorem burnt_nonneg {suicides : List Destroyed} (positive : ∀ destroyed ∈ suicides, 0 ≤ destroyed.balance) :
    0 ≤ burnt suicides := by
  apply List.sum_nonneg
  simp only [List.mem_map, forall_exists_index, and_imp, forall_apply_eq_imp_iff₂]
  intro destroyed member
  split
  · exact positive destroyed member
  · exact le_rfl

omit [Crypto] in
theorem burnt_of_ne {suicides : List Destroyed} (elsewhere : ∀ destroyed ∈ suicides, destroyed.contract ≠ destroyed.beneficiary) :
    burnt suicides = 0 := by
  apply List.sum_eq_zero
  simp only [List.mem_map, forall_exists_index, and_imp, forall_apply_eq_imp_iff₂]
  intro destroyed member
  exact if_neg (elsewhere destroyed member)

theorem observe_balance (s : StateDB) : s.observe.balance = s.balances := funext s.getBalance_value

theorem ether_conserved (env : Env) (inv : Invocation) (small : inv.gas < 2 ^ 64) (reached : Reached (fun _ _ => True) inv.evm.db)
    (nonneg : ∀ a, 0 ≤ inv.evm.db.observe.balance a) (value : 0 ≤ inv.value)
    (delegated : ∀ parent, inv.caller = .contract parent → 0 ≤ parent.value) (fresh : inv.evm.trace.suicides = []) :
    ∀ reply, Answers env inv reply →
      (∀ a, 0 ≤ reply.evm.db.observe.balance a) ∧
      ∑ a, reply.evm.db.observe.balance a ≤ ∑ a, inv.evm.db.observe.balance a ∧
      ((∀ destroyed ∈ reply.evm.trace.suicides, destroyed.contract ≠ destroyed.beneficiary) →
        ∑ a, reply.evm.db.observe.balance a = ∑ a, inv.evm.db.observe.balance a) ∧
      ∑ a, reply.evm.db.observe.balance a = ∑ a, inv.evm.db.observe.balance a - burnt reply.evm.trace.suicides := by
  intro reply answered
  rw [observe_balance] at nonneg
  obtain ⟨-, balanced⟩ := (balance_upholds env).answers ⟨⟨small, reached.valid, trivial⟩, nonneg, value, delegated⟩ answered
  obtain ⟨recent, suicides, positive, total⟩ := balanced.total
  rw [fresh, List.append_nil] at suicides
  rw [observe_balance, observe_balance, suicides]
  refine ⟨balanced.nonneg, ?_, fun elsewhere => ?_, total⟩
  · exact (le_of_eq total).trans (Int.sub_le_self _ (burnt_nonneg positive))
  · rw [burnt_of_ne elsewhere, sub_zero] at total
    exact total

end Conservation

theorem sampleState_nonneg (code : Bytes) (a : Address) : 0 ≤ (sampleState code).balances a := by
  have new : Reached (fun _ _ => True) (StateDB.new (fun _ => none) (fun _ => none)) := .new _ _
  have funded : Reached (fun _ _ => True) ((StateDB.new (fun _ => none) (fun _ => none)).addBalance 1 100) :=
    .step (.addBalance 1 100) new trivial rfl
  unfold sampleState
  rw [setCode_balances funded.valid, addBalance_balances new.valid]
  exact Ledger.update_nonneg (fun _ => le_rfl) 1 (by decide) a

-- The contract holds nothing of its own. It destroys the five that the call passes.
theorem ether_conserved_sample :
    ∃ reply, Answers sampleEnv { sampleCall .call [0x30, 0xff] with value := 5, gas := 10000 } reply ∧ reply.err = none ∧
      ∑ a, reply.evm.db.observe.balance a = ∑ a, (sampleState [0x30, 0xff]).observe.balance a - 5 := by
  obtain ⟨reply, returned, done⟩ : ∃ reply,
      invoke sampleEnv 10 { sampleCall .call [0x30, 0xff] with value := 5, gas := 10000 } = .ret reply ∧
        (reply.err == none && burnt reply.evm.trace.suicides == 5) = true := replyOf_any (by decide +kernel)
  rw [Bool.and_eq_true] at done
  have answered : Answers sampleEnv { sampleCall .call [0x30, 0xff] with value := 5, gas := 10000 } reply := ⟨10, returned⟩
  have nonneg : ∀ a, 0 ≤ (sampleState [0x30, 0xff]).observe.balance a := by
    rw [observe_balance]
    exact sampleState_nonneg [0x30, 0xff]
  have conserved := ether_conserved sampleEnv { sampleCall .call [0x30, 0xff] with value := 5, gas := 10000 } (by decide)
    (sampleState_reached [0x30, 0xff] fun _ _ _ => trivial) nonneg (by decide) nofun rfl reply answered
  refine ⟨reply, answered, eq_of_beq done.1, ?_⟩
  rw [← eq_of_beq done.2]
  exact conserved.2.2.2

end CuteEVM
