import CuteEVM.Proofs.Table

set_option autoImplicit false

-- Everything that the loop of `Run` can do to a frame, said once.

namespace CuteEVM

open CallTree Exec

variable [Crypto]

structure Charged (writes : Bool) (fr fr' : Frame) : Prop where
  pc : fr'.pc = fr.pc
  contract : fr'.contract = { fr.contract with gas := fr'.contract.gas }
  gas : fr'.contract.gas ≤ fr.contract.gas
  stack : fr'.stack = fr.stack
  evm : fr'.evm = { fr.evm with db := fr'.evm.db, callGasTemp := fr'.evm.callGasTemp }
  resets : fr'.resets = fr.resets
  memory : fr.memory.store.length ≤ memoryLimit → fr'.memory.store.length ≤ memoryLimit
  db : Valid fr.evm.db → Gentle writes fr.evm.db fr'.evm.db

theorem Charged.refl (writes : Bool) (fr : Frame) : Charged writes fr fr :=
  ⟨rfl, rfl, Nat.le_refl _, rfl, rfl, rfl, id, fun valid => .refl valid writes⟩

theorem Charged.trans {writes : Bool} {first second third : Frame} (before : Charged writes first second)
    (after : Charged writes second third) : Charged writes first third where
  pc := after.pc.trans before.pc
  contract := by rw [after.contract, before.contract]
  gas := Nat.le_trans after.gas before.gas
  stack := after.stack.trans before.stack
  evm := by rw [after.evm, before.evm]
  resets := after.resets.trans before.resets
  memory := after.memory ∘ before.memory
  db := fun valid =>
    have gentle := before.db valid
    gentle.trans (after.db gentle.evolves.valid)

theorem Prices.charged {writes : Bool} {fr fr' : Frame} (prices : Prices writes fr fr') : Charged writes fr fr' where
  pc := prices.pc
  contract := by rw [prices.contract]
  gas := Nat.le_of_eq (by rw [prices.contract])
  stack := prices.stack
  evm := prices.evm
  resets := prices.resets
  memory := by rw [prices.store]; exact id
  db := prices.db

def Charges {α : Type} (writes : Bool) (action : Exec α) (fr : Frame) (good : α → Frame → Prop) : Prop :=
  (action fr).Sat pricingSpec fun p => Charged writes fr p.2 ∧ (∀ err, p.1 = .error err → err.ofRun = true) ∧
    ∀ value, p.1 = .ok value → good value p.2

section Charges

variable {α β : Type} {writes : Bool} {fr : Frame}

theorem Charges.bind {good : α → Frame → Prop} {better : β → Frame → Prop} {first : Exec α} {next : α → Exec β}
    (head : Charges writes first fr good)
    (tail : ∀ value fr', Charged writes fr fr' → good value fr' → Charges writes (next value) fr' better) :
    Charges writes (first >>= next) fr better := by
  refine sat_bind head ?_ ?_
  · rintro value fr' ⟨charged, -, holds⟩
    have rest := tail value fr' charged (holds value rfl)
    exact Prog.Sat.mono rest fun _ after => ⟨charged.trans after.1, after.2⟩
  · rintro err fr' ⟨charged, known, -⟩
    exact ⟨charged, fun _ same => known _ (by cases same; rfl), by rintro _ ⟨⟩⟩

theorem Charges.pure {good : α → Frame → Prop} (value : α) (holds : good value fr) :
    Charges writes (Pure.pure value) fr good :=
  ⟨.refl writes fr, by rintro _ ⟨⟩, by rintro _ ⟨⟩; exact holds⟩

theorem Charges.fail {good : α → Frame → Prop} {err : Err} (known : err.ofRun = true) :
    Charges writes (Exec.fail err : Exec α) fr good :=
  ⟨.refl writes fr, by rintro _ ⟨⟩; exact known, by rintro _ ⟨⟩⟩

theorem pay_charges (cost : Nat) : Charges writes (pay cost) fr fun _ fr' =>
    fr' = { fr with contract := { fr.contract with gas := fr.contract.gas - cost } } ∧ cost ≤ fr.contract.gas := by
  by_cases enough : fr.contract.gas < cost
  · simp only [Charges, pay, bind_apply, useGas, Contract.useGas, if_pos enough, Prog.bind_ret,
      Bool.false_eq_true, if_false, fail_apply, Prog.sat_ret]
    exact ⟨.refl writes fr, by rintro _ ⟨⟩; rfl, by rintro _ ⟨⟩⟩
  · simp only [Charges, pay, bind_apply, useGas, Contract.useGas, if_neg enough, Prog.bind_ret]
    refine ⟨⟨rfl, rfl, Nat.sub_le _ _, rfl, rfl, rfl, id, fun valid => .refl valid writes⟩, by rintro _ ⟨⟩, ?_⟩
    rintro _ ⟨⟩
    exact ⟨rfl, Nat.not_lt.mp enough⟩

omit [Crypto] in
theorem words_cover {asked size : Nat} (result : safeMul (toWordSize asked) 32 = (size, false)) : asked ≤ size := by
  unfold toWordSize maxUint64 at result
  split at result
  · simp [safeMul, maxUint64] at result
  · by_cases empty : (asked + 31) / 32 = 0
    · omega
    · simp only [safeMul, empty, decide_false, Bool.false_or, mul64, maxUint64] at result
      obtain ⟨total, fits⟩ := Prod.mk.inj result
      have fits := of_decide_eq_false fits
      omega

theorem checked_charges {result : Nat × Bool} :
    Charges writes (checked result) fr fun value fr' => result = (value, false) ∧ fr' = fr := by
  obtain ⟨value, overflow⟩ := result
  cases overflow with
  | true => exact Charges.fail rfl
  | false => exact Charges.pure value ⟨rfl, rfl⟩

theorem orOutOfGas_charges {gas : Exec Nat} {good : Nat → Frame → Prop} (costs : Costs writes gas fr good) :
    Charges writes (orOutOfGas gas) fr fun cost fr' => Prices writes fr fr' ∧ good cost fr' := by
  refine Prog.Sat.bind costs ?_
  rintro ⟨result, fr'⟩ ⟨prices, holds⟩
  cases result with
  | ok cost => exact ⟨prices.charged, by rintro _ ⟨⟩, by rintro _ ⟨⟩; exact ⟨prices, holds cost rfl⟩⟩
  | error err => exact ⟨prices.charged, by rintro _ ⟨⟩; rfl, by rintro _ ⟨⟩⟩

end Charges

section Prepare

variable {fr : Frame} {op : OpCode} {operation : Operation} {cls : Class}

def Asked (operation : Operation) (stack : Stack) (asked : Nat) : Prop :=
  ∀ memorySize, operation.memorySize = some memorySize →
    ∀ fr : Frame, fr.stack = stack → memorySize fr = .ret (.ok (asked, false), fr)

theorem requiredMemory_charges (sound : Sound op operation cls) (low : operation.minStack ≤ fr.stack.length) :
    Charges operation.writes (requiredMemory operation) fr fun size fr' => fr' = fr ∧
      (operation.memorySize = none → size = 0) ∧ ∃ asked, Asked operation fr.stack asked ∧ asked ≤ size := by
  unfold requiredMemory
  cases sized : operation.memorySize with
  | none => exact Charges.pure 0 ⟨rfl, fun _ => rfl, 0, by simp [Asked, sized], Nat.le_refl 0⟩
  | some memorySize =>
    obtain ⟨size, apply⟩ := sound.sizes memorySize sized
    have computed := apply fr low
    cases found : size fr.stack with
    | mk asked overflow =>
      rw [found] at computed
      simp only [Charges, bind_apply, computed, Prog.bind_ret]
      cases overflow with
      | true => exact ⟨.refl _ fr, by rintro _ ⟨⟩; rfl, by rintro _ ⟨⟩⟩
      | false =>
        refine Prog.Sat.mono checked_charges fun p good => ⟨good.1, good.2.1, fun value result => ?_⟩
        obtain ⟨product, same⟩ := good.2.2 value result
        refine ⟨same, nofun, asked, ?_, words_cover product⟩
        intro other is fr' stack
        obtain rfl := Option.some.inj (sized.symm.trans is)
        rw [apply fr' (stack ▸ low), stack, found]

omit [Crypto] in
theorem Class.least_congr (operation : Operation) {fr fr' : Frame} (stack : fr'.stack = fr.stack) (cls : Class) :
    cls.least operation fr' = cls.least operation fr := by
  unfold Class.least callLeast
  rw [stack]

theorem payDynamic_charges (sound : Sound op operation cls) (low : operation.minStack ≤ fr.stack.length) {size : Nat}
    (unused : operation.memorySize = none → size = 0) :
    Charges operation.writes (payDynamic operation size) fr fun _ fr' => size ≤ memoryLimit ∧
      fr'.memory.store = fr.memory.store ∧
      fr'.contract.gas + cls.least operation fr + cls.handed fr' ≤ fr.contract.gas + operation.constantGas := by
  unfold payDynamic
  cases metered : operation.dynamicGas with
  | none =>
    obtain ⟨unsized, price⟩ := sound.unmetered metered
    refine Charges.pure () ⟨unused unsized ▸ Nat.zero_le _, rfl, ?_⟩
    have paid := price fr
    omega
  | some gas =>
    have costs := sound.metered gas metered size fr low
    refine (orOutOfGas_charges costs).bind fun cost fr₁ _ priced => ?_
    obtain ⟨prices, limit, price⟩ := priced
    refine Prog.Sat.mono (pay_charges cost) fun p good => ⟨good.1, good.2.1, fun value result => ?_⟩
    obtain ⟨same, enough⟩ := good.2.2 value result
    rw [same]
    refine ⟨?_, prices.store, ?_⟩
    · by_cases unsized : operation.memorySize = none
      · exact unused unsized ▸ Nat.zero_le _
      · exact limit unsized
    · have handed : cls.handed { fr₁ with contract := { fr₁.contract with gas := fr₁.contract.gas - cost } } =
          cls.handed fr₁ := by cases cls with
        | simple => rfl
        | suicide => rfl
        | calls kind => cases kind <;> rfl
      have kept : fr₁.contract.gas = fr.contract.gas := by rw [prices.contract]
      rw [handed]
      dsimp only
      omega

def Allowed (env : Env) (fr : Frame) (writes : Bool) : Prop :=
  fr.evm.readOnly = true → env.isByzantium = true → writes = false

structure Refused (env : Env) (fr : Frame) (err : Err) (fr' : Frame) : Prop where
  charged : ∃ writes, Allowed env fr writes ∧ Charged writes fr fr'
  known : err.ofRun = true

structure Admitted (env : Env) (op : OpCode) (operation : Operation) (cls : Class) (fr fr' : Frame) : Prop where
  found : (jumpTable env).lookup op = some operation
  sound : Sound op operation cls
  manner : Mannered env op operation cls
  allowed : Allowed env fr operation.writes
  value : fr.evm.readOnly = true → env.isByzantium = true → op = CALL → fr.stack[2]? = some 0
  charged : Charged operation.writes fr fr'
  ready : Ready operation fr'
  paid : fr'.contract.gas + cls.least operation fr' + cls.handed fr' ≤ fr.contract.gas

def Checks (action : Exec Unit) (fr : Frame) (good : Prop) : Prop :=
  (∃ err, action fr = .ret (.error err, fr) ∧ err.ofRun = true) ∨ (action fr = .ret (.ok (), fr) ∧ good)

omit [Crypto] in
theorem validateStack_checks (operation : Operation) (fr : Frame) : Checks (validateStack operation) fr
    (operation.minStack ≤ fr.stack.length ∧ fr.stack.length ≤ operation.maxStack) := by
  unfold Checks
  simp only [validateStack, bind_apply, get_apply, Prog.bind_ret]
  split
  · exact .inl ⟨_, rfl, rfl⟩
  · split
    · exact .inl ⟨_, rfl, rfl⟩
    · exact .inr ⟨rfl, by omega, by omega⟩

-- The entry for `CALL` has seven operands, so the third one can be read.
omit [Crypto] in
theorem enforceReadOnly_checks (env : Env) (op : OpCode) (operation : Operation) (fr : Frame)
    (deep : op = CALL → 2 < fr.stack.length) : Checks (enforceReadOnly env op operation) fr
    (Allowed env fr operation.writes ∧
      (fr.evm.readOnly = true → env.isByzantium = true → op = CALL → fr.stack[2]? = some 0)) := by
  unfold Checks Allowed
  simp only [enforceReadOnly, bind_apply, get_apply, Prog.bind_ret]
  split
  · split
    · exact .inl ⟨_, rfl, rfl⟩
    · next writes =>
      split
      · next called =>
        obtain ⟨value, found⟩ : ∃ value, fr.stack[2]? = some value := ⟨_, List.getElem?_eq_getElem (deep called)⟩
        simp only [bind_apply, back_apply found, Prog.bind_ret]
        split
        · exact .inl ⟨_, rfl, rfl⟩
        · next zero => exact .inr ⟨rfl, by simp [writes], by simp_all⟩
      · next other => exact .inr ⟨rfl, by simp [writes], fun _ _ called => absurd called other⟩
  · next free =>
    refine .inr ⟨rfl, ?_, ?_⟩
    · intro static byzantium
      simp [static, byzantium] at free
    · intro static byzantium
      simp [static, byzantium] at free

omit [Crypto] in
theorem resizeMemory_apply (size : Nat) (fr : Frame) :
    ∃ memory, resizeMemory size fr = .ret (.ok (), { fr with memory := memory }) ∧
    size ≤ memory.store.length ∧
    (fr.memory.store.length ≤ memoryLimit → size ≤ memoryLimit → memory.store.length ≤ memoryLimit) := by
  simp only [resizeMemory, modify_apply]
  split
  · refine ⟨_, rfl, ?_⟩
    unfold Memory.resize
    split
    · simp only [List.length_append, List.length_replicate]
      omega
    · omega
  · exact ⟨fr.memory, rfl, by omega, fun small _ => small⟩

theorem payments_charge (sound : Sound op operation cls) (low : operation.minStack ≤ fr.stack.length)
    (high : fr.stack.length ≤ operation.maxStack) (limit : fr.memory.store.length ≤ memoryLimit) :
    Charges operation.writes (do
      pay operation.constantGas
      let memorySize ← requiredMemory operation
      payDynamic operation memorySize
      resizeMemory memorySize
      pure operation) fr fun value fr' => value = operation ∧ Ready operation fr' ∧
        fr'.contract.gas + cls.least operation fr' + cls.handed fr' ≤ fr.contract.gas := by
  refine (pay_charges operation.constantGas).bind fun _ fr₁ charged₁ paid => ?_
  have low₁ : operation.minStack ≤ fr₁.stack.length := by rw [charged₁.stack]; exact low
  have kept : fr₁.contract.gas + operation.constantGas = fr.contract.gas := by
    rw [paid.1]
    exact Nat.sub_add_cancel paid.2
  refine (requiredMemory_charges sound low₁).bind fun size fr₂ _ required => ?_
  obtain ⟨rfl, unused, asked, asks, covers⟩ := required
  refine (payDynamic_charges sound low₁ unused).bind fun _ fr₃ charged₃ dynamic => ?_
  obtain ⟨small, store, price⟩ := dynamic
  obtain ⟨memory, resized, longer, bounded⟩ := resizeMemory_apply size fr₃
  have stack : fr₃.stack = fr.stack := charged₃.stack.trans charged₁.stack
  have fits := bounded (charged₃.memory (charged₁.memory limit)) small
  simp only [Charges, bind_apply, resized, Prog.bind_ret, pure_apply, Prog.sat_ret]
  refine ⟨⟨rfl, rfl, Nat.le_refl _, rfl, rfl, rfl, fun _ => fits, fun valid => .refl valid _⟩, by rintro _ ⟨⟩, ?_⟩
  rintro _ ⟨⟩
  refine ⟨rfl, ⟨stack ▸ low, stack ▸ high, fun memorySize sized => ⟨⟨asked, ?_, ?_⟩, fits⟩⟩, ?_⟩
  · exact asks memorySize sized _ charged₃.stack
  · exact Nat.le_trans covers longer
  · have least : cls.least operation { fr₃ with memory := memory } = cls.least operation fr₂ :=
      Class.least_congr operation charged₃.stack cls
    have handed : cls.handed { fr₃ with memory := memory } = cls.handed fr₃ := rfl
    rw [least, handed]
    omega

def Prepared (env : Env) (fr : Frame) (op : OpCode) : Except Err Operation × Frame → Prop
  | (.error err, fr') => Refused env fr err fr'
  | (.ok operation, fr') => ∃ cls, Admitted env op operation cls fr fr'

theorem lookup_call (env : Env) : (jumpTable env).lookup CALL =
    some { sized opCall (gasCall env env.gasTable) 7 1 memoryCall with returns := true } := by
  unfold jumpTable
  repeat' split
  all_goals rfl

theorem prepare_sat (env : Env) (limit : fr.memory.store.length ≤ memoryLimit) :
    (prepare env fr).Sat pricingSpec (Prepared env fr (fr.contract.getOp fr.pc)) := by
  have stays : ∀ err : Err, err.ofRun = true → Refused env fr err fr :=
    fun err known => ⟨⟨false, fun _ _ => rfl, .refl false fr⟩, known⟩
  simp only [prepare, bind_apply, get_apply, Prog.bind_ret]
  generalize fr.contract.getOp fr.pc = op
  cases found : (jumpTable env).lookup op with
  | none => exact stays (.invalidOpcode op) rfl
  | some operation =>
    obtain ⟨cls, sound, manner⟩ := lookup_classified env found
    have calls : op = CALL → 3 ≤ operation.minStack := by
      rintro rfl
      rw [lookup_call env] at found
      obtain rfl := Option.some.inj found
      exact (by decide : 3 ≤ 7)
    unfold admitOperation
    simp only [bind_apply]
    rcases validateStack_checks operation fr with ⟨err, failed, known⟩ | ⟨passed, low, high⟩
    · rw [failed]
      exact stays err known
    rw [passed]
    simp only [Prog.bind_ret]
    rcases enforceReadOnly_checks env op operation fr (fun called => Nat.le_trans (calls called) low) with
      ⟨err, failed, known⟩ | ⟨passed, allowed, value⟩
    · rw [failed]
      exact stays err known
    rw [passed]
    refine Prog.Sat.mono (payments_charge sound low high limit) ?_
    rintro ⟨result, fr'⟩ ⟨charged, errors, holds⟩
    cases result with
    | error err => exact ⟨⟨_, allowed, charged⟩, errors err rfl⟩
    | ok admitted =>
      obtain ⟨rfl, ready, paid⟩ := holds admitted rfl
      exact ⟨cls, found, sound, manner, allowed, value, charged, ready, paid⟩

theorem prepare_found {env : Env} (found : (jumpTable env).lookup (fr.contract.getOp fr.pc) = some operation) :
    prepare env fr = admitOperation env (fr.contract.getOp fr.pc) operation fr := by
  simp only [prepare, bind_apply, get_apply, Prog.bind_ret, found]

theorem prepare_gently (env : Env) : Gently true (prepare env) := by
  refine Gently.get.bind fun fr => ?_
  dsimp only
  split
  · exact .fail _
  · next operation found =>
      obtain ⟨cls, -, manner⟩ := lookup_classified env found
      exact admitOperation_gently env manner.priced

theorem prepare_overdrawn {env : Env} (prepared : prepare env fr = .panic .refundBelowZero) : Overdrawn env fr := by
  cases found : (jumpTable env).lookup (fr.contract.getOp fr.pc) with
  | none => simp [prepare, found] at prepared
  | some operation =>
    obtain ⟨cls, -, manner⟩ := lookup_classified env found
    rw [prepare_found found] at prepared
    exact manner.overdrawn prepared

end Prepare

structure Fit (fr : Frame) : Prop where
  height : fr.stack.length ≤ StackLimit
  memory : fr.memory.store.length ≤ memoryLimit
  gas : fr.contract.gas < 2 ^ 64

structure Works (env : Env) (fr fr' : Frame) : Prop where
  contract : fr'.contract =
    { fr.contract with gas := fr'.contract.gas, analysis := fr'.contract.analysis }
  gas : fr'.contract.gas ≤ fr.contract.gas
  evm : fr'.evm = { fr.evm with
    db := fr'.evm.db
    callGasTemp := fr'.evm.callGasTemp
    returnData := fr'.evm.returnData
    jumpdests := fr'.evm.jumpdests
    trace := { fr.evm.trace with accesses := fr'.evm.trace.accesses } }
  logged : Logged fr.evm.trace.accesses fr'.evm.trace.accesses
  resets : fr'.resets = fr.resets
  height : fr'.stack.length ≤ StackLimit
  memory : fr'.memory.store.length ≤ memoryLimit
  words : Valid fr.evm.db → fr.Funded → fr'.Nonneg
  db : ∃ writes, Allowed env fr writes ∧ (Valid fr.evm.db → Gentle writes fr.evm.db fr'.evm.db)

structure Perishes (env : Env) (fr : Frame) (beneficiary : Address) (fr' : Frame) : Prop where
  writes : Allowed env fr true
  contract : fr'.contract = { fr.contract with gas := fr'.contract.gas }
  gas : fr'.contract.gas ≤ fr.contract.gas
  evm : fr'.evm = { fr.evm with
    db := fr'.evm.db
    callGasTemp := fr'.evm.callGasTemp
    returnData := fr'.evm.returnData
    trace := { fr.evm.trace with suicides := fr'.evm.trace.suicides } }
  suicides : Valid fr.evm.db → fr'.evm.trace.suicides =
    ⟨fr.contract.self, beneficiary, fr.evm.db.balances fr.contract.self⟩ :: fr.evm.trace.suicides
  resets : fr'.resets = fr.resets
  evolves : Valid fr.evm.db → Evolves fr.evm.db fr'.evm.db
  balances : Valid fr.evm.db → fr'.evm.db.balances = Function.update
    (Function.update fr.evm.db.balances beneficiary
      (fr.evm.db.balances beneficiary + fr.evm.db.balances fr.contract.self)) fr.contract.self 0

structure Asks (env : Env) (fr : Frame) (parent : Contract) (inv : Invocation) : Prop where
  evm : inv.evm = { fr.evm with
    db := inv.evm.db
    callGasTemp := inv.evm.callGasTemp
    trace := { fr.evm.trace with accesses := inv.evm.trace.accesses } }
  logged : Logged fr.evm.trace.accesses inv.evm.trace.accesses
  caller : inv.caller = .contract parent
  keeps : parent = { fr.contract with gas := parent.gas }
  gas : parent.gas + inv.gas < fr.contract.gas
  price : inv.kind.creates = true → parent.gas + inv.gas + CreateGas ≤ fr.contract.gas
  nonneg : Valid fr.evm.db → fr.Funded → 0 ≤ inv.value
  db : ∃ writes, Allowed env fr writes ∧ (Valid fr.evm.db → Gentle writes fr.evm.db inv.evm.db)
  inert : Valid fr.evm.db → Inert false fr.evm.db inv.evm.db
  plain : pushSize (fr.contract.getOp fr.pc) = 0
  static : fr.evm.readOnly = true → env.isByzantium = true →
    inv.kind ≠ .create ∧ inv.kind ≠ .create2 ∧ (inv.kind = .call → inv.value = 0)

structure Continues (fr : Frame) (parent : Contract) (reply : Reply) (fr' : Frame) : Prop where
  contract : fr'.contract = { parent with gas := add64 parent.gas reply.leftOverGas }
  evm : fr'.evm = { reply.evm with
    returnData := fr'.evm.returnData
    trace := { reply.evm.trace with
      accesses := fr'.evm.trace.accesses
      wrapped := reply.evm.trace.wrapped || 2 ^ 64 ≤ parent.gas + reply.leftOverGas } }
  logged : Logged reply.evm.trace.accesses fr'.evm.trace.accesses
  resets : fr'.resets = fr.resets
  height : fr'.stack.length ≤ StackLimit
  memory : fr'.memory.store.length ≤ memoryLimit
  words : fr.Nonneg → fr'.Nonneg
  pc : fr'.pc = add64 fr.pc 1

section Iteration

variable {env : Env} {fr mid fr' : Frame} {op : OpCode} {operation : Operation} {cls : Class}

theorem Charged.funded {writes : Bool} (charged : Charged writes fr mid) (valid : Valid fr.evm.db) (funded : fr.Funded) :
    mid.Funded where
  words := by
    unfold Frame.Nonneg
    rw [charged.stack]
    exact funded.words
  value := by
    rw [charged.contract]
    exact funded.value
  balances := by
    rw [(charged.db valid).balances]
    exact funded.balances

theorem Refused.works {err : Err} (fit : Fit fr) (refused : Refused env fr err fr') : Works env fr fr' := by
  obtain ⟨⟨writes, allowed, charged⟩, -⟩ := refused
  exact {
    contract := by rw [charged.contract]
    gas := charged.gas
    evm := by rw [charged.evm]
    logged := by rw [charged.evm]; exact .refl _
    resets := charged.resets
    height := charged.stack ▸ fit.height
    memory := charged.memory fit.memory
    words := fun valid funded => (charged.funded valid funded).words
    db := ⟨writes, allowed, charged.db⟩ }

theorem Admitted.works {result : Except Err Bytes} (fit : Fit fr) (admitted : Admitted env op operation cls fr mid)
    (acts : Local operation.writes mid result fr') : Works env fr fr' := by
  have charged := admitted.charged
  have gas : fr'.contract.gas = mid.contract.gas := by rw [acts.contract]
  exact {
    contract := by rw [acts.contract, charged.contract]
    gas := gas ▸ charged.gas
    evm := by rw [acts.evm, charged.evm]
    logged := by
      have logged := acts.logged
      rw [charged.evm] at logged
      exact logged
    resets := acts.resets.trans charged.resets
    height := acts.height
    memory := acts.memory ▸ charged.memory fit.memory
    words := fun valid funded => acts.words (charged.funded valid funded)
    db := ⟨operation.writes, admitted.allowed, fun valid =>
      have gentle := charged.db valid
      gentle.trans (acts.db gentle.evolves.valid)⟩ }

theorem Works.advance (works : Works env fr fr') (returnData : Bytes) (pc : Nat) :
    Works env fr (fr'.advance returnData pc) where
  contract := works.contract
  gas := works.gas
  evm := by
    show { fr'.evm with returnData := returnData } = _
    rw [works.evm]
  logged := works.logged
  resets := works.resets
  height := works.height
  memory := works.memory
  words := works.words
  db := works.db

omit [Crypto] in
theorem finish_cases (operation : Operation) (result : Except Err Bytes) (fr : Frame) :
    ∃ returnData pc,
      (∃ err, result = .error err ∧ finish operation result fr = .inr ((fr.advance returnData pc).leave [] (some err))) ∨
      (∃ res, result = .ok res ∧ operation.reverts = true ∧
        finish operation result fr = .inr ((fr.advance returnData pc).leave res (some .executionReverted))) ∨
      (∃ res, result = .ok res ∧ operation.reverts = false ∧ operation.halts = true ∧
        finish operation result fr = .inr ((fr.advance returnData pc).leave res none)) ∨
      (∃ res, result = .ok res ∧ operation.reverts = false ∧ operation.halts = false ∧
        pc = (if operation.jumps = true then fr.pc else add64 fr.pc 1) ∧
        finish operation result fr = .inl (fr.advance returnData pc)) := by
  have shape : ∀ res, (if operation.returns = true then { fr with evm := { fr.evm with returnData := res } } else fr) =
      fr.advance (if operation.returns = true then res else fr.evm.returnData) fr.pc := by
    intro res
    split <;> rfl
  cases result with
  | error err => exact ⟨_, fr.pc, .inl ⟨err, rfl, by simp only [finish, shape]; rfl⟩⟩
  | ok res =>
    cases reverts : operation.reverts with
    | true => exact ⟨_, fr.pc, .inr (.inl ⟨res, rfl, rfl, by simp only [finish, shape, reverts, if_true]; rfl⟩)⟩
    | false =>
      cases halts : operation.halts with
      | true =>
        refine ⟨if operation.returns = true then res else fr.evm.returnData, fr.pc,
          .inr (.inr (.inl ⟨res, rfl, rfl, rfl, ?_⟩))⟩
        simp only [finish, shape, reverts, halts, if_true, Bool.false_eq_true, if_false]
      | false =>
        refine ⟨if operation.returns = true then res else fr.evm.returnData,
          if operation.jumps = true then fr.pc else add64 fr.pc 1, .inr (.inr (.inr ⟨res, rfl, rfl, rfl, rfl, ?_⟩))⟩
        simp only [finish, shape, reverts, halts, Bool.false_eq_true, if_false]
        split <;> rfl

theorem Admitted.perishes {beneficiary : Address} (admitted : Admitted env op operation .suicide fr mid)
    (destroys : Destroys mid beneficiary fr') (returnData : Bytes) (pc : Nat) :
    Perishes env fr beneficiary (fr'.advance returnData pc) := by
  have charged := admitted.charged
  have self : mid.contract.self = fr.contract.self := by rw [charged.contract]
  have writes : operation.writes = true := admitted.sound.flags.1
  exact {
    writes := writes ▸ admitted.allowed
    contract := by
      show fr'.contract = _
      rw [destroys.contract]
      exact charged.contract
    gas := by
      show fr'.contract.gas ≤ _
      rw [destroys.contract]
      exact charged.gas
    evm := by
      dsimp only
      rw [destroys.evm, charged.evm]
    suicides := fun valid => by
      show fr'.evm.trace.suicides = _
      rw [destroys.evm, (charged.db valid).balances, self, charged.evm]
    resets := destroys.resets.trans charged.resets
    evolves := fun valid =>
      have gentle := charged.db valid
      gentle.evolves.trans (destroys.evolves gentle.evolves.valid)
    balances := fun valid => by
      have gentle := charged.db valid
      show fr'.evm.db.balances = _
      rw [destroys.balances gentle.evolves.valid, gentle.balances, self] }

theorem Admitted.asks {kind : CallKind} {parent : Contract} {inv : Invocation}
    (admitted : Admitted env (fr.contract.getOp fr.pc) operation (.calls kind) fr mid)
    (prepared : prepare env fr = .ret (.ok operation, mid)) (same : inv.kind = kind)
    (descends : Descends fr.contract.gas mid parent inv) : Asks env fr parent inv := by
  have charged := admitted.charged
  obtain ⟨-, -, -, calls, creates⟩ := admitted.sound.flags
  have db : inv.evm.db = mid.evm.db := by rw [descends.evm]
  obtain ⟨plain, priced⟩ : pushSize (fr.contract.getOp fr.pc) = 0 ∧ Priced false operation := by
    cases admitted.manner with
    | calls _ plain priced => exact ⟨plain, priced⟩
  rw [prepare_found admitted.found] at prepared
  exact {
    evm := by rw [descends.evm, charged.evm]
    logged := by
      have logged := descends.logged
      rw [charged.evm] at logged
      exact logged
    caller := descends.caller
    keeps := by rw [descends.keeps, charged.contract]
    gas := descends.gas
    price := descends.price
    nonneg := fun valid funded => descends.nonneg (charged.funded valid funded)
    db := ⟨operation.writes, admitted.allowed, fun valid => db ▸ charged.db valid⟩
    inert := fun valid => db ▸ (priced.mild prepared).db valid
    plain := plain
    static := fun static byzantium => by
      have silent := admitted.allowed static byzantium
      refine ⟨fun create => ?_, fun create => ?_, fun called => ?_⟩
      · simp [creates (.inl (same.symm.trans create))] at silent
      · simp [creates (.inr (same.symm.trans create))] at silent
      · exact descends.value called (charged.stack ▸ admitted.value static byzantium (calls (same.symm.trans called))) }

theorem Resumes.continues {parent : Contract} {reply : Reply} (resumes : Resumes mid parent reply fr')
    {writes : Bool} (charged : Charged writes fr mid) (fit : Fit fr) (returnData : Bytes) :
    Continues fr parent reply (fr'.advance returnData (add64 fr'.pc 1)) where
  pc := by
    show add64 fr'.pc 1 = _
    rw [resumes.pc, charged.pc]
  contract := resumes.contract
  evm := by
    show { fr'.evm with returnData := returnData } = _
    rw [resumes.evm]
  logged := resumes.logged
  resets := resumes.resets.trans charged.resets
  height := resumes.height
  memory := resumes.memory ▸ charged.memory fit.memory
  words := fun nonneg => resumes.words (by unfold Frame.Nonneg; rw [charged.stack]; exact nonneg)

inductive Turn (env : Env) (fr : Frame) : Prog Invocation Reply Panic (Frame ⊕ RunRes) → Prop where
  | panics {fault : Panic} (known : fault = .sliceBounds ∨ fault = .refundBelowZero ∧ Overdrawn env fr) :
    Turn env fr (.panic fault)
  | works {fr' : Frame} (works : Works env fr fr') (moves : Moves env fr fr') (pays : fr'.contract.gas < fr.contract.gas) :
      Turn env fr (.ret (.inl fr'))
  | ends {fr' : Frame} {ret : Bytes} {err : Option Err} (works : Works env fr fr') (closes : Closes fr err fr')
      (short : ret.length ≤ memoryLimit) (known : ∀ e, err = some e → e.ofRun = true) :
      Turn env fr (.ret (.inr (fr'.leave ret err)))
  | destroys {beneficiary : Address} {fr' : Frame} (perishes : Perishes env fr beneficiary fr') (dies : Dies env fr fr') :
      Turn env fr (.ret (.inr (fr'.leave [] none)))
  | calls {parent : Contract} {inv : Invocation} {resume : Reply → Prog Invocation Reply Panic (Frame ⊕ RunRes)}
      (asks : Asks env fr parent inv)
      (continues : ∀ reply, ∃ fr', resume reply = .ret (.inl fr') ∧ Continues fr parent reply fr') :
      Turn env fr (.call inv resume)

theorem step_turn (env : Env) (fit : Fit fr) : Turn env fr (step env fr) := by
  unfold step
  rcases (prepare_sat env fit.memory).cases (fun _ => id) with ⟨⟨result, mid⟩, prepared, reached⟩ | ⟨fault, prepared, below⟩
  · rw [prepared, Prog.bind_ret]
    cases result with
    | error err =>
      have mild := prepare_gently env fr
      rw [prepared] at mild
      exact .ends (reached.works fit) (.refused mild err) (Nat.zero_le _) (by rintro _ ⟨⟩; exact reached.known)
    | ok operation =>
      obtain ⟨cls, admitted⟩ := reached
      have passed := (prepare_found admitted.found).symm.trans prepared
      have acts := admitted.sound.acts fr.contract.gas mid admitted.ready fit.gas admitted.paid
      dsimp only
      cases cls with
      | simple =>
        rcases Prog.Sat.cases acts (fun _ => id) with ⟨⟨result, fr'⟩, ran, done⟩ | ⟨fault, ran, slices⟩
        · have worked := admitted.works fit done
          have limit : ∀ res, result = .ok res → res.length ≤ memoryLimit :=
            fun res same => Nat.le_trans (done.ret res same) (admitted.charged.memory fit.memory)
          obtain ⟨returnData, pc, cases⟩ := finish_cases operation result fr'
          have advanced := worked.advance returnData pc
          simp only [ran, Prog.bind_ret]
          rcases cases with ⟨err, rfl, shape⟩ | ⟨res, rfl, reverts, shape⟩ | ⟨res, rfl, -, halts, shape⟩ |
            ⟨res, rfl, reverts, halts, rfl, shape⟩
          · have closes := admitted.manner.closes passed ran (.inr (.inr ⟨err, rfl⟩)) (some err) returnData pc
            exact shape ▸ .ends advanced closes (Nat.zero_le _) (by rintro _ ⟨⟩; exact done.err err rfl)
          · have closes := admitted.manner.closes passed ran (.inl reverts) (some .executionReverted) returnData pc
            exact shape ▸ .ends advanced closes (limit res rfl) (by rintro _ ⟨⟩; rfl)
          · have closes := admitted.manner.closes passed ran (.inr (.inl halts)) none returnData pc
            exact shape ▸ .ends advanced closes (limit res rfl) nofun
          · -- An entry that does not end the frame costs something.
            refine shape ▸ .works advanced (admitted.manner.moves passed ran returnData) ?_
            have paid := admitted.paid
            simp only [Class.least, Class.handed, reverts, halts, Bool.or_false, Bool.false_eq_true, if_false] at paid
            have kept : fr'.contract.gas = mid.contract.gas := by rw [done.contract]
            show fr'.contract.gas < _
            omega
        · rw [ran]
          exact .panics (.inl slices)
      | suicide =>
        obtain ⟨beneficiary, fr', result, destroyed⟩ := acts
        obtain ⟨-, halts, reverts⟩ := admitted.sound.flags
        obtain ⟨returnData, pc, cases⟩ := finish_cases operation (.ok []) fr'
        have perished := admitted.perishes destroyed returnData pc
        simp only [result, Prog.bind_ret]
        rcases cases with ⟨err, same, -⟩ | ⟨res, -, same, -⟩ | ⟨res, same, -, -, shape⟩ | ⟨res, -, -, same, -⟩
        · simp at same
        · simp [reverts] at same
        · obtain rfl := Except.ok.inj same
          exact shape ▸ .destroys perished (admitted.manner.dies passed result returnData pc)
        · simp [halts] at same
      | calls kind =>
        obtain ⟨parent, inv, resume, body, same, descends, resumes⟩ := acts
        obtain ⟨halts, reverts, jumps, -⟩ := admitted.sound.flags
        simp only [body, Prog.bind_call]
        refine .calls (admitted.asks prepared same descends) fun reply => ?_
        obtain ⟨res, fr', result, resumed⟩ := resumes reply
        obtain ⟨returnData, pc, cases⟩ := finish_cases operation (.ok res) fr'
        simp only [result, Prog.bind_ret]
        rcases cases with ⟨err, same, -⟩ | ⟨_, -, same, -⟩ | ⟨_, -, -, same, -⟩ | ⟨_, -, -, -, rfl, shape⟩
        · simp at same
        · simp [reverts] at same
        · simp [halts] at same
        · simp only [jumps, Bool.false_eq_true, if_false] at shape
          exact ⟨_, congrArg Prog.ret shape, resumed.continues admitted.charged fit returnData⟩
  · obtain rfl : fault = .refundBelowZero := below
    rw [prepared]
    exact .panics (.inr ⟨rfl, prepare_overdrawn prepared⟩)

theorem step_rule (fit : Fit fr) {spec : Spec Invocation Reply Panic} {good : Frame ⊕ RunRes → Prop}
    (safe : ∀ fault, fault = .sliceBounds ∨ fault = .refundBelowZero ∧ Overdrawn env fr → spec.safe fault)
    (works : ∀ fr', Works env fr fr' → Moves env fr fr' → fr'.contract.gas < fr.contract.gas → good (.inl fr'))
    (ends : ∀ fr' ret err, Works env fr fr' → Closes fr err fr' → ret.length ≤ memoryLimit →
      (∀ e, err = some e → e.ofRun = true) → good (.inr (fr'.leave ret err)))
    (destroys : ∀ beneficiary fr', Perishes env fr beneficiary fr' → Dies env fr fr' → good (.inr (fr'.leave [] none)))
    (calls : ∀ parent inv, Asks env fr parent inv → spec.pre inv ∧ ∀ reply, spec.post inv reply →
      ∀ fr', Continues fr parent reply fr' → good (.inl fr')) :
    (step env fr).Sat spec good := by
  generalize turned : step env fr = body
  cases turned ▸ step_turn env fit with
  | panics known => exact safe _ known
  | works worked moves pays => exact works _ worked moves pays
  | ends worked closes short known => exact ends _ _ _ worked closes short known
  | destroys perishes dies => exact destroys _ _ perishes dies
  | calls asks continues =>
    obtain ⟨pre, post⟩ := calls _ _ asks
    refine ⟨pre, fun reply answered => ?_⟩
    obtain ⟨fr', resumed, continued⟩ := continues reply
    rw [resumed]
    exact post reply answered fr' continued

theorem step_sat (fit : Fit fr) {spec : Spec Invocation Reply Panic} {good : Frame ⊕ RunRes → Prop}
    (safe : ∀ fault, fault = .sliceBounds ∨ fault = .refundBelowZero → spec.safe fault)
    (works : ∀ fr', Works env fr fr' → fr'.contract.gas < fr.contract.gas → good (.inl fr'))
    (ends : ∀ fr' ret err, Works env fr fr' → ret.length ≤ memoryLimit → (∀ e, err = some e → e.ofRun = true) →
      good (.inr (fr'.leave ret err)))
    (destroys : ∀ beneficiary fr', Perishes env fr beneficiary fr' → good (.inr (fr'.leave [] none)))
    (calls : ∀ parent inv, Asks env fr parent inv → spec.pre inv ∧ ∀ reply, spec.post inv reply →
      ∀ fr', Continues fr parent reply fr' → good (.inl fr')) :
    (step env fr).Sat spec good :=
  step_rule fit (fun fault known => safe fault (known.imp_right And.left)) (fun fr' worked _ pays => works fr' worked pays)
    (fun fr' ret err worked _ short known => ends fr' ret err worked short known)
    (fun beneficiary fr' perishes _ => destroys beneficiary fr' perishes) calls

theorem execute_height (env : Env) (fit : Fit fr) {spec : Spec Invocation Reply Panic}
    (safe : ∀ fault, fault = .sliceBounds ∨ fault = .refundBelowZero → spec.safe fault) (callable : ∀ inv, spec.pre inv) :
    ((prepare env >>= fun operation => operation.execute) fr).Sat spec fun p => p.2.stack.length ≤ StackLimit := by
  have prepared : (prepare env fr).Sat spec (Prepared env fr (fr.contract.getOp fr.pc)) :=
    (prepare_sat env fit.memory).weaken (fun _ no => no.elim) (fun _ _ no => no.elim)
      fun fault below => safe fault (.inr below)
  refine Exec.sat_bind prepared ?_ fun err mid refused => (refused.works fit).height
  rintro operation mid ⟨cls, admitted⟩
  have acts := admitted.sound.acts fr.contract.gas mid admitted.ready fit.gas admitted.paid
  cases cls with
  | simple =>
    have ran : (operation.execute mid).Sat spec fun p => Local operation.writes mid p.1 p.2 :=
      Prog.Sat.weaken acts (fun _ no => no.elim) (fun _ _ no => no.elim) fun fault below => safe fault (.inl below)
    exact ran.mono fun _ acted => acted.height
  | suicide =>
    obtain ⟨beneficiary, fr', result, destroyed⟩ := acts
    rw [result]
    exact destroyed.height
  | calls kind =>
    obtain ⟨parent, inv, resume, body, -, -, resumes⟩ := acts
    rw [body]
    refine ⟨callable inv, fun reply _ => ?_⟩
    obtain ⟨res, fr', result, resumed⟩ := resumes reply
    rw [result]
    exact resumed.height

end Iteration

end CuteEVM
