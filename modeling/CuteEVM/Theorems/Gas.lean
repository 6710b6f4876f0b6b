import CuteEVM.Proofs.Bounded

set_option autoImplicit false

-- No call returns more gas than it was given, and the gas that it was given bounds how long it runs.

namespace CuteEVM

open CallTree

-- Witnesses are evaluated with this instance. The theorems are about any.
attribute [local instance] Crypto.sample

variable {env : Env} {inv : Invocation}

def sampleEnv : Env where
  chainConfig := ⟨some 0, some 0, some 0, some 0, some 0, some 0⟩

def returnFive : Bytes := [0x60, 5, 0x60, 0, 0x52, 0x60, 0x20, 0x60, 0, 0xf3]

def sampleState (code : Bytes) : StateDB :=
  ((StateDB.new (fun _ => none) (fun _ => none)).addBalance 1 100).setCode 0x100 code

def sampleCall (kind : CallKind) (code : Bytes) : Invocation where
  kind := kind
  evm := { db := sampleState code }
  caller := .accountRef 1
  addr := 0x100
  gas := 1000
  value := 7

def replyOf : Outcome Panic Reply → Option Reply
  | .ret reply => some reply
  | _ => none

theorem replyOf_any {outcome : Outcome Panic Reply} {p : Reply → Bool} (evaluated : (replyOf outcome).any p = true) :
    ∃ reply, outcome = .ret reply ∧ p reply = true := by
  cases outcome with
  | ret reply => exact ⟨reply, rfl, evaluated⟩
  | panic fault => cases evaluated
  | outOfFuel => cases evaluated

theorem sampleCall_returns : ∃ reply, invoke sampleEnv 10 (sampleCall .call returnFive) = .ret reply ∧
    (reply.leftOverGas == 982) = true :=
  replyOf_any (by decide +kernel)

theorem sampleCall_clear (kind : CallKind) (code : Bytes) : Clear (sampleCall kind code).evm := ⟨rfl, nofun⟩

def firstRun : Prog RunReq RunRes Panic Reply → Option RunReq
  | .call request _ => some request
  | _ => none

theorem firstRun_running {p : RunReq → Frame → Bool}
    (evaluated : ((firstRun (entry env inv)).any fun request => (start request).elim (p request) fun _ => false) = true) :
    ∃ request fr, Running env inv [(request, fr)] ∧ p request fr = true := by
  cases body : entry env inv with
  | ret reply => simp [body, firstRun] at evaluated
  | panic fault => simp [body, firstRun] at evaluated
  | call request resume =>
    rw [body] at evaluated
    cases started : start request with
    | inr res => simp [firstRun, started] at evaluated
    | inl fr =>
      have holds : p request fr = true := by simpa [firstRun, started] using evaluated
      exact ⟨request, fr, ⟨request, by rw [body]; exact .inl rfl, .root started⟩, holds⟩

section Single

variable [Crypto] {answers : RunReq → RunRes → Prop} {root : RunReq}

omit [Crypto] in
theorem settle_mute (snapshot : Nat) (suicides : List Destroyed) (res : RunRes) :
    ¬ (settle snapshot suicides res).Makes answers root := by
  unfold settle
  split
  · exact id
  · split <;> exact id

theorem settleCreate_mute (env : Env) (address : Address) (snapshot : Nat) (suicides : List Destroyed) (res : RunRes) :
    ¬ (settleCreate env address snapshot suicides res).Makes answers root := by
  unfold settleCreate
  dsimp only
  split
  · split <;> exact id
  · exact id

theorem run_single {request : RunReq} {next : RunRes → Prog RunReq RunRes Panic Reply}
    (mute : ∀ res, ¬ (next res).Makes answers root) (makes : ((run env request).bind next).Makes answers root) :
    firstRun ((run env request).bind next) = some root := by
  unfold run at makes ⊢
  split at makes
  · rcases makes with rfl | ⟨res, -, later⟩
    · rfl
    · exact absurd later (mute res)
  · split at makes
    · exact makes.elim
    · exact absurd makes (mute _)
    · exact absurd makes (mute _)

theorem entry_single (makes : (entry env inv).Makes answers root) :
    firstRun (entry env inv) = some root := by
  have entered : ∀ body, Enters env inv body → body.Makes answers root → firstRun body = some root := by
    rintro body (⟨reply, rfl, -⟩ | rfl | ⟨before, request, rfl, -⟩) makes
    · exact makes.elim
    · exact makes.elim
    · exact run_single (settle_mute _ _) makes
  have created : ∀ body, Creates env inv body → body.Makes answers root → firstRun body = some root := by
    rintro body (⟨reply, rfl, -⟩ | ⟨before, address, request, -, -, ⟨-, rfl⟩ | rfl⟩) makes
    · exact makes.elim
    · exact makes.elim
    · exact run_single (settleCreate_mute _ _ _ _) makes
  unfold entry at makes ⊢
  cases kind : inv.kind with
  | call => simp only [kind] at makes ⊢; exact entered _ (call_enters kind) makes
  | callCode => simp only [kind] at makes ⊢; exact entered _ (callCode_enters kind) makes
  | delegateCall => simp only [kind] at makes ⊢; exact entered _ (delegateCall_enters kind) makes
  | staticCall => simp only [kind] at makes ⊢; exact entered _ (staticCall_enters kind) makes
  | create => simp only [kind] at makes ⊢; exact created _ (create_creates kind) makes
  | create2 => simp only [kind] at makes ⊢; exact created _ (create2_creates kind) makes

theorem running_lone {p : Frame → Bool} (fuel : Nat)
    (evaluated : ((firstRun (entry env inv)).all fun request =>
      (start request).elim ((machine env).lone p fuel) fun _ => true) = true) {frames : List (RunReq × Frame)}
    (running : Running env inv frames) : ∃ request fr, frames = [(request, fr)] ∧ p fr = true := by
  obtain ⟨request, made, active⟩ := running
  rw [entry_single made] at evaluated
  cases started : start request with
  | inl first =>
    rw [Option.all_some, started] at evaluated
    obtain ⟨fr, same, holds⟩ := active.lone started evaluated
    exact ⟨request, fr, same, holds⟩
  | inr res =>
    -- Without a first frame there are no frames at all.
    have none : ∀ {stack}, (machine env).Active request stack → False := by
      intro stack active
      induction active with
      | root began => cases began.symm.trans started
      | next _ _ ih => exact ih
      | call _ _ _ ih => exact ih
    exact (none active).elim

end Single

section Conservation

variable [Crypto]

omit [Crypto] in
theorem useGas_exact {contract : Contract} {cost : Nat} (paid : (contract.useGas cost).1 = true) :
    (contract.useGas cost).2.gas + cost = contract.gas := by
  unfold Contract.useGas at paid ⊢
  split at paid
  · cases paid
  · next enough =>
    simp only [enough, if_false]
    omega

theorem gas_never_minted (env : Env) (inv : Invocation) (small : inv.gas < 2 ^ 64) (clear : Clear inv.evm) :
    (∀ request fr outer, Running env inv ((request, fr) :: outer) →
      (∀ next, (step env fr).Yields (Answers env) (.inl next) →
        next.contract.gas ≤ fr.contract.gas ∧ next.evm.trace.wrapped = false) ∧
      (∀ res, (step env fr).Yields (Answers env) (.inr res) →
        res.contract.gas ≤ fr.contract.gas ∧ res.evm.trace.wrapped = false) ∧
      ∀ callee, (step env fr).Makes (Answers env) callee → callee.evm.trace.wrapped = false ∧
        ∃ parent, callee.caller = .contract parent ∧ parent.gas + callee.gas ≤ fr.contract.gas) ∧
    (∀ (contract : Contract) cost, (contract.useGas cost).1 = true →
      (contract.useGas cost).2.gas + cost = contract.gas) ∧
    ∀ callee, Invoked env inv callee → ∀ reply, Answers env callee reply →
      reply.leftOverGas ≤ callee.gas ∧ reply.evm.trace.wrapped = false := by
  refine ⟨fun request fr outer running => ?_, fun contract cost => useGas_exact, fun callee invoked reply answered => ?_⟩
  · have stepped := running_step small clear running
    have sound := answers_below env fr
    refine ⟨fun next yields => ?_, fun res yields => ?_, fun callee makes => ?_⟩
    · obtain ⟨less, -, now⟩ := stepped.yields sound yields
      exact ⟨Nat.le_of_lt less, now.wrapped⟩
    · obtain ⟨le, now⟩ := stepped.yields sound yields
      exact ⟨le, now.wrapped⟩
    · obtain ⟨⟨-, now⟩, below⟩ := stepped.makes sound makes
      obtain ⟨parent, caller, less⟩ := below.gas
      exact ⟨now.wrapped, parent, caller, Nat.le_of_lt less⟩
  · have pre := (clear_upholds env).invoked ⟨small, clear⟩ invoked
    have conserves := (clear_upholds env).answers pre answered
    exact ⟨conserves.gas, conserves.wrapped.trans pre.2.wrapped⟩

end Conservation

theorem gas_never_minted_sample :
    (∃ reply, Answers sampleEnv (sampleCall .call returnFive) reply ∧ reply.leftOverGas = 982) ∧
      ∀ reply, Answers sampleEnv (sampleCall .call returnFive) reply →
        reply.leftOverGas ≤ 1000 ∧ reply.evm.trace.wrapped = false := by
  refine ⟨?_, ?_⟩
  · obtain ⟨reply, returned, gas⟩ := sampleCall_returns
    exact ⟨reply, ⟨10, returned⟩, eq_of_beq gas⟩
  · exact (gas_never_minted sampleEnv (sampleCall .call returnFive) (by decide) (sampleCall_clear .call returnFive)).2.2
      (sampleCall .call returnFive) .root

section Termination

variable [Crypto]

theorem invoke_eq_of_le {fuel more : Nat} (le : fuel ≤ more)
    (finished : invoke env fuel inv ≠ .outOfFuel) : invoke env more inv = invoke env fuel inv :=
  Prog.handle_eq_of_agree (fun request done => Machine.run_eq_of_le le request done) finished

theorem invoke_ends (env : Env) (small : inv.gas < 2 ^ 64) :
    ∃ outcome, (outcome : Outcome Panic Reply).Sat (fun fault => fault.tame = true) False (Conserves inv) ∧
      ∀ fuel, inv.gas < fuel → invoke env fuel inv = outcome := by
  have total : ∀ fuel, inv.gas < fuel →
      (invoke env fuel inv).Sat (fun fault => fault.tame = true) False (Conserves inv) := by
    intro fuel enough
    refine (bounded_entry env small).handle ?_
    rintro request ⟨required, serves⟩
    exact (gas_decreasing env).run_total (bounded_upholds env).invariant fuel request required (serves.gas ▸ enough)
  refine ⟨invoke env (inv.gas + 1) inv, total _ (Nat.lt_succ_self _), fun fuel enough => invoke_eq_of_le enough ?_⟩
  intro stuck
  have ended := total _ (Nat.lt_succ_self inv.gas)
  rw [stuck] at ended
  exact ended

theorem gas_bounds_execution (env : Env) (inv : Invocation) (small : inv.gas < 2 ^ 64) :
    (∀ request fr outer, Running env inv ((request, fr) :: outer) →
      fr.contract.gas ≤ request.contract.gas ∧
      (∀ next, ((machine env).step fr).Yields (machine env).Returns (.inl next) →
        next.contract.gas < fr.contract.gas) ∧
      ∀ called, ((machine env).step fr).Makes (machine env).Returns called →
        called.contract.gas < fr.contract.gas) ∧
    ((∃ reply, ∀ fuel, inv.gas < fuel → invoke env fuel inv = .ret reply) ∨
      ∃ fault, fault.tame = true ∧ ∀ fuel, inv.gas < fuel → invoke env fuel inv = .panic fault) := by
  refine ⟨fun request fr outer running => ?_, ?_⟩
  · have bounded := ((bounded_upholds env).running small running _ List.mem_cons_self).2
    have stepped := bounded_iteration env bounded
    have sound : ∀ called res, boundedRuns.pre called ∧ Inner fr called → (machine env).Returns called res → Bounds called res :=
      fun called res pre => (bounded_upholds env).returns called res pre.1
    exact ⟨bounded.gas, fun next yields => (stepped.yields sound yields).2,
      fun called makes => (stepped.makes sound makes).2.gas⟩
  · obtain ⟨outcome, ended, same⟩ := invoke_ends env small
    cases outcome with
    | ret reply => exact .inl ⟨reply, same⟩
    | panic fault => exact .inr ⟨fault, ended, same⟩
    | outOfFuel => exact ended.elim

end Termination

theorem gas_bounds_execution_sample :
    ∃ reply, ∀ fuel, 1000 < fuel → invoke sampleEnv fuel (sampleCall .call returnFive) = .ret reply := by
  obtain ⟨reply, returned, -⟩ := sampleCall_returns
  rcases (gas_bounds_execution sampleEnv (sampleCall .call returnFive) (by decide)).2 with returns | ⟨fault, -, panics⟩
  · exact returns
  · have panicked := panics 1001 (by decide)
    rw [invoke_eq_of_le (by decide : 10 ≤ 1001) (by rw [returned]; nofun), returned] at panicked
    cases panicked

-- The precompiled modular power, with an exponent of a length that the gas pays for and the 64 bits of an offset do not hold.
def wrappingCall : Invocation where
  kind := .call
  evm := { db := sampleState [] }
  caller := .accountRef 1
  addr := 5
  input := bigEndian 32 1 ++ bigEndian 32 (2 ^ 64 - 1) ++ bigEndian 32 1 ++ [2]
  gas := maxUint64
  value := 0

def faultOf : Outcome Panic Reply → Option Panic
  | .panic fault => some fault
  | _ => none

theorem eq_panic {outcome : Outcome Panic Reply} {fault : Panic} (evaluated : faultOf outcome = some fault) :
    outcome = .panic fault := by
  cases outcome with
  | panic found => exact congrArg Outcome.panic (Option.some.inj evaluated)
  | ret _ | outOfFuel => cases evaluated

theorem execution_panics : invoke sampleEnv (wrappingCall.gas + 1) wrappingCall = .panic .sliceBounds := by
  have panics : invoke sampleEnv 10 wrappingCall = .panic .sliceBounds := eq_panic (by decide +kernel)
  have enough : 10 ≤ wrappingCall.gas + 1 := show 10 ≤ 2 ^ 64 - 1 + 1 by norm_num
  rw [invoke_eq_of_le enough (by rw [panics]; nofun), panics]

end CuteEVM
