import CuteEVM.Proofs.Runs

set_option autoImplicit false

-- These are bounded in every execution, whatever the state is like.

namespace CuteEVM

open CallTree

variable [Crypto]

def Panic.tame : Panic → Bool
  | .stackIndex => false
  | .memoryStore => false
  | .memoryBounds => false
  | _ => true

structure Bounded (request : RunReq) (fr : Frame) : Prop where
  fit : Fit fr
  gas : fr.contract.gas ≤ request.contract.gas
  depth : fr.evm.depth = request.evm.depth + 1
  readOnly : fr.evm.readOnly = (request.evm.readOnly || request.readOnly)
  resets : fr.resets = (request.readOnly && !request.evm.readOnly)
  wrapped : fr.evm.trace.wrapped = request.evm.trace.wrapped
  logged : Logged request.evm.trace.accesses fr.evm.trace.accesses

structure Bounds (request : RunReq) (res : RunRes) : Prop where
  gas : res.contract.gas ≤ request.contract.gas
  depth : res.evm.depth = request.evm.depth
  readOnly : res.evm.readOnly = request.evm.readOnly
  wrapped : res.evm.trace.wrapped = request.evm.trace.wrapped
  logged : Logged request.evm.trace.accesses res.evm.trace.accesses
  ret : res.ret.length ≤ memoryLimit
  err : ∀ err, res.err = some err → err.ofRun = true

structure Conserves (inv : Invocation) (reply : Reply) : Prop where
  gas : reply.leftOverGas ≤ inv.gas
  depth : reply.evm.depth = inv.evm.depth
  readOnly : reply.evm.readOnly = inv.evm.readOnly
  wrapped : reply.evm.trace.wrapped = inv.evm.trace.wrapped
  logged : Logged inv.evm.trace.accesses reply.evm.trace.accesses

def boundedRuns : Spec RunReq RunRes Panic where
  pre := fun request => request.contract.gas < 2 ^ 64 ∧ request.evm.depth ≤ CallCreateDepth
  post := Bounds
  safe := fun fault => fault.tame = true

def boundedCalls : Spec Invocation Reply Panic where
  pre := fun inv => inv.gas < 2 ^ 64
  post := Conserves
  safe := fun fault => fault.tame = true

-- A call that the instruction at this frame makes: what is handed over and what is kept is less
-- than what there was.
structure Below (fr : Frame) (inv : Invocation) : Prop where
  gas : ∃ parent, inv.caller = .contract parent ∧ parent.gas + inv.gas < fr.contract.gas
  depth : inv.evm.depth = fr.evm.depth
  readOnly : inv.evm.readOnly = fr.evm.readOnly
  wrapped : inv.evm.trace.wrapped = fr.evm.trace.wrapped
  logged : Logged fr.evm.trace.accesses inv.evm.trace.accesses

section Frames

variable {env : Env} {request : RunReq} {fr fr' : Frame}

theorem Bounded.works (bounded : Bounded request fr) (works : Works env fr fr') : Bounded request fr' where
  fit := ⟨works.height, works.memory, Nat.lt_of_le_of_lt works.gas bounded.fit.gas⟩
  gas := Nat.le_trans works.gas bounded.gas
  depth := by rw [works.evm]; exact bounded.depth
  readOnly := by rw [works.evm]; exact bounded.readOnly
  resets := works.resets.trans bounded.resets
  wrapped := by rw [works.evm]; exact bounded.wrapped
  logged := bounded.logged.trans works.logged

omit [Crypto] in
theorem Bounded.leave (bounded : Bounded request fr) {ret : Bytes} {err : Option Err} (short : ret.length ≤ memoryLimit)
    (known : ∀ e, err = some e → e.ofRun = true) : Bounds request (fr.leave ret err) where
  gas := bounded.gas
  depth := by
    show fr.evm.depth - 1 = _
    rw [bounded.depth]
    rfl
  readOnly := by
    show (if fr.resets then false else fr.evm.readOnly) = _
    rw [bounded.resets, bounded.readOnly]
    cases request.readOnly <;> cases request.evm.readOnly <;> rfl
  wrapped := bounded.wrapped
  logged := bounded.logged
  ret := short
  err := known

theorem Bounded.perishes {beneficiary : Address} (bounded : Bounded request fr) (perishes : Perishes env fr beneficiary fr') :
    Bounds request (fr'.leave [] none) where
  gas := Nat.le_trans perishes.gas bounded.gas
  depth := by
    show fr'.evm.depth - 1 = _
    rw [perishes.evm, bounded.depth]
    rfl
  readOnly := by
    show (if fr'.resets then false else fr'.evm.readOnly) = _
    rw [perishes.resets, perishes.evm, bounded.resets, bounded.readOnly]
    cases request.readOnly <;> cases request.evm.readOnly <;> rfl
  wrapped := by
    show fr'.evm.trace.wrapped = _
    rw [perishes.evm]
    exact bounded.wrapped
  logged := by
    show Logged _ fr'.evm.trace.accesses
    rw [perishes.evm]
    exact bounded.logged
  ret := Nat.zero_le _
  err := nofun

theorem Asks.below {parent : Contract} {inv : Invocation} (asks : Asks env fr parent inv) : Below fr inv :=
  ⟨⟨parent, asks.caller, asks.gas⟩, by rw [asks.evm], by rw [asks.evm], by rw [asks.evm], asks.logged⟩

theorem Continues.gas {parent : Contract} {inv : Invocation} {reply : Reply} (continues : Continues fr parent reply fr')
    (asks : Asks env fr parent inv) (fit : Fit fr) (conserves : Conserves inv reply) :
    fr'.contract.gas < fr.contract.gas ∧ parent.gas + reply.leftOverGas < 2 ^ 64 := by
  have given := asks.gas
  have back := conserves.gas
  have small := fit.gas
  have total : parent.gas + reply.leftOverGas < 2 ^ 64 := by omega
  refine ⟨?_, total⟩
  rw [continues.contract]
  show add64 parent.gas reply.leftOverGas < _
  rw [add64_eq total]
  omega

theorem Bounded.continues {parent : Contract} {inv : Invocation} {reply : Reply} (bounded : Bounded request fr)
    (asks : Asks env fr parent inv) (conserves : Conserves inv reply) (continues : Continues fr parent reply fr') :
    Bounded request fr' := by
  obtain ⟨less, total⟩ := continues.gas asks bounded.fit conserves
  exact {
    fit := ⟨continues.height, continues.memory, Nat.lt_trans less bounded.fit.gas⟩
    gas := Nat.le_trans (Nat.le_of_lt less) bounded.gas
    depth := by
      rw [continues.evm]
      show reply.evm.depth = _
      rw [conserves.depth, asks.evm]
      exact bounded.depth
    readOnly := by
      rw [continues.evm]
      show reply.evm.readOnly = _
      rw [conserves.readOnly, asks.evm]
      exact bounded.readOnly
    resets := continues.resets.trans bounded.resets
    wrapped := by
      rw [continues.evm]
      show (reply.evm.trace.wrapped || decide (2 ^ 64 ≤ parent.gas + reply.leftOverGas)) = _
      rw [decide_eq_false (Nat.not_le.mpr total), Bool.or_false, conserves.wrapped, asks.evm]
      exact bounded.wrapped
    logged := bounded.logged.trans (asks.logged.trans (conserves.logged.trans continues.logged)) }

end Frames

section Faults

omit [Crypto]

theorem revert_tame {entry : JournalEntry} {s : StateDB} {fault : Panic} (failed : entry.undo s = .error fault) :
    fault.tame = true := by
  have modify : ∀ {a : Address} {change : StateObject → StateObject}, s.modifyObject a change = .error fault →
      fault.tame = true := by
    intro a change failed
    unfold StateDB.modifyObject at failed
    split at failed
    · cases failed
    · exact Except.error.inj failed ▸ rfl
  have reverted : entry.revert s = .error fault := by
    unfold JournalEntry.undo at failed
    split at failed
    · cases failed
    · next other reverted => exact Except.error.inj failed ▸ reverted
  cases entry with
  | balanceChange | nonceChange | storageChange | codeChange => exact modify reverted
  | suicideChange =>
    simp only [JournalEntry.revert] at reverted
    split at reverted <;> cases reverted
  | addLogChange =>
    simp only [JournalEntry.revert] at reverted
    split at reverted
    · exact Except.error.inj reverted ▸ rfl
    · cases reverted
  | _ => cases reverted

theorem revertToSnapshot_tame {s : StateDB} {id : Nat} {fault : Panic} (failed : s.revertToSnapshot id = .error fault) :
    fault.tame = true := by
  unfold StateDB.revertToSnapshot at failed
  dsimp only at failed
  split at failed
  · exact Except.error.inj failed ▸ rfl
  · split at failed
    · exact Except.error.inj failed ▸ rfl
    · split at failed
      · cases failed
      · next other rewound =>
        obtain rfl := Except.error.inj failed
        unfold StateDB.revertJournal at rewound
        split at rewound
        · cases rewound
        · next fault stuck =>
          obtain rfl := Except.error.inj rewound
          obtain ⟨entry, t, undone⟩ := UndoLog.rewind_error stuck
          exact revert_tame undone

end Faults

section Entries

variable {env : Env} {inv : Invocation} {request : RunReq} {before : StateDB} {res : RunRes}

structure Ended (inv : Invocation) (res : RunRes) : Prop where
  gas : res.contract.gas ≤ inv.gas
  depth : res.evm.depth = inv.evm.depth
  readOnly : res.evm.readOnly = inv.evm.readOnly
  wrapped : res.evm.trace.wrapped = inv.evm.trace.wrapped
  logged : Logged inv.evm.trace.accesses res.evm.trace.accesses
  err : ∀ err, res.err = some err → err.ofRun = true
  ret : inv.kind.creates = true → res.ret.length ≤ memoryLimit

theorem Opens.native (opens : Opens inv before request) (native : Native request res) : Ended inv res where
  gas := opens.gas ▸ native.gas
  depth := by rw [native.evm, opens.evm]
  readOnly := by rw [native.evm, opens.evm]
  wrapped := by rw [native.evm, opens.evm]
  logged := by
    rw [native.evm, opens.evm]
    exact .refl _
  err := native.err
  ret := fun creates => native.ret (opens.input creates)

theorem Opens.ended (opens : Opens inv before request) (bounds : Bounds request res) : Ended inv res where
  gas := opens.gas ▸ bounds.gas
  depth := by rw [bounds.depth, opens.evm]
  readOnly := by rw [bounds.readOnly, opens.evm]
  wrapped := by rw [bounds.wrapped, opens.evm]
  logged := by
    have logged := bounds.logged
    rw [opens.evm] at logged
    exact logged
  err := bounds.err
  ret := fun _ => bounds.ret

omit [Crypto] in
theorem Ended.conserves (ended : Ended inv res) {reply : Reply} (evm : reply.evm = { res.evm with
      db := reply.evm.db, trace := { res.evm.trace with suicides := reply.evm.trace.suicides } })
    (gas : reply.leftOverGas ≤ res.contract.gas) : Conserves inv reply where
  gas := Nat.le_trans gas ended.gas
  depth := by rw [evm]; exact ended.depth
  readOnly := by rw [evm]; exact ended.readOnly
  wrapped := by rw [evm]; exact ended.wrapped
  logged := by rw [evm]; exact ended.logged

omit [Crypto] in
theorem settle_conserves (ended : Ended inv res) (snapshot : Nat) (suicides : List Destroyed)
    {spec : Spec RunReq RunRes Panic} (safe : ∀ fault, fault.tame = true → spec.safe fault) :
    (settle snapshot suicides res).Sat spec (Conserves inv) := by
  refine settle_sat (fun _ => ?_) (fun err db _ _ => ?_) fun fault failed => safe fault (revertToSnapshot_tame failed)
  · exact ended.conserves rfl (Nat.le_refl _)
  · refine ended.conserves rfl ?_
    dsimp only
    split
    · exact Nat.le_refl _
    · exact Nat.zero_le _

theorem settleCreate_conserves (ended : Ended inv res) (address : Address) (snapshot : Nat) (suicides : List Destroyed)
    {spec : Spec RunReq RunRes Panic} (safe : ∀ fault, fault.tame = true → spec.safe fault) :
    (settleCreate env address snapshot suicides res).Sat spec (Conserves inv) := by
  refine settleCreate_sat ended.err (fun _ _ _ => ?_) (fun _ _ => ?_) (fun err db _ _ => ?_)
    fun fault failed => safe fault (revertToSnapshot_tame failed)
  · exact ended.conserves rfl (Nat.sub_le _ _)
  · exact ended.conserves rfl (Nat.le_refl _)
  · refine ended.conserves rfl ?_
    dsimp only
    split
    · exact Nat.le_refl _
    · exact Nat.zero_le _

structure Serves (inv : Invocation) (request : RunReq) : Prop where
  gas : request.contract.gas = inv.gas
  depth : request.evm.depth = inv.evm.depth
  readOnly : request.evm.readOnly = inv.evm.readOnly
  trace : request.evm.trace = inv.evm.trace

theorem bounded_entry (env : Env) (small : inv.gas < 2 ^ 64) :
    (entry env inv).Sat { boundedRuns with pre := fun request => boundedRuns.pre request ∧ Serves inv request }
      (Conserves inv) := by
  have serves : ∀ {before request}, Opens inv before request → boundedRuns.pre request ∧ Serves inv request := by
    intro before request opens
    have depth : request.evm.depth = inv.evm.depth := by rw [opens.evm]
    exact ⟨⟨opens.gas ▸ small, depth ▸ opens.shallow⟩, opens.gas, depth, by rw [opens.evm], by rw [opens.evm]⟩
  refine entry_sat rfl (fun reply declines => ?_) (fun reply collides => ?_) (fun before address request _ opens _ _ => ?_)
    (fun before request _ opens => ?_) fun before address request _ opens _ => ?_
  · exact ⟨Nat.le_of_eq declines.gas, by rw [declines.evm], by rw [declines.evm], by rw [declines.evm],
      by rw [declines.evm]; exact .refl _⟩
  · exact ⟨collides.gas ▸ Nat.zero_le _, by rw [collides.evm], by rw [collides.evm], by rw [collides.evm],
      by rw [collides.evm]; exact .refl _⟩
  · exact ⟨Nat.le_refl _, (serves opens).2.depth, (serves opens).2.readOnly, congrArg (·.trace.wrapped) opens.evm,
      (congrArg (·.trace.accesses) opens.evm) ▸ .refl _⟩
  · refine run_sat rfl (fun res _ native => ?_) fun _ => ⟨serves opens, fun res bounds => ?_⟩
    · exact settle_conserves (opens.native native) _ _ fun _ tame => tame
    · exact settle_conserves (opens.ended bounds) _ _ fun _ tame => tame
  · refine run_sat rfl (fun res _ native => ?_) fun _ => ⟨serves opens, fun res bounds => ?_⟩
    · exact settleCreate_conserves (opens.native native) _ _ _ fun _ tame => tame
    · exact settleCreate_conserves (opens.ended bounds) _ _ _ fun _ tame => tame

theorem bounded_step (env : Env) {fr : Frame} (bounded : Bounded request fr) :
    (step env fr).Sat { boundedCalls with pre := fun inv => boundedCalls.pre inv ∧ Below fr inv }
      (Sum.elim (fun next => Bounded request next ∧ next.contract.gas < fr.contract.gas)
        fun res => Bounds request res ∧ res.contract.gas ≤ fr.contract.gas) := by
  refine step_sat bounded.fit ?_ (fun fr' works less => ?_) (fun fr' ret err works short known => ?_)
    (fun beneficiary fr' perishes => ?_) fun parent inv asks => ⟨?_, fun reply conserves fr' continues => ?_⟩
  · rintro _ (rfl | rfl) <;> rfl
  · exact ⟨bounded.works works, less⟩
  · exact ⟨(bounded.works works).leave short known, works.gas⟩
  · exact ⟨bounded.perishes perishes, perishes.gas⟩
  · have given := asks.gas
    have small := bounded.fit.gas
    exact ⟨show inv.gas < 2 ^ 64 by omega, asks.below⟩
  · exact ⟨bounded.continues asks conserves continues, (continues.gas asks bounded.fit conserves).1⟩

omit [Crypto] in
theorem bounded_start (small : boundedRuns.pre request) :
    Sum.elim (Bounded request) (Bounds request) (start request) := by
  have opened : ∀ contract : Contract, contract.gas = request.contract.gas → Bounded request {
      evm := { request.evm with
        depth := request.evm.depth + 1
        readOnly := request.evm.readOnly || (request.readOnly && !request.evm.readOnly)
        returnData := [] }
      contract := contract
      resets := request.readOnly && !request.evm.readOnly } := by
    intro contract gas
    refine ⟨⟨Nat.zero_le _, Nat.zero_le _, gas ▸ small.1⟩, Nat.le_of_eq gas, rfl, ?_, rfl, rfl, .refl _⟩
    cases request.readOnly <;> cases request.evm.readOnly <;> rfl
  unfold start
  dsimp only
  split
  · exact (opened request.contract rfl).leave (Nat.zero_le _) nofun
  · exact opened { request.contract with input := request.input } rfl

theorem bounded_upholds (env : Env) : Upholds env boundedCalls boundedRuns Bounded where
  start := fun _ => bounded_start
  step := fun request fr bounded => by
    refine ((bounded_step env bounded).weaken (fun _ pre => pre.1) (fun _ _ _ post => post) fun _ safe => safe).mono ?_
    rintro (next | res) good
    · exact good.1
    · exact good.1
  entry := fun inv small =>
    (bounded_entry env small).weaken (fun _ pre => pre.1) (fun _ _ _ post => post) fun _ safe => safe
  safe := fun _ safe => safe

end Entries

structure Inner (fr : Frame) (called : RunReq) : Prop where
  gas : called.contract.gas < fr.contract.gas
  depth : called.evm.depth = fr.evm.depth
  readOnly : called.evm.readOnly = fr.evm.readOnly

theorem bounded_iteration (env : Env) {request : RunReq} {fr : Frame} (bounded : Bounded request fr) :
    ((machine env).step fr).Sat { boundedRuns with pre := fun called => boundedRuns.pre called ∧ Inner fr called }
      (Sum.elim (fun next => Bounded request next ∧ next.contract.gas < fr.contract.gas)
        fun res => Bounds request res ∧ res.contract.gas ≤ fr.contract.gas) := by
  refine (bounded_step env bounded).inline ?_ fun _ safe => safe
  rintro inv ⟨small, below⟩
  refine (bounded_entry env small).weaken ?_ (fun _ _ _ post => post) fun _ safe => safe
  rintro called ⟨required, serves⟩
  obtain ⟨parent, -, less⟩ := below.gas
  have given := serves.gas
  exact ⟨required, by omega, serves.depth.trans below.depth, serves.readOnly.trans below.readOnly⟩

theorem gas_decreasing (env : Env) : (machine env).Decreasing boundedRuns Bounded
    (fun fr => fr.contract.gas) fun request => request.contract.gas where
  start := by
    intro request small fr started
    have bounded := bounded_start small
    rw [show start request = .inl fr from started] at bounded
    exact bounded.gas
  step := by
    intro request fr bounded
    have stepped : ((machine env).step fr).Sat { boundedRuns with
        pre := fun called => boundedRuns.pre called ∧ called.contract.gas < fr.contract.gas } _ :=
      (bounded_iteration env bounded).weaken (fun _ pre => ⟨pre.1, pre.2.gas⟩) (fun _ _ _ post => post) fun _ safe => safe
    refine stepped.mono ?_
    rintro (next | res) good
    · exact good.2
    · trivial

structure Clear (evm : EVM) : Prop where
  wrapped : evm.trace.wrapped = false
  accesses : ∀ access ∈ evm.trace.accesses, access.InRange

omit [Crypto] in
theorem Clear.later {evm evm' : EVM} (clear : Clear evm) (wrapped : evm'.trace.wrapped = evm.trace.wrapped)
    (logged : Logged evm.trace.accesses evm'.trace.accesses) : Clear evm' where
  wrapped := wrapped.trans clear.wrapped
  accesses := by
    intro access member
    rcases logged access member with older | fits
    · exact clear.accesses access older
    · exact fits

def clearRuns : Spec RunReq RunRes Panic where
  pre := fun request => boundedRuns.pre request ∧ Clear request.evm
  post := Bounds
  safe := boundedRuns.safe

def clearCalls : Spec Invocation Reply Panic where
  pre := fun inv => boundedCalls.pre inv ∧ Clear inv.evm
  post := Conserves
  safe := boundedCalls.safe

theorem clear_upholds (env : Env) :
    Upholds env clearCalls clearRuns fun request fr => Bounded request fr ∧ Clear request.evm where
  start := by
    rintro request ⟨small, clear⟩
    have started := bounded_start small
    cases result : start request with
    | inl fr =>
      rw [result] at started
      exact ⟨started, clear⟩
    | inr res =>
      rw [result] at started
      exact started
  step := by
    rintro request fr ⟨bounded, clear⟩
    have now := clear.later bounded.wrapped bounded.logged
    have stepped : (step env fr).Sat clearCalls _ := (bounded_step env bounded).weaken
      (fun _ pre => ⟨pre.1, now.later pre.2.wrapped pre.2.logged⟩) (fun _ _ _ post => post) fun _ safe => safe
    refine stepped.mono ?_
    rintro (next | res) good
    · exact ⟨good.1, clear⟩
    · exact good.1
  entry := by
    rintro inv ⟨small, clear⟩
    refine (bounded_entry env small).weaken ?_ (fun _ _ _ post => post) fun _ safe => safe
    rintro request ⟨required, serves⟩
    exact ⟨required, clear.later (by rw [serves.trace]) (by rw [serves.trace]; exact .refl _)⟩
  safe := fun _ safe => safe

theorem running_step {env : Env} {inv : Invocation} (small : inv.gas < 2 ^ 64) (clear : Clear inv.evm) {request : RunReq}
    {fr : Frame} {outer : List (RunReq × Frame)} (running : Running env inv ((request, fr) :: outer)) :
    (step env fr).Sat { clearCalls with pre := fun callee => clearCalls.pre callee ∧ Below fr callee }
      (Sum.elim (fun next => next.contract.gas < fr.contract.gas ∧ Fit next ∧ Clear next.evm)
        fun res => res.contract.gas ≤ fr.contract.gas ∧ Clear res.evm) := by
  obtain ⟨-, bounded, opened⟩ := (clear_upholds env).running ⟨small, clear⟩ running _ List.mem_cons_self
  have now := opened.later bounded.wrapped bounded.logged
  have stepped : (step env fr).Sat { clearCalls with pre := fun callee => clearCalls.pre callee ∧ Below fr callee } _ :=
    (bounded_step env bounded).weaken (fun _ pre => ⟨⟨pre.1, now.later pre.2.wrapped pre.2.logged⟩, pre.2⟩)
      (fun _ _ _ post => post) fun _ safe => safe
  refine stepped.mono ?_
  rintro (next | res) good
  · exact ⟨good.2, good.1.fit, opened.later good.1.wrapped good.1.logged⟩
  · exact ⟨good.2, opened.later good.1.wrapped good.1.logged⟩

theorem answers_below (env : Env) (fr : Frame) (callee : Invocation) (reply : Reply)
    (pre : clearCalls.pre callee ∧ Below fr callee) (answered : Answers env callee reply) : Conserves callee reply :=
  (clear_upholds env).answers pre.1 answered

end CuteEVM
