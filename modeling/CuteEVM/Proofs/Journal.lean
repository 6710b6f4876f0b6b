import CuteEVM.Proofs.Bounded

set_option autoImplicit false

-- Every entry point goes back to a snapshot that it took itself and that nothing in between dropped.

namespace CuteEVM

open CallTree

variable [Crypto]

def Panic.orderly : Panic → Bool
  | .sliceBounds => true
  | .refundBelowZero => true
  | .notAContract => true
  | _ => false

structure Ran (env : Env) (spec : Spec RunReq RunRes Panic) (request : RunReq) (res : RunRes) : Prop where
  how : Native request res ∨ spec.post request res
  yields : (run env request).Yields spec.post res

structure Journaled (spec : Spec RunReq RunRes Panic) : Prop where
  evolves : ∀ request res, spec.post request res → Evolves request.evm.db res.evm.db
  err : ∀ request res, spec.post request res → ∀ err, res.err = some err → err.ofRun = true
  slices : spec.safe .sliceBounds

section Entry

variable {env : Env} {inv : Invocation} {before : StateDB} {request : RunReq} {res : RunRes}
  {spec : Spec RunReq RunRes Panic} {good : Reply → Prop}

theorem Opens.since (opens : Opens inv before request) (journaled : Journaled spec) (valid : Valid inv.evm.db)
    (ran : Ran env spec request res) : Evolves before.snapshot.2 res.evm.db := by
  have opened := opens.evolves valid
  rcases ran.how with native | interpreted
  · rw [native.evm]
    exact opened
  · exact opened.trans (journaled.evolves request res interpreted)

theorem Opens.opened (opens : Opens inv before request) (valid : Valid inv.evm.db) :
    Evolves inv.evm.db request.evm.db := by
  have prior := (opens.prior valid).1
  exact prior.trans ((snapshot_evolves prior.valid).trans (opens.evolves valid))

theorem Opens.done (opens : Opens inv before request) (journaled : Journaled spec) (valid : Valid inv.evm.db)
    (ran : Ran env spec request res) : Evolves inv.evm.db res.evm.db := by
  have prior := (opens.prior valid).1
  exact prior.trans ((snapshot_evolves prior.valid).trans (opens.since journaled valid ran))

theorem Opens.undone (opens : Opens inv before request) (valid : Valid inv.evm.db) {db : StateDB}
    (restored : Restored before db) : Evolves inv.evm.db db :=
  (opens.prior valid).1.trans restored.evolves

theorem Opens.restores (opens : Opens inv before request) (journaled : Journaled spec) (valid : Valid inv.evm.db)
    (ran : Ran env spec request res) :
    ∃ db, res.evm.db.revertToSnapshot before.snapshot.1 = .ok db ∧ Restored before db :=
  snapshot_restores (opens.prior valid).1.valid (opens.since journaled valid ran)

theorem Ran.err (journaled : Journaled spec) (ran : Ran env spec request res) : ∀ err, res.err = some err → err.ofRun = true := by
  rcases ran.how with native | interpreted
  · exact native.err
  · exact journaled.err request res interpreted

theorem run_journaled (journaled : Journaled spec) {next : RunRes → Prog RunReq RunRes Panic Reply}
    (pre : spec.pre request) (rest : ∀ res, Ran env spec request res → (next res).Sat spec good) :
    ((run env request).bind next).Sat spec good :=
  run_sat journaled.slices (fun res body native => rest res ⟨.inl native, by rw [body]; rfl⟩)
    fun body => ⟨pre, fun res done => rest res ⟨.inr done, by rw [body]; exact ⟨res, done, rfl⟩⟩⟩

-- Everything that a call of an entry point can come to. A call that does not succeed goes back to its snapshot.
inductive Concludes (env : Env) (spec : Spec RunReq RunRes Panic) (inv : Invocation) : Reply → Prop where
  | declines {reply : Reply} (declines : Declines inv reply) : Concludes env spec inv reply
  | collides {reply : Reply} (collides : Collides inv reply) : Concludes env spec inv reply
  | skips {before : StateDB} {address : Address} {request : RunReq} (kind : inv.kind.creates = true)
      (opens : Opens inv before request) (deploys : Deploys env inv before address request) (never : env.noRecursion = true) :
      Concludes env spec inv { evm := request.evm, contractAddr := address, leftOverGas := inv.gas }
  | succeeds {before : StateDB} {request : RunReq} {res : RunRes} (kind : inv.kind.creates = false)
      (opens : Opens inv before request) (ran : Ran env spec request res) (ended : res.err = none) :
      Concludes env spec inv { evm := res.evm, ret := res.ret, leftOverGas := res.contract.gas }
  | fails {before : StateDB} {request : RunReq} {res : RunRes} {err : Err} {db : StateDB} (kind : inv.kind.creates = false)
      (opens : Opens inv before request) (ran : Ran env spec request res) (failed : res.err = some err)
      (reverted : res.evm.db.revertToSnapshot before.snapshot.1 = .ok db) (restored : Restored before db) :
      Concludes env spec inv {
        evm := { res.evm with db := db, trace := { res.evm.trace with suicides := inv.evm.trace.suicides } }
        ret := res.ret
        leftOverGas := if err = .executionReverted then res.contract.gas else 0
        err := some err }
  | deploys {before : StateDB} {address : Address} {request : RunReq} {res : RunRes} (kind : inv.kind.creates = true)
      (opens : Opens inv before request) (deploys : Deploys env inv before address request) (ran : Ran env spec request res)
      (ended : res.err = none) (short : env.isEIP158 = true → res.ret.length ≤ MaxCodeSize)
      (paid : mul64 res.ret.length CreateDataGas ≤ res.contract.gas) :
      Concludes env spec inv {
        evm := { res.evm with db := res.evm.db.setCode address res.ret }
        ret := res.ret
        contractAddr := address
        leftOverGas := res.contract.gas - mul64 res.ret.length CreateDataGas }
  | unpaid {before : StateDB} {address : Address} {request : RunReq} {res : RunRes} (kind : inv.kind.creates = true)
      (opens : Opens inv before request) (deploys : Deploys env inv before address request) (ran : Ran env spec request res)
      (ended : res.err = none) (frontier : env.isHomestead = false) :
      Concludes env spec inv {
        evm := res.evm
        ret := res.ret
        contractAddr := address
        leftOverGas := res.contract.gas
        err := some .codeStoreOutOfGas }
  | abandons {before : StateDB} {address : Address} {request : RunReq} {res : RunRes} {err : Err} {db : StateDB}
      (kind : inv.kind.creates = true) (opens : Opens inv before request) (deploys : Deploys env inv before address request)
      (ran : Ran env spec request res) (abandons : Abandons env res err)
      (reverted : res.evm.db.revertToSnapshot before.snapshot.1 = .ok db) (restored : Restored before db) :
      Concludes env spec inv {
        evm := { res.evm with db := db, trace := { res.evm.trace with suicides := inv.evm.trace.suicides } }
        ret := res.ret
        contractAddr := address
        leftOverGas := if err = .executionReverted then res.contract.gas else 0
        err := some err }

theorem entry_concludes (journaled : Journaled spec) (valid : Valid inv.evm.db) (panics : spec.safe .notAContract)
    (calls : ∀ before request, inv.kind.creates = false → Opens inv before request → spec.pre request)
    (creates : ∀ before address request, inv.kind.creates = true → Opens inv before request →
      Deploys env inv before address request → spec.pre request) :
    (entry env inv).Sat spec (Concludes env spec inv) := by
  refine entry_sat panics (fun _ => .declines) (fun _ => .collides) (fun _ _ _ => .skips) (fun before request kind opens => ?_)
    fun before address request kind opens deployed => ?_
  · refine run_journaled journaled (calls before request kind opens) fun res ran => ?_
    obtain ⟨restored, reverted, same⟩ := opens.restores journaled valid ran
    refine settle_sat (.succeeds kind opens ran) (fun err db failed undone => ?_) fun fault stuck => ?_
    · obtain rfl := Except.ok.inj (reverted.symm.trans undone)
      exact .fails kind opens ran failed undone same
    · rw [reverted] at stuck
      cases stuck
  · refine run_journaled journaled (creates before address request kind opens deployed) fun res ran => ?_
    obtain ⟨restored, reverted, same⟩ := opens.restores journaled valid ran
    refine settleCreate_sat (ran.err journaled) (.deploys kind opens deployed ran) (.unpaid kind opens deployed ran)
      (fun err db failed undone => ?_) fun fault stuck => ?_
    · obtain rfl := Except.ok.inj (reverted.symm.trans undone)
      exact .abandons kind opens deployed ran failed undone same
    · rw [reverted] at stuck
      cases stuck

theorem entry_journaled (journaled : Journaled spec) (valid : Valid inv.evm.db) (panics : spec.safe .notAContract)
    (pre : ∀ before request, Opens inv before request → spec.pre request)
    (concluded : ∀ reply, Concludes env spec inv reply → good reply) : (entry env inv).Sat spec good :=
  (entry_concludes journaled valid panics (fun before request _ => pre before request)
    fun before _ request _ opens _ => pre before request opens).mono concluded

end Entry

section Iteration

variable {env : Env} {fr fr' : Frame} {inv : Invocation} {parent : Contract} {reply : Reply}

theorem Works.evolves (works : Works env fr fr') (valid : Valid fr.evm.db) : Evolves fr.evm.db fr'.evm.db := by
  obtain ⟨writes, -, gentle⟩ := works.db
  exact (gentle valid).evolves

theorem Asks.evolves (asks : Asks env fr parent inv) (valid : Valid fr.evm.db) : Evolves fr.evm.db inv.evm.db := by
  obtain ⟨writes, -, gentle⟩ := asks.db
  exact (gentle valid).evolves

omit [Crypto] in
theorem Continues.db (continues : Continues fr parent reply fr') : fr'.evm.db = reply.evm.db := by
  rw [continues.evm]

omit [Crypto] in
theorem start_db (request : RunReq) :
    Sum.elim (fun fr => fr.evm.db = request.evm.db) (fun res => res.evm.db = request.evm.db) (start request) := by
  unfold start
  dsimp only
  split
  · rfl
  · rfl

end Iteration

def Steady (P : StateDB → Prop) : Prop := ∀ s s', Evolves s s' → P s → P s'

theorem steady_clean : Steady Clean := fun _ _ evolves => evolves.clean

theorem steady_true : Steady fun _ => True := fun _ _ _ _ => trivial

def journalCalls (P : StateDB → Prop) : Spec Invocation Reply Panic where
  pre := fun inv => inv.gas < 2 ^ 64 ∧ Valid inv.evm.db ∧ P inv.evm.db
  post := fun inv reply => Conserves inv reply ∧ Evolves inv.evm.db reply.evm.db
  safe := fun fault => fault.tame = true ∧ fault.orderly = true

def journalRuns (P : StateDB → Prop) : Spec RunReq RunRes Panic where
  pre := fun request => boundedRuns.pre request ∧ Valid request.evm.db ∧ P request.evm.db
  post := fun request res => Bounds request res ∧ Evolves request.evm.db res.evm.db
  safe := fun fault => fault.tame = true ∧ fault.orderly = true

def JournalKeeps (P : StateDB → Prop) (request : RunReq) (fr : Frame) : Prop :=
  Bounded request fr ∧ Evolves request.evm.db fr.evm.db ∧ P fr.evm.db

theorem journalRuns_journaled (P : StateDB → Prop) : Journaled (journalRuns P) where
  evolves := fun _ _ post => post.2
  err := fun _ _ post => post.1.err
  slices := ⟨rfl, rfl⟩

theorem journal_upholds (env : Env) {P : StateDB → Prop} (steady : Steady P) :
    Upholds env (journalCalls P) (journalRuns P) (JournalKeeps P) := by
  refine (bounded_upholds env).extend (fun request _ pre => ?_) (fun request fr bounded kept => ?_)
    fun inv small pre => ?_
  · have same := start_db request
    cases started : start request with
    | inl fr =>
      rw [started] at same
      have kept : Evolves request.evm.db request.evm.db ∧ P request.evm.db := ⟨.refl pre.1, pre.2⟩
      exact ⟨show Evolves _ fr.evm.db from same ▸ kept.1, show P fr.evm.db from same ▸ kept.2⟩
    | inr res =>
      rw [started] at same
      have kept : Evolves request.evm.db request.evm.db := .refl pre.1
      exact show Evolves _ res.evm.db from same ▸ kept
  · obtain ⟨evolves, holds⟩ := kept
    have valid := evolves.valid
    refine step_sat bounded.fit (fun fault known => ?_) (fun fr' works _ => ?_) (fun fr' ret err works _ _ => ?_)
      (fun beneficiary fr' perishes => ?_) fun parent inv asks => ⟨?_, fun reply post fr' continues => ?_⟩
    · rcases known with rfl | rfl
      · rfl
      · rfl
    · have next := works.evolves valid
      exact ⟨evolves.trans next, steady _ _ next holds⟩
    · exact evolves.trans (works.evolves valid)
    · exact evolves.trans (perishes.evolves valid)
    · have asked := asks.evolves valid
      exact ⟨asked.valid, steady _ _ asked holds⟩
    · have replied := (asks.evolves valid).trans post.2
      rw [← continues.db] at replied
      exact ⟨evolves.trans replied, steady _ _ replied holds⟩
  · have journaled : Journaled ⟨fun request => Valid request.evm.db ∧ P request.evm.db,
        fun request res => boundedRuns.post request res ∧ Evolves request.evm.db res.evm.db,
        fun fault => fault.orderly = true⟩ :=
      ⟨fun _ _ post => post.2, fun _ _ post => post.1.err, rfl⟩
    refine entry_journaled journaled pre.1 rfl (fun before request opens => ?_) fun reply concluded => ?_
    · have opened := opens.opened pre.1
      exact ⟨opened.valid, steady _ _ opened pre.2⟩
    · cases concluded with
      | declines declined => exact (declined.db pre.1).evolves
      | collides collided => exact (collided.db pre.1).evolves
      | skips kind opens => exact opens.opened pre.1
      | succeeds kind opens ran | unpaid kind opens deployed ran => exact opens.done journaled pre.1 ran
      | fails kind opens ran failed reverted restored | abandons kind opens deployed ran failed reverted restored =>
        exact opens.undone pre.1 restored
      | deploys kind opens deployed ran =>
        have done := opens.done journaled pre.1 ran
        exact done.trans (setCode_evolves done.valid _ _)

end CuteEVM
