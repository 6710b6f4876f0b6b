import CuteEVM.Proofs.Journal
import CuteEVM.State.Reachable
import CuteEVM.Theorems.Gas

set_option autoImplicit false

-- A call that returns an error leaves the state as it found it, whatever happened inside.

namespace CuteEVM

open CallTree

attribute [local instance] Crypto.sample

section Failure

variable [Crypto]

theorem Opens.restored_observe {inv : Invocation} {before : StateDB} {request : RunReq} {db : StateDB}
    (opens : Opens inv before request) (kind : inv.kind.creates = false) (valid : Valid inv.evm.db) (clean : Clean inv.evm.db)
    (restored : Restored before db) : db.observe = inv.evm.db.observe := by
  have reads := opens.reads kind valid
  have world := restored.world (reads.evolves.clean clean)
  rw [observe_congr world restored.evolves.codes, reads.observe]

def Fails (inv : Invocation) (reply : Reply) (err : Err) : Prop :=
  reply.evm.db.observe = inv.evm.db.observe ∧
    (err = .depth ∨ err = .insufficientBalance → reply.leftOverGas = inv.gas) ∧
    (err ≠ .depth → err ≠ .insufficientBalance → err ≠ .executionReverted → reply.leftOverGas = 0)

theorem entry_fails (env : Env) {inv : Invocation} (valid : Valid inv.evm.db) (clean : Clean inv.evm.db)
    (small : inv.gas < 2 ^ 64) : (entry env inv).Sat (journalRuns Clean) fun reply =>
      inv.kind.creates = false → ∀ err, reply.err = some err → Fails inv reply err := by
  have journaled := journalRuns_journaled Clean
  refine entry_journaled journaled valid ⟨rfl, rfl⟩ (fun before request opens => ?_) fun reply concluded kind err failed => ?_
  · have opened := opens.opened valid
    have depth : request.evm.depth = inv.evm.depth := by rw [opens.evm]
    exact ⟨⟨opens.gas ▸ small, depth ▸ opens.shallow⟩, opened.valid, opened.clean clean⟩
  · have never : inv.kind.creates ≠ true := by simp [kind]
    cases concluded with
    | declines declined =>
      refine ⟨(declined.db valid).observe, fun _ => declined.gas, fun notDepth notBalance => ?_⟩
      rcases declined.err with same | same | ⟨same, -⟩
      · rw [same] at failed
        exact absurd (Option.some.inj failed).symm notDepth
      · rw [same] at failed
        exact absurd (Option.some.inj failed).symm notBalance
      · rw [same] at failed
        cases failed
    | collides collided => exact absurd collided.kind never
    | skips creates | deploys creates | unpaid creates | abandons creates => exact absurd creates never
    | succeeds => cases failed
    | fails _ opens ran ended _ restored =>
      -- The run itself never ends with one of the two refusals.
      obtain rfl := Option.some.inj failed
      have known := ran.err journaled _ ended
      refine ⟨opens.restored_observe kind valid clean restored, ?_, fun _ _ other => if_neg other⟩
      rintro (rfl | rfl) <;> cases known

theorem failed_call_restores (env : Env) (inv : Invocation) (small : inv.gas < 2 ^ 64)
    (reached : Reached (fun s op => op.Guarded s) inv.evm.db) :
    (∀ fuel id, invoke env fuel inv ≠ .panic (.revisionId id)) ∧
    ∀ callee, Invoked env inv callee → callee.kind.creates = false → ∀ reply err, Answers env callee reply →
      reply.err = some err →
        reply.evm.db.observe = callee.evm.db.observe ∧
        (err = .depth ∨ err = .insufficientBalance → reply.leftOverGas = callee.gas) ∧
        (err ≠ .depth → err ≠ .insufficientBalance → err ≠ .executionReverted → reply.leftOverGas = 0) := by
  have upholds := journal_upholds env steady_clean
  have pre : (journalCalls Clean).pre inv := ⟨small, reached.valid, reached.clean⟩
  refine ⟨fun fuel id panicked => ?_, fun callee invoked kind reply err answered failed => ?_⟩
  · have sat := upholds.invoke fuel pre
    rw [panicked] at sat
    cases sat.2
  · obtain ⟨gas, valid, clean⟩ := upholds.invoked pre invoked
    have failure := (entry_fails env valid clean gas).yields upholds.returns answered.yields
    exact failure kind err failed

end Failure

theorem sampleState_reached {condition : StateDB → Op → Prop} (code : Bytes) (free : ∀ s op, op.ends = false → condition s op) :
    Reached condition (sampleState code) :=
  .step (.setCode 0x100 code) (.step (.addBalance 1 100) (.new _ _) (free _ _ rfl) rfl) (free _ _ rfl) rfl

theorem guarded_of_plain (s : StateDB) (op : Op) (plain : op.ends = false) : op.Guarded s := by
  cases op <;> trivial

-- Seven units are sent to a contract that stops with an invalid instruction.
theorem failed_call_restores_sample :
    ∃ reply, Answers sampleEnv (sampleCall .call [0xfe]) reply ∧ reply.err = some (.invalidOpcode 0xfe) ∧
      reply.leftOverGas = 0 ∧ reply.evm.db.observe.balance 1 = 100 := by
  obtain ⟨reply, returned, failed⟩ : ∃ reply, invoke sampleEnv 10 (sampleCall .call [0xfe]) = .ret reply ∧
      (reply.err == some (.invalidOpcode 0xfe)) = true := replyOf_any (by decide +kernel)
  have answered : Answers sampleEnv (sampleCall .call [0xfe]) reply := ⟨10, returned⟩
  have failed := eq_of_beq failed
  obtain ⟨same, -, gas⟩ := (failed_call_restores sampleEnv (sampleCall .call [0xfe]) (by decide)
    (sampleState_reached [0xfe] guarded_of_plain)).2 _ .root rfl reply _ answered failed
  refine ⟨reply, answered, failed, gas (by decide) (by decide) (by decide), ?_⟩
  rw [same]
  decide +kernel

def writtenBack (addr : Address) : StateDB :=
  (((StateDB.new (fun _ => none) (fun _ => none)).addBalance addr 0).finalise true).commit false

theorem writtenBack_reached (addr : Address) : Reached (fun _ _ => True) (writtenBack addr) :=
  .step (.commit false) (.step (.finalise true) (.step (.addBalance addr 0) (.new _ _) trivial rfl) trivial rfl) trivial rfl

-- The precompiled contract at address 2 runs out of gas. Its account did not exist, and exists afterwards.
theorem failed_call_resurrects :
    ∃ reply, Reached (fun _ _ => True) (writtenBack 2) ∧
      Answers sampleEnv { kind := .call, evm := { db := writtenBack 2 }, caller := .accountRef 1, addr := 2, gas := 0 } reply ∧
      reply.err = some .outOfGas ∧ (writtenBack 2).observe.exist 2 = false ∧ reply.evm.db.observe.exist 2 = true := by
  obtain ⟨reply, returned, holds⟩ : ∃ reply,
      invoke sampleEnv 1 { kind := .call, evm := { db := writtenBack 2 }, caller := .accountRef 1, addr := 2, gas := 0 } =
        .ret reply ∧ (reply.err == some .outOfGas && reply.evm.db.observe.exist 2) = true := replyOf_any (by decide +kernel)
  simp only [Bool.and_eq_true] at holds
  exact ⟨reply, writtenBack_reached 2, ⟨1, returned⟩, eq_of_beq holds.1, by decide +kernel, holds.2⟩

end CuteEVM
