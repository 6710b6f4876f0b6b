import CuteEVM.Proofs.Memory

set_option autoImplicit false

-- They use up gas and return bytes; nothing else of the machine changes.

namespace CuteEVM

section Slices

theorem leftPadBytes_sliced (bytes : Bytes) (l : Nat) : Sliced (leftPadBytes bytes l) := .checked _

theorem getData_sliced (data : Bytes) (start size : Nat) : Sliced (getData data start size) :=
  (slice_sliced _ _ _).bind fun _ => .checked _

end Slices

variable [Crypto]

omit [Crypto] in
theorem requiredGas_sliced (p : Precompiled) (input : Bytes) : Sliced (p.requiredGas input) := by
  cases p with
  | bigModExp =>
    refine (getData_sliced _ _ _).bind fun _ => (getData_sliced _ _ _).bind fun _ =>
      (getData_sliced _ _ _).bind fun _ => Sliced.bind ?_ fun _ => .ok _
    unfold modExpHead
    split
    · exact .ok _
    · exact (getData_sliced _ _ _).map _
  | _ => exact .ok _

theorem run_sliced (p : Precompiled) (input : Bytes) : Sliced (p.run input) := by
  cases p with
  | bigModExp =>
    refine Sliced.map ?_ _
    refine (getData_sliced _ _ _).bind fun _ => (getData_sliced _ _ _).bind fun _ =>
      (getData_sliced _ _ _).bind fun _ => ?_
    dsimp only
    split
    · exact .ok _
    · refine (getData_sliced _ _ _).bind fun _ => (getData_sliced _ _ _).bind fun _ =>
        (getData_sliced _ _ _).bind fun _ => ?_
      split <;> exact leftPadBytes_sliced _ _
  | bn256Add => exact (getData_sliced _ _ _).bind fun _ => (getData_sliced _ _ _).bind fun _ => .ok _
  | bn256ScalarMul => exact (getData_sliced _ _ _).bind fun _ => (getData_sliced _ _ _).bind fun _ => .ok _
  | _ => exact .ok _

theorem ecrecoverRun_length (input : Bytes) : (ecrecoverRun input).length ≤ 32 := by
  unfold ecrecoverRun
  dsimp only
  split
  · exact Nat.zero_le _
  · split
    · exact Nat.zero_le _
    · exact Nat.le_of_eq (bigEndian_length _ _)

omit [Crypto] in
theorem curveResult_length {point : Option (BitVec 256 × BitVec 256)} {ret : Bytes}
    (result : Precompiled.curveResult point = .ok ret) : ret.length = 64 := by
  cases point with
  | none => cases result
  | some point =>
    obtain rfl := Except.ok.inj result
    simp [marshal, bigEndian_length]

theorem pairing_length {input ret : Bytes} (result : Precompiled.pairing input = .ok ret) : ret.length = 32 := by
  unfold Precompiled.pairing at result
  split at result
  · cases result
  · split at result
    · cases result
    · obtain rfl := Except.ok.inj result
      rfl
    · obtain rfl := Except.ok.inj result
      rfl

omit [Crypto] in
theorem getData_nil (start : Nat) : getData [] start 32 = .ok (List.replicate 32 0) := by
  have first : (if start > 0 then 0 else start) = 0 := by split <;> omega
  simp only [getData, List.length_nil, first]
  decide

omit [Crypto] in
theorem setBytes_zeros : setBytes (List.replicate 32 0) = 0 := by decide

omit [Crypto] in
theorem bigModExpRun_nil : bigModExpRun [] = .ok [] := by
  obtain ⟨zeros, read, value⟩ : ∃ zeros, (∀ start, getData [] start 32 = .ok zeros) ∧ setBytes zeros = 0 :=
    ⟨_, getData_nil, setBytes_zeros⟩
  simp [bigModExpRun, read, value, bind, Except.bind, pure, Except.pure]

theorem run_nil_length {p : Precompiled} {ret : Bytes} (result : p.run [] = .ok (.ok ret)) : ret.length ≤ 64 := by
  cases p with
  | ecrecover =>
    obtain rfl := Except.ok.inj (Except.ok.inj result)
    exact Nat.le_trans (ecrecoverRun_length []) (by decide)
  | sha256hash =>
    obtain rfl := Except.ok.inj (Except.ok.inj result)
    exact Nat.le_trans (Nat.le_of_eq (bigEndian_length _ _)) (by decide)
  | ripemd160hash =>
    obtain rfl := Except.ok.inj (Except.ok.inj result)
    simp [leftPadded, bigEndian_length]
  | dataCopy =>
    obtain rfl := Except.ok.inj (Except.ok.inj result)
    exact Nat.zero_le _
  | bigModExp =>
    simp only [Precompiled.run, bigModExpRun_nil, Except.map, Except.ok.injEq] at result
    exact result ▸ Nat.zero_le _
  | bn256Add => exact Nat.le_of_eq (curveResult_length (Except.ok.inj result))
  | bn256ScalarMul => exact Nat.le_of_eq (curveResult_length (Except.ok.inj result))
  | bn256Pairing => exact Nat.le_trans (Nat.le_of_eq (pairing_length (Except.ok.inj result))) (by decide)

omit [Crypto] in
theorem curveResult_err {point : Option (BitVec 256 × BitVec 256)} {err : Err}
    (result : Precompiled.curveResult point = .error err) : err.ofRun = true := by
  cases point with
  | none =>
    obtain rfl := Except.error.inj result
    rfl
  | some point => cases result

theorem pairing_err {input : Bytes} {err : Err} (result : Precompiled.pairing input = .error err) : err.ofRun = true := by
  unfold Precompiled.pairing at result
  split at result
  · obtain rfl := Except.error.inj result
    rfl
  · split at result
    · obtain rfl := Except.error.inj result
      rfl
    · cases result
    · cases result

omit [Crypto] in
theorem bind_ok {α β : Type} {first : Except Panic α} {next : α → Except Panic β} {value : β}
    (result : (first >>= next) = .ok value) : ∃ middle, first = .ok middle ∧ next middle = .ok value := by
  cases first with
  | ok middle => exact ⟨middle, rfl, result⟩
  | error fault => cases result

theorem run_err {p : Precompiled} {input : Bytes} {err : Err} (result : p.run input = .ok (.error err)) :
    err.ofRun = true := by
  cases p with
  | bigModExp =>
    simp only [Precompiled.run] at result
    cases bytes : bigModExpRun input <;> simp [bytes, Except.map] at result
  | bn256Add =>
    obtain ⟨x, -, rest⟩ := bind_ok result
    obtain ⟨y, -, last⟩ := bind_ok rest
    exact curveResult_err (Except.ok.inj last)
  | bn256ScalarMul =>
    obtain ⟨x, -, rest⟩ := bind_ok result
    obtain ⟨y, -, last⟩ := bind_ok rest
    exact curveResult_err (Except.ok.inj last)
  | bn256Pairing => exact pairing_err (Except.ok.inj result)
  | _ => cases Except.ok.inj result

structure Native (request : RunReq) (res : RunRes) : Prop where
  evm : res.evm = request.evm
  gas : res.contract.gas ≤ request.contract.gas
  err : ∀ err, res.err = some err → err.ofRun = true
  ret : request.input = [] → res.ret.length ≤ memoryLimit

theorem runPrecompiledContract_sliced (p : Precompiled) (input : Bytes) (contract : Contract) :
    Sliced (runPrecompiledContract p input contract) := by
  refine (requiredGas_sliced p input).bind fun gas => ?_
  split
  · exact (run_sliced p input).bind fun _ => .ok _
  · exact .ok _

theorem runPrecompiledContract_gas {p : Precompiled} {input : Bytes} {contract contract' : Contract}
    {result : Except Err Bytes} (ran : runPrecompiledContract p input contract = .ok (result, contract')) :
    contract'.gas ≤ contract.gas ∧ (∀ err, result = .error err → err.ofRun = true) ∧
      (input = [] → ∀ ret, result = .ok ret → ret.length ≤ 64) := by
  obtain ⟨gas, -, rest⟩ := bind_ok ran
  unfold Contract.useGas at rest
  split at rest
  · next paid =>
    split at paid
    · cases paid
    · obtain ⟨-, rfl⟩ := Prod.mk.inj paid
      obtain ⟨answer, answered, last⟩ := bind_ok rest
      obtain ⟨rfl, rfl⟩ := Prod.mk.inj (Except.ok.inj last)
      refine ⟨Nat.sub_le _ _, ?_, ?_⟩
      · rintro err rfl
        exact run_err answered
      · rintro rfl ret rfl
        exact run_nil_length answered
  · next paid =>
    split at paid
    · obtain ⟨-, rfl⟩ := Prod.mk.inj paid
      obtain ⟨rfl, rfl⟩ := Prod.mk.inj (Except.ok.inj rest)
      exact ⟨Nat.le_refl _, by rintro _ ⟨⟩; rfl, by rintro _ _ ⟨⟩⟩
    · cases paid

end CuteEVM
