import CuteEVM.Theorems.Gas

set_option autoImplicit false

-- Every access of memory and of the operand stack is in range, and `depth` and `readOnly` describe the frames that are
-- active.

namespace CuteEVM

open CallTree

attribute [local instance] Crypto.sample

section Memory

variable [Crypto]

theorem invoke_tame {env : Env} {inv : Invocation} (small : inv.gas < 2 ^ 64) {fuel : Nat} {fault : Panic}
    (panicked : invoke env fuel inv = .panic fault) : fault.tame = true := by
  have sat := (bounded_upholds env).invoke fuel small
  rwa [panicked] at sat

omit [Crypto] in
theorem empty_range (m : Memory) :
    (∀ offset value, m.set offset 0 value = .ok m) ∧ (∀ offset, m.get offset 0 = .ok []) ∧
      (∀ offset, m.getPtr offset 0 = .ok []) ∧ ∀ offset, calcMemSize64 offset 0 = (0, false) :=
  ⟨fun _ _ => rfl, fun _ => rfl, fun _ => rfl, fun _ => rfl⟩

theorem memory_in_range (env : Env) (inv : Invocation) (small : inv.gas < 2 ^ 64) (clear : Clear inv.evm) :
    (∀ fuel fault, invoke env fuel inv = .panic fault → fault ≠ .memoryStore ∧ fault ≠ .memoryBounds) ∧
    (∀ request fr outer, Running env inv ((request, fr) :: outer) →
      (∀ next, (step env fr).Yields (Answers env) (.inl next) → ∀ access ∈ next.evm.trace.accesses, access.InRange) ∧
      (∀ res, (step env fr).Yields (Answers env) (.inr res) → ∀ access ∈ res.evm.trace.accesses, access.InRange) ∧
      ∀ callee, (step env fr).Makes (Answers env) callee → ∀ access ∈ callee.evm.trace.accesses, access.InRange) ∧
    (∀ reply, Answers env inv reply → ∀ access ∈ reply.evm.trace.accesses, access.InRange) ∧
    ∀ m : Memory, (∀ offset value, m.set offset 0 value = .ok m) ∧ (∀ offset, m.get offset 0 = .ok []) ∧
      (∀ offset, m.getPtr offset 0 = .ok []) ∧ ∀ offset, calcMemSize64 offset 0 = (0, false) := by
  refine ⟨fun fuel fault panicked => ?_, fun request fr outer running => ?_, fun reply answered => ?_, empty_range⟩
  · have tame := invoke_tame small panicked
    constructor <;> rintro rfl <;> cases tame
  · have stepped := running_step small clear running
    have sound := answers_below env fr
    exact ⟨fun next yields => (stepped.yields sound yields).2.2.accesses,
      fun res yields => (stepped.yields sound yields).2.accesses,
      fun callee makes => (stepped.makes sound makes).1.2.accesses⟩
  · have conserves := (clear_upholds env).answers ⟨small, clear⟩ answered
    exact (clear.later conserves.wrapped conserves.logged).accesses

end Memory

theorem memory_in_range_sample :
    (∃ reply, Answers sampleEnv (sampleCall .call returnFive) reply ∧ reply.evm.trace.accesses.length = 2) ∧
      ∀ reply, Answers sampleEnv (sampleCall .call returnFive) reply → ∀ access ∈ reply.evm.trace.accesses, access.InRange := by
  refine ⟨?_, ?_⟩
  · obtain ⟨reply, returned, logged⟩ : ∃ reply, invoke sampleEnv 10 (sampleCall .call returnFive) = .ret reply ∧
        (reply.evm.trace.accesses.length == 2) = true := replyOf_any (by decide +kernel)
    exact ⟨reply, ⟨10, returned⟩, eq_of_beq logged⟩
  · exact (memory_in_range sampleEnv (sampleCall .call returnFive) (by decide) (sampleCall_clear .call returnFive)).2.2.1

section Stack

variable [Crypto]

theorem stack_within_limit (env : Env) (inv : Invocation) (small : inv.gas < 2 ^ 64) :
    (∀ fuel fault, invoke env fuel inv = .panic fault → fault ≠ .stackIndex) ∧
    ∀ frames, Running env inv frames → ∀ frame ∈ frames, frame.2.stack.length ≤ 1024 ∧
      ∀ result fr', ((prepare env >>= fun operation => operation.execute) frame.2).Yields (Answers env) (result, fr') →
        fr'.stack.length ≤ 1024 := by
  refine ⟨fun fuel fault panicked => ?_, fun frames running frame member => ?_⟩
  · have tame := invoke_tame small panicked
    rintro rfl
    cases tame
  · have bounded := ((bounded_upholds env).running small running frame member).2
    refine ⟨bounded.fit.height, fun result fr' yields => ?_⟩
    let anything : Spec Invocation Reply Panic := ⟨fun _ => True, fun _ _ => True, fun _ => True⟩
    have height : ((prepare env >>= fun operation => operation.execute) frame.2).Sat anything _ :=
      execute_height env bounded.fit (fun _ _ => trivial) fun _ => trivial
    exact height.yields (fun _ _ _ _ => trivial) yields

end Stack

theorem stack_within_limit_sample :
    (∃ frame, Running sampleEnv (sampleCall .call returnFive) [frame]) ∧
      ∀ frames, Running sampleEnv (sampleCall .call returnFive) frames →
        ∀ frame ∈ frames, frame.2.stack.length ≤ 1024 := by
  refine ⟨?_, fun frames running frame member => ?_⟩
  · obtain ⟨request, fr, running, -⟩ : ∃ request fr, Running sampleEnv (sampleCall .call returnFive) [(request, fr)] ∧
        true = true := firstRun_running (p := fun _ _ => true) (by decide +kernel)
    exact ⟨(request, fr), running⟩
  · exact ((stack_within_limit sampleEnv (sampleCall .call returnFive) (by decide)).2 frames running frame member).1

section Depth

variable [Crypto]

def Tallies (request : RunReq) (outer : List (RunReq × Frame)) : Prop :=
  request.evm.depth = outer.length ∧ request.evm.readOnly = outer.any fun frame => frame.1.readOnly

theorem running_tallies {env : Env} {inv : Invocation} (small : inv.gas < 2 ^ 64) (bottom : inv.evm.depth = 0)
    (writable : inv.evm.readOnly = false) {request : RunReq} {fr : Frame} {outer : List (RunReq × Frame)}
    (running : Running env inv ((request, fr) :: outer)) : Tallies request outer := by
  obtain ⟨root, made, active⟩ := running
  have returns := (bounded_upholds env).returns
  obtain ⟨required, serves⟩ := (bounded_entry env small).makes (fun called res pre => returns called res pre.1) made
  refine (bounded_upholds env).invariant.stacked required ?_ ?_ active request fr outer rfl
  · exact ⟨serves.depth.trans bottom, serves.readOnly.trans writable⟩
  · rintro request fr outer bounded ⟨depth, readOnly⟩
    refine ⟨_, (bounded_iteration env bounded).weaken ?_ (fun _ _ _ post => post) fun _ safe => safe⟩
    rintro called ⟨required, inner⟩
    refine ⟨required, ?_, ?_⟩
    · rw [inner.depth, bounded.depth, depth, List.length_cons]
    · rw [inner.readOnly, bounded.readOnly, readOnly, List.any_cons, Bool.or_comm]

theorem depth_counts_frames (env : Env) (inv : Invocation) (small : inv.gas < 2 ^ 64) (bottom : inv.evm.depth = 0)
    (writable : inv.evm.readOnly = false) :
    (∀ request fr outer, Running env inv ((request, fr) :: outer) →
      (fr.evm.depth = ((request, fr) :: outer).length ∧ fr.evm.depth ≤ CallCreateDepth + 1 ∧
        (fr.evm.readOnly = true ↔ ∃ frame ∈ (request, fr) :: outer, frame.1.readOnly = true)) ∧
      ∀ callee, (step env fr).Makes (Answers env) callee →
        (callee.evm.depth = fr.evm.depth ∧ callee.evm.readOnly = fr.evm.readOnly) ∧
        ∀ reply, Answers env callee reply → reply.evm.depth = fr.evm.depth ∧ reply.evm.readOnly = fr.evm.readOnly) ∧
    ∀ request res, request.contract.gas < 2 ^ 64 → request.evm.depth ≤ CallCreateDepth →
      (machine env).Returns request res → res.evm.depth = request.evm.depth ∧ res.evm.readOnly = request.evm.readOnly := by
  have upholds := bounded_upholds env
  refine ⟨fun request fr outer running => ?_, fun request res gas shallow returned => ?_⟩
  · obtain ⟨⟨-, shallow⟩, bounded⟩ := upholds.running small running _ List.mem_cons_self
    obtain ⟨depth, readOnly⟩ := running_tallies small bottom writable running
    refine ⟨⟨?_, ?_, ?_⟩, fun callee makes => ?_⟩
    · rw [bounded.depth, depth, List.length_cons]
    · rw [bounded.depth]
      exact Nat.succ_le_succ shallow
    · rw [bounded.readOnly, readOnly, Bool.or_comm]
      simp
    · obtain ⟨called, below⟩ := (bounded_step env bounded).makes
        (fun callee reply pre answered => upholds.answers pre.1 answered) makes
      refine ⟨⟨below.depth, below.readOnly⟩, fun reply answered => ?_⟩
      have conserves := upholds.answers called answered
      exact ⟨conserves.depth.trans below.depth, conserves.readOnly.trans below.readOnly⟩
  · have bounds := upholds.returns request res ⟨gas, shallow⟩ returned
    exact ⟨bounds.depth, bounds.readOnly⟩

end Depth

theorem depth_counts_frames_sample :
    ∃ request fr, Running sampleEnv (sampleCall .staticCall returnFive) [(request, fr)] ∧ fr.evm.depth = 1 ∧
      fr.evm.readOnly = true := by
  obtain ⟨request, fr, running, static⟩ : ∃ request fr,
      Running sampleEnv (sampleCall .staticCall returnFive) [(request, fr)] ∧ request.readOnly = true :=
    firstRun_running (p := fun request _ => request.readOnly) (by decide +kernel)
  obtain ⟨depth, -, mode⟩ := ((depth_counts_frames sampleEnv (sampleCall .staticCall returnFive) (by decide) rfl rfl).1
    request fr [] running).1
  exact ⟨request, fr, running, depth, mode.mpr ⟨_, List.mem_cons_self, static⟩⟩

end CuteEVM
