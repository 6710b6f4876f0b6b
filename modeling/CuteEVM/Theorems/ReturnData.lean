import CuteEVM.Proofs.Runs
import CuteEVM.Proofs.Stores
import CuteEVM.Theorems.Memory

set_option autoImplicit false

-- What a caller sees of the output of its callee, in the return data of the interpreter and in its own memory.

namespace CuteEVM

open CallTree Exec

variable {env : Env} {inv : Invocation} {kind : CallKind} {mid : Frame} {operation : Operation} {reply : Reply}

section Bytes

variable {m m' : Memory}

structure Pasted (offset size : Int) (value : Bytes) (m m' : Memory) : Prop where
  length : m'.store.length = m.store.length
  copied : ∀ k : Nat, k < value.length → (k : Int) < size → ∃ i : Nat, (i : Int) = offset + k ∧ m'.store[i]? = value[k]?
  kept : ∀ i : Nat, ¬ (offset ≤ i ∧ (i : Int) < offset + min size value.length) → m'.store[i]? = m.store[i]?

theorem Memory.set_pasted {offset size : Int} {value : Bytes} (covered : Covered offset size m)
    (limit : m.store.length ≤ memoryLimit)
    (set : m.set (uint64 offset) (uint64 size) value = .ok m') : Pasted offset size value m m' := by
  unfold memoryLimit at limit
  unfold Memory.set at set
  rcases covered with rfl | ⟨low, nonempty, high⟩
  · cases set
    exact ⟨rfl, fun k _ below => absurd below (by omega), fun _ _ => rfl⟩
  · have start : (uint64 offset : Int) = offset := uint64_eq low (by omega)
    have count : (uint64 size : Int) = size := uint64_eq (by omega) (by omega)
    generalize uint64 offset = first at start set
    generalize uint64 size = amount at count set
    subst start count
    rw [if_pos (by omega), add64_eq (by omega), if_neg (by omega), if_neg (by omega)] at set
    cases set
    have fits : first + (value.take amount).length ≤ m.store.length := by
      rw [List.length_take]
      omega
    refine ⟨splice_length fits, fun k inside below => ⟨first + k, rfl, ?_⟩, fun i outside => ?_⟩
    · rw [getElem?_splice fits, List.length_take, if_pos (by omega), Nat.add_sub_cancel_left, List.getElem?_take_of_lt (by omega)]
    · rw [getElem?_splice fits, List.length_take, if_neg (by omega)]

end Bytes

def Delivers (err : Option Err) : Prop := err = none ∨ err = some .executionReverted

instance (err : Option Err) : Decidable (Delivers err) := inferInstanceAs (Decidable (_ ∨ _))

-- Where the caller wants the output, as offset and size. A creation writes nothing to memory.
def CallKind.window (stack : Stack) : CallKind → Int × Int
  | .call | .callCode => (stack.getD 5 0, stack.getD 6 0)
  | .delegateCall | .staticCall => (stack.getD 4 0, stack.getD 5 0)
  | .create | .create2 => (0, 0)

section Instructions

def mute : Spec Invocation Reply Panic where
  pre := fun _ => False
  post := fun _ _ => True
  safe := fun _ => True

def Consults {α : Type} (kind : CallKind) (good : Reply → α → Prop) : Prog Invocation Reply Panic α → Prop
  | .ret _ => False
  | .panic _ => True
  | .call inv resume => inv.kind = kind ∧ ∀ reply, (resume reply).Sat mute (good reply)

theorem Consults.bind {α β : Type} {good : Reply → α → Prop} {better : Reply → β → Prop} {body : Prog Invocation Reply Panic α}
    (consults : Consults kind good body) {next : α → β} (tail : ∀ reply value, good reply value → better reply (next value)) :
    Consults kind better (body.bind fun value => .ret (next value)) := by
  cases body with
  | ret value => exact consults
  | panic fault => trivial
  | call inv resume => exact ⟨consults.1, fun reply => Prog.Sat.bind (consults.2 reply) (tail reply)⟩

theorem Consults.yields {α : Type} {good : Reply → α → Prop} {body : Prog Invocation Reply Panic α}
    {answers : Invocation → Reply → Prop} {value : α} (consults : Consults kind good body) (yielded : body.Yields answers value) :
    ∃ inv reply, body.Makes answers inv ∧ inv.kind = kind ∧ answers inv reply ∧ good reply value := by
  cases body with
  | ret result => exact consults.elim
  | panic fault => exact yielded.elim
  | call inv resume =>
    obtain ⟨reply, answered, rest⟩ := yielded
    exact ⟨inv, reply, .inl rfl, consults.1, answered, (consults.2 reply).yields (fun _ _ none _ => none.elim) rest⟩

structure Hears (kind : CallKind) (fr : Frame) (reply : Reply) (p : Except Err Bytes × Frame) : Prop where
  result : p.1 = .ok (if kind.creates = true ∧ reply.err ≠ some .executionReverted then [] else reply.ret)
  memory : if kind.creates = false ∧ Delivers reply.err then
      fr.memory.set (uint64 (kind.window fr.stack).1) (uint64 (kind.window fr.stack).2) reply.ret = .ok p.2.memory
    else p.2.memory = fr.memory

variable {fr : Frame}

theorem finishCall_hears (plain : kind.creates = false) (reply : Reply) {retOffset retSize : Int}
    (wanted : kind.window fr.stack = (retOffset, retSize)) (same : mid.memory = fr.memory) :
    (finishCall retOffset retSize reply mid).Sat mute (Hears kind fr reply) := by
  have kept : ¬ (kind.creates = true ∧ reply.err ≠ some .executionReverted) := by simp [plain]
  simp only [finishCall, bind_apply, push_apply, Prog.bind_ret]
  split
  · next delivered =>
    simp only [memorySet, bind_apply, Exec.record, modify_apply, Prog.bind_ret, changeMemory]
    generalize changed : Memory.set _ _ _ _ = outcome
    cases outcome with
    | error fault => trivial
    | ok memory =>
      refine ⟨by rw [if_neg kept], ?_⟩
      rw [if_pos ⟨plain, delivered⟩, wanted, ← changed]
      split
      · rw [same]
      · rw [same]
  · next lost =>
    refine ⟨by rw [if_neg kept], ?_⟩
    rw [if_neg fun both => lost both.2]
    exact same

theorem memoryGet_rule {offset size : Int} {good : Prog Invocation Reply Panic (Except Err Bytes × Frame) → Prop}
    (panics : ∀ fault, good (.panic fault)) {next : Bytes → Exec Bytes}
    (tail : ∀ args mid, mid.memory = fr.memory → good (next args mid)) : good ((memoryGet offset size >>= next) fr) := by
  simp only [memoryGet, bind_apply, Exec.record, modify_apply, Prog.bind_ret, get_apply, lift]
  generalize Memory.get _ _ _ = outcome
  cases outcome with
  | error fault => exact panics fault
  | ok args =>
    apply tail
    split <;> rfl

theorem valueCall_hears (which : kind = .call ∨ kind = .callCode) (low : 7 ≤ fr.stack.length) :
    Consults kind (Hears kind fr) (valueCall kind fr) := by
  obtain ⟨requested, addr, value, inOffset, inSize, retOffset, retSize, rest, shape⟩ := exists_seven low
  have plain : kind.creates = false := by rcases which with rfl | rfl <;> rfl
  have wanted : kind.window fr.stack = (retOffset, retSize) := by
    rw [shape]
    rcases which with rfl | rfl <;> rfl
  unfold valueCall
  simp only [bind_apply, pop, shape, Prog.bind_ret, get_apply]
  apply memoryGet_rule (fun _ => trivial)
  intro args mid memory
  split
  · exact ⟨rfl, fun _ => finishCall_hears plain _ wanted memory⟩
  · exact ⟨rfl, fun _ => finishCall_hears plain _ wanted memory⟩

theorem plainCall_hears (which : kind = .delegateCall ∨ kind = .staticCall)
    (low : 6 ≤ fr.stack.length) : Consults kind (Hears kind fr) (plainCall kind fr) := by
  obtain ⟨requested, addr, inOffset, inSize, retOffset, retSize, rest, shape⟩ := exists_six low
  have plain : kind.creates = false := by rcases which with rfl | rfl <;> rfl
  have wanted : kind.window fr.stack = (retOffset, retSize) := by
    rw [shape]
    rcases which with rfl | rfl <;> rfl
  unfold plainCall
  simp only [bind_apply, pop, shape, Prog.bind_ret, get_apply]
  apply memoryGet_rule (fun _ => trivial)
  intro args mid memory
  exact ⟨rfl, fun _ => finishCall_hears plain _ wanted memory⟩

theorem finishCreate_hears (creates : kind.creates = true) (created : Bool) (reply : Reply)
    (same : mid.memory = fr.memory) : (finishCreate created reply mid).Sat mute (Hears kind fr reply) := by
  simp only [finishCreate, bind_apply, push_apply, Prog.bind_ret, returnGas_apply, pure_apply]
  refine ⟨?_, ?_⟩
  · by_cases reverted : reply.err = some .executionReverted
    · simp [reverted]
    · simp [reverted, creates]
  · rw [if_neg (by simp [creates])]
    exact same

theorem opCreate_hears (env : Env) (low : 3 ≤ fr.stack.length) : Consults .create (Hears .create fr) (opCreate env fr) := by
  obtain ⟨value, offset, size, rest, shape⟩ := exists_three low
  unfold opCreate
  simp only [bind_apply, pop, shape, Prog.bind_ret]
  apply memoryGet_rule (fun _ => trivial)
  intro input mid memory
  exact ⟨rfl, fun _ => finishCreate_hears rfl _ _ memory⟩

theorem opCreate2_hears (low : 4 ≤ fr.stack.length) : Consults .create2 (Hears .create2 fr) (opCreate2 fr) := by
  obtain ⟨endowment, offset, size, salt, rest, shape⟩ := exists_four low
  unfold opCreate2
  simp only [bind_apply, pop, shape, Prog.bind_ret]
  apply memoryGet_rule (fun _ => trivial)
  intro input mid memory
  exact ⟨rfl, fun _ => finishCreate_hears rfl _ _ memory⟩

def callKind (op : OpCode) : Option CallKind :=
  match op with
  | 0xf0 => some .create
  | 0xf1 => some .call
  | 0xf2 => some .callCode
  | 0xf4 => some .delegateCall
  | 0xf5 => some .create2
  | 0xfa => some .staticCall
  | _ => none

variable [Crypto]

def callOperation (env : Env) : CallKind → Operation
  | .create => { sized (opCreate env) gasCreate 3 1 memoryCreate with writes := true, returns := true }
  | .call => { sized opCall (gasCall env env.gasTable) 7 1 memoryCall with returns := true }
  | .callCode => { sized opCallCode (gasCallCode env.gasTable) 7 1 memoryCall with returns := true }
  | .delegateCall => { sized opDelegateCall (gasDelegateCall env.gasTable) 6 1 memoryDelegateCall with returns := true }
  | .staticCall => { sized opStaticCall (gasStaticCall env.gasTable) 6 1 memoryStaticCall with returns := true }
  | .create2 => { sized opCreate2 gasCreate2 4 1 memoryCreate2 with writes := true, returns := true }

theorem frontier_call (env : Env) {op : OpCode} (which : callKind op = some kind) :
    (newFrontierInstructionSet env).lookup op = (callInstructions env).lookup op := by
  have skip := @lookup_skip op (fun op => (callKind op).isNone) (by rw [which]; rfl)
  simp only [newFrontierInstructionSet, List.append_assoc]
  rw [skip _ rfl, skip _ rfl, skip _ rfl, skip _ rfl, skip _ rfl, skip _ rfl]

theorem lookup_callOperation {op : OpCode} (which : callKind op = some kind)
    (found : (jumpTable env).lookup op = some operation) : operation = callOperation env kind := by
  have frontier := frontier_call env which
  unfold callKind at which
  unfold jumpTable newConstantinopleInstructionSet newByzantiumInstructionSet newHomesteadInstructionSet at found
  split at which
  all_goals cases which
  all_goals
    repeat' split at found
    all_goals
      simp only [List.cons_append, List.nil_append, List.lookup_cons, frontier, callInstructions, List.lookup_nil] at found
      first
        | exact (Option.some.inj found).symm
        | cases found

theorem callOperation_hears (env : Env) (kind : CallKind) (ready : Ready (callOperation env kind) fr) :
    Consults kind (Hears kind fr) ((callOperation env kind).execute fr) := by
  cases kind with
  | call => exact valueCall_hears (.inl rfl) ready.low
  | callCode => exact valueCall_hears (.inr rfl) ready.low
  | delegateCall => exact plainCall_hears (.inl rfl) ready.low
  | staticCall => exact plainCall_hears (.inr rfl) ready.low
  | create => exact opCreate_hears env ready.low
  | create2 => exact opCreate2_hears ready.low

theorem callOperation_covers (env : Env) (kind : CallKind) (ready : Ready (callOperation env kind) fr) :
    Covered (kind.window fr.stack).1 (kind.window fr.stack).2 fr.memory := by
  have given : ∀ i, i < fr.stack.length → fr.stack[i]? = some (fr.stack.getD i 0) := by
    intro i inside
    rw [List.getD_eq_getElem _ _ inside, List.getElem?_eq_getElem inside]
  cases kind with
  | call | callCode =>
    have low : 7 ≤ fr.stack.length := ready.low
    exact ((ready.fits _ rfl).ranges (given 5 (by omega)) (given 6 (by omega)) (given 3 (by omega)) (given 4 (by omega))).1
  | delegateCall | staticCall =>
    have low : 6 ≤ fr.stack.length := ready.low
    exact ((ready.fits _ rfl).ranges (given 4 (by omega)) (given 5 (by omega)) (given 2 (by omega)) (given 3 (by omega))).1
  | create | create2 => exact .inl rfl

omit [Crypto] in
theorem admitOperation_bytes {op : OpCode} {operation admitted : Operation} (metering : Metering operation)
    (uses : operation.memorySize ≠ none) (returned : admitOperation env op operation fr = .ret (.ok admitted, mid)) (i : Nat) :
    mid.memory.store.getD i 0 = fr.memory.store.getD i 0 := by
  cases metering with
  | free unsized gas acts => exact absurd unsized uses
  | paid sized metered asks meters acts =>
    obtain ⟨rfl, size, asked, paid, required, dynamic, rfl⟩ := admitOperation_parts returned
    obtain ⟨rfl, -, -⟩ := requiredMemory_returned (.paid sized metered asks meters acts) required
    unfold payDynamic at dynamic
    rw [metered] at dynamic
    obtain ⟨cost, priced, price, used⟩ := bind_returned dynamic
    obtain ⟨-, fee, memory, -⟩ := meters _ _ _ _ (orOutOfGas_returned price)
    obtain ⟨-, rfl⟩ := pay_returned used
    have store := congrArg (·.getD i 0) (memoryFee_some memory).1
    refine Eq.trans ?_ store
    split
    · exact priced.memory.resize_getD size i
    · rfl

structure Heard (kind : CallKind) (fr : Frame) (reply : Reply) (later : Frame) : Prop where
  returnData : later.evm.returnData = if kind.creates = true ∧ reply.err ≠ some .executionReverted then [] else reply.ret
  grows : fr.memory.store.length ≤ later.memory.store.length
  copied : kind.creates = false → Delivers reply.err → ∀ k : Nat, k < reply.ret.length → (k : Int) < (kind.window fr.stack).2 →
    ∃ i : Nat, (i : Int) = (kind.window fr.stack).1 + k ∧ later.memory.store[i]? = reply.ret[k]?
  kept : ∀ i : Nat, ¬ (Delivers reply.err ∧ (kind.window fr.stack).1 ≤ i ∧
      (i : Int) < (kind.window fr.stack).1 + min (kind.window fr.stack).2 reply.ret.length) →
    later.memory.store.getD i 0 = fr.memory.store.getD i 0

structure Asking (operation : Operation) (fr mid : Frame) : Prop where
  ready : Ready operation mid
  stack : mid.stack = fr.stack
  returnData : mid.evm.returnData = fr.evm.returnData
  limit : mid.memory.store.length ≤ memoryLimit
  grows : fr.memory.store.length ≤ mid.memory.store.length
  bytes : ∀ i, mid.memory.store.getD i 0 = fr.memory.store.getD i 0

theorem prepare_asking (fit : Fit fr) (prepared : prepare env fr = .ret (.ok operation, mid)) :
    (jumpTable env).lookup (fr.contract.getOp fr.pc) = some operation ∧
    (operation.memorySize ≠ none → Asking operation fr mid) := by
  have reached := prepare_sat env fit.memory
  rw [prepared] at reached
  obtain ⟨cls, admitted⟩ := reached
  have metering := jumpTable_metering env _ (mem_of_lookup admitted.found)
  rw [prepare_found admitted.found] at prepared
  refine ⟨admitted.found, fun uses => ⟨admitted.ready, admitted.charged.stack, ?_, admitted.charged.memory fit.memory, ?_, ?_⟩⟩
  · rw [admitted.charged.evm]
  · obtain ⟨-, size, fee, rented⟩ := admitOperation_rents metering prepared
    obtain ⟨memory, priced, meter⟩ := rented.priced
    rw [(Prod.mk.inj meter).1, resize_length, (memoryFee_some priced).1]
    exact Nat.le_max_left _ _
  · exact admitOperation_bytes metering uses prepared

theorem Asking.heard {p : Except Err Bytes × Frame}
    (asking : Asking (callOperation env kind) fr mid) (hears : Hears kind mid reply p) :
    ∃ later, finish (callOperation env kind) p.1 p.2 = .inl later ∧ Heard kind fr reply later := by
  obtain ⟨result, last⟩ := p
  obtain ⟨rfl, memory⟩ := hears
  refine ⟨{ last with
    evm := { last.evm with returnData := if kind.creates = true ∧ reply.err ≠ some .executionReverted then [] else reply.ret }
    pc := add64 last.pc 1 }, by cases kind <;> rfl, ?_⟩
  have covered := callOperation_covers env kind asking.ready
  rw [asking.stack] at covered memory
  dsimp only at memory
  split at memory
  · next delivered =>
    have pasted := Memory.set_pasted covered asking.limit memory
    refine ⟨rfl, pasted.length ▸ asking.grows, fun _ _ => pasted.copied, fun i outside => ?_⟩
    rw [← asking.bytes, List.getD_eq_getElem?_getD, List.getD_eq_getElem?_getD]
    exact congrArg (·.getD 0) (pasted.kept i fun inside => outside ⟨delivered.2, inside⟩)
  · next lost =>
    refine ⟨rfl, ?_, fun plain delivered => absurd ⟨plain, delivered⟩ lost, fun i _ => ?_⟩
    · rw [memory]
      exact asking.grows
    · rw [memory]
      exact asking.bytes i

theorem step_heard (env : Env) (fit : Fit fr) (which : callKind (fr.contract.getOp fr.pc) = some kind) {later : Frame}
    (yields : (step env fr).Yields (Answers env) (.inl later)) :
    ∃ inv reply, (step env fr).Makes (Answers env) inv ∧ inv.kind = kind ∧ Answers env inv reply ∧ Heard kind fr reply later := by
  rcases Prog.Sat.cases (prepare_gently env fr) (fun _ => id) with ⟨⟨result, mid⟩, prepared, -⟩ | ⟨fault, prepared, -⟩
  · cases result with
    | error err =>
      unfold step at yields
      rw [prepared] at yields
      cases yields
    | ok operation =>
      obtain ⟨found, asks⟩ := prepare_asking fit prepared
      obtain rfl := lookup_callOperation which found
      have asking := asks (by cases kind <;> exact nofun)
      have consults : Consults kind (fun reply => Sum.elim (Heard kind fr reply) fun _ => True) (step env fr) := by
        unfold step
        rw [prepared]
        apply (callOperation_hears env kind asking.ready).bind
        intro reply p hears
        obtain ⟨later, finished, heard⟩ := asking.heard hears
        rw [finished]
        exact heard
      exact consults.yields yields
  · unfold step at yields
    rw [prepared] at yields
    exact yields.elim

-- The bytes of memory after `RETURNDATACOPY`.
structure CopiesReturnData (memOffset dataOffset length : Nat) (fr later : Frame) : Prop where
  grows : fr.memory.store.length ≤ later.memory.store.length
  copied : ∀ k < length, later.memory.store[memOffset + k]? = fr.evm.returnData[dataOffset + k]?
  kept : ∀ i, ¬ (memOffset ≤ i ∧ i < memOffset + length) → later.memory.store.getD i 0 = fr.memory.store.getD i 0

theorem lookup_returnDataCopy (found : (jumpTable env).lookup 0x3e = some operation) :
    operation = sized opReturnDataCopy gasReturnDataCopy 3 0 memoryReturnDataCopy := by
  unfold jumpTable at found
  repeat' split at found
  all_goals first
    | exact (Option.some.inj found).symm
    | cases found

section Copy

variable {memOffset dataOffset length : Nat} {rest : Stack}

omit [Crypto] in
theorem pop_bind {α : Type} {word : Int} (stack : fr.stack = word :: rest) (next : Int → Exec α) :
    (pop >>= next) fr = next word { fr with stack := rest } := by
  simp only [bind_apply, pop, stack, Prog.bind_ret]

omit [Crypto] in
theorem get_bind {α : Type} (next : Frame → Exec α) : (Exec.get >>= next) fr = next fr fr := rfl

omit [Crypto] in
theorem memorySet_sets {offset size : Nat} {value : Bytes} {memory : Memory} (set : fr.memory.set offset size value = .ok memory) :
    ∃ last, memorySet offset size value fr = .ret (.ok (), last) ∧ last.memory = memory := by
  obtain ⟨mid, recorded, same, -⟩ := record_keeps offset size fr
  unfold memorySet
  rw [bind_of_returned recorded]
  unfold changeMemory
  rw [same]
  dsimp only
  rw [set]
  exact ⟨_, rfl, rfl⟩

omit [Crypto] in
theorem opReturnDataCopy_fails (stack : fr.stack = (memOffset : Int) :: (dataOffset : Int) :: (length : Int) :: rest)
    (outside : ¬ dataOffset + length ≤ fr.evm.returnData.length) :
    opReturnDataCopy fr = .ret (.error .returnDataOutOfBounds, { fr with stack := rest }) := by
  have past :
    (!isUint64 ((dataOffset : Int) + length) || decide (fr.evm.returnData.length < uint64 ((dataOffset : Int) + length))) =
      true := by
    -- The sum is exact, so it either leaves 64 bits or is past the end.
    by_cases fits : isUint64 ((dataOffset : Int) + length) = true
    · have range := (isUint64_iff _).mp fits
      have stop := uint64_eq range.1 range.2
      rw [Bool.or_eq_true, decide_eq_true_eq]
      exact .inr (by omega)
    · simp [fits]
  unfold opReturnDataCopy
  rw [pop_bind stack, pop_bind rfl, pop_bind rfl, get_bind]
  dsimp only
  rw [if_pos past]
  rfl

omit [Crypto] in
theorem opReturnDataCopy_copies (stack : fr.stack = (memOffset : Int) :: (dataOffset : Int) :: (length : Int) :: rest)
    (small : fr.evm.returnData.length < 2 ^ 63) (inside : dataOffset + length ≤ fr.evm.returnData.length)
    (covered : Covered memOffset length fr.memory) (limit : fr.memory.store.length ≤ memoryLimit) :
    ∃ last, opReturnDataCopy fr = .ret (.ok [], last) ∧
      Pasted memOffset length ((fr.evm.returnData.drop dataOffset).take length) fr.memory last.memory := by
  obtain ⟨memory, set, -⟩ := Memory.set_covered (covered.uint64 limit) limit ((fr.evm.returnData.drop dataOffset).take length)
  have range : (0 : Int) ≤ dataOffset + length ∧ (dataOffset + length : Int) < 2 ^ 64 := by omega
  have stop : uint64 ((dataOffset : Int) + length) = dataOffset + length := by
    have exact' := uint64_eq range.1 range.2
    omega
  have start : uint64 (dataOffset : Int) = dataOffset := Int.ofNat.inj (uint64_eq (by omega) (by omega))
  have within :
    ¬ (!isUint64 ((dataOffset : Int) + length) || decide (fr.evm.returnData.length < uint64 ((dataOffset : Int) + length))) =
      true := by
    rw [(isUint64_iff _).mpr range, stop]
    simpa using inside
  have cut : slice fr.evm.returnData (uint64 (dataOffset : Int)) (uint64 ((dataOffset : Int) + length)) =
      .ok ((fr.evm.returnData.drop dataOffset).take length) := by
    rw [start, stop, slice, if_pos ⟨by omega, inside⟩, Nat.add_sub_cancel_left]
  unfold opReturnDataCopy
  rw [pop_bind stack, pop_bind rfl, pop_bind rfl, get_bind]
  dsimp only
  rw [if_neg within, cut, bind_of_returned rfl]
  obtain ⟨last, changed, same⟩ := @memorySet_sets { fr with stack := rest } _ _ _ _ set
  exact ⟨last, by rw [bind_of_returned changed]; rfl, same ▸ Memory.set_pasted covered limit set⟩

theorem step_returnDataCopy (fit : Fit fr) (op : fr.contract.getOp fr.pc = 0x3e)
    (stack : fr.stack = (memOffset : Int) :: (dataOffset : Int) :: (length : Int) :: rest)
    (small : fr.evm.returnData.length < 2 ^ 63) (prepared : prepare env fr = .ret (.ok operation, mid)) :
    if dataOffset + length ≤ fr.evm.returnData.length then
      ∃ later, step env fr = .ret (.inl later) ∧ CopiesReturnData memOffset dataOffset length fr later
    else ∃ last, step env fr = .ret (.inr last) ∧ last.err = some .returnDataOutOfBounds := by
  obtain ⟨found, asks⟩ := prepare_asking fit prepared
  rw [op] at found
  obtain rfl := lookup_returnDataCopy found
  have asking := asks nofun
  have shape := asking.stack.trans stack
  unfold step
  rw [prepared]
  split
  · next inside =>
    rw [← asking.returnData] at inside small
    have covered : Covered memOffset length mid.memory := (asking.ready.fits _ rfl).range (by rw [shape]; rfl) (by rw [shape]; rfl)
    obtain ⟨last, copies, pasted⟩ := opReturnDataCopy_copies shape small inside covered asking.limit
    refine ⟨{ last with pc := add64 last.pc 1 }, ?_, pasted.length ▸ asking.grows, fun k below => ?_, fun i outside => ?_⟩
    · show (opReturnDataCopy mid).bind _ = _
      rw [copies]
      rfl
    · have total : ((mid.evm.returnData.drop dataOffset).take length).length = length := by
        rw [List.length_take, List.length_drop]
        omega
      obtain ⟨i, place, byte⟩ := pasted.copied k (by omega) (by omega)
      obtain rfl : i = memOffset + k := by omega
      rw [byte, List.getElem?_take_of_lt below, List.getElem?_drop, asking.returnData]
    · rw [← asking.bytes, List.getD_eq_getElem?_getD, List.getD_eq_getElem?_getD]
      exact congrArg (·.getD 0) (pasted.kept i (by omega))
  · next outside =>
    rw [← asking.returnData] at outside
    refine ⟨Frame.leave { mid with stack := rest } [] (some .returnDataOutOfBounds), ?_, rfl⟩
    show (opReturnDataCopy mid).bind _ = _
    rw [opReturnDataCopy_fails shape outside]
    rfl

end Copy

end Instructions

section Callees

variable [Crypto]

def RunRes.Silent (res : RunRes) : Prop := ¬ Delivers res.err → res.ret = []

omit [Crypto] in
theorem finish_silent (operation : Operation) (result : Except Err Bytes) (fr : Frame) :
    Sum.elim (fun _ => True) RunRes.Silent (finish operation result fr) := by
  obtain ⟨returnData, pc, cases⟩ := finish_cases operation result fr
  rcases cases with ⟨err, rfl, shape⟩ | ⟨res, rfl, -, shape⟩ | ⟨res, rfl, -, -, shape⟩ | ⟨res, rfl, -, -, -, shape⟩
  · exact shape ▸ fun _ => rfl
  · exact shape ▸ fun lost => absurd (.inr rfl) lost
  · exact shape ▸ fun lost => absurd (.inl rfl) lost
  · exact shape ▸ trivial

theorem returns_silent {request : RunReq} {res : RunRes} (returned : (machine env).Returns request res) : res.Silent := by
  let silent : Spec RunReq RunRes Panic := ⟨fun _ => True, fun _ res => res.Silent, fun _ => True⟩
  have invariant : (machine env).Invariant silent fun _ _ => True := by
    constructor
    · intro request _
      show Sum.elim _ _ (start request)
      unfold start
      dsimp only
      split
      · exact fun lost => absurd (.inl rfl) lost
      · trivial
    · intro request fr _
      have stepped : (step env fr).Sat anySpec (Sum.elim (fun _ => True) RunRes.Silent) := by
        unfold step
        apply Prog.Sat.bind (Prog.sat_of_lenient (fun _ => trivial) (fun _ => trivial) _)
        rintro ⟨result, mid⟩ _
        cases result with
        | error err => exact fun _ => rfl
        | ok operation =>
          apply Prog.Sat.bind (Prog.sat_of_lenient (fun _ => trivial) (fun _ => trivial) _)
          rintro ⟨result, fr'⟩ _
          exact finish_silent operation result fr'
      apply stepped.inline
      · intro inv _
        exact Prog.sat_of_lenient (fun _ => trivial) (fun _ => trivial) _
      · exact fun _ _ => trivial
  exact invariant.returns trivial returned

def Rebuffed (err : Option Err) : Prop :=
  err = some .depth ∨ err = some .insufficientBalance ∨ err = some .contractAddressCollision

def Invocation.target (inv : Invocation) : Address := if inv.kind.creates then inv.derived else inv.addr

-- With `NoRecursion`, nothing is executed for a call by a contract.
def Invocation.barred (env : Env) (inv : Invocation) : Bool := env.noRecursion && inv.evm.depth > 0

structure Natively (env : Env) (inv : Invocation) (answer : Except Err Bytes) : Prop where
  unbarred : inv.barred env = false
  runs : ∃ p contract after, precompiles env inv.target = some p ∧ contract.gas = inv.gas ∧
    runPrecompiledContract p (if inv.kind.creates then [] else inv.input) contract = .ok (answer, after)

-- The end of the callee of a call that got this reply: its error, if any, and its output.
inductive Callee (env : Env) (inv : Invocation) (reply : Reply) : Option Err → Bytes → Prop where
  -- The depth, the balance, or an address that is taken.
  | refused (refused : Rebuffed reply.err) : Callee env inv reply reply.err []
  -- No code is executed, by `NoRecursion` or since the account does not exist.
  | idle (fine : reply.err = none)
      (idles : inv.barred env = true ∨ precompiles env inv.target = none ∧ entry env inv = .ret reply) :
        Callee env inv reply none []
  | native {out : Bytes} (admitted : ¬ Rebuffed reply.err) (natively : Natively env inv (.ok out)) : Callee env inv reply none out
  | nativeFails {err : Err} (admitted : ¬ Rebuffed reply.err) (natively : Natively env inv (.error err)) :
      Callee env inv reply (some err) []
  | interpreted {request : RunReq} {res : RunRes} (made : (entry env inv).Makes (machine env).Returns request)
      (returned : (machine env).Returns request res) : Callee env inv reply res.err res.ret

theorem Callee.silent {err : Option Err} {out : Bytes} (callee : Callee env inv reply err out)
    (lost : ¬ Delivers err) : out = [] := by
  cases callee with
  | refused | idle | nativeFails => rfl
  | native => exact absurd (.inl rfl) lost
  | interpreted made returned => exact returns_silent returned lost

structure Reports (inv : Invocation) (err : Option Err) (ret : Bytes) (reply : Reply) : Prop where
  ret : reply.ret = ret
  err : reply.err = err ∨
    inv.kind.creates = true ∧ err = none ∧ (reply.err = some .maxCodeSizeExceeded ∨ reply.err = some .codeStoreOutOfGas)

inductive Body (env : Env) (inv : Invocation) : Prog RunReq RunRes Panic Reply → Prop where
  | replies {reply : Reply} (empty : reply.ret = [])
      (why : Rebuffed reply.err ∨ reply.err = none ∧ (inv.barred env = true ∨ precompiles env inv.target = none)) :
        Body env inv (.ret reply)
  | panics (fault : Panic) : Body env inv (.panic fault)
  | runs {request : RunReq} {next : RunRes → Prog RunReq RunRes Panic Reply} (unbarred : inv.barred env = false)
      (addr : request.contract.codeAddr = some inv.target) (gas : request.contract.gas = inv.gas)
      (input : request.input = if inv.kind.creates then [] else inv.input)
      (settles : ∀ res, (next res).Sat ⟨fun _ => False, fun _ _ => True, fun _ => True⟩ (Reports inv res.err res.ret)) :
      Body env inv ((run env request).bind next)

omit [Crypto] in
theorem settle_reports (snapshot : Nat) (suicides : List Destroyed) (res : RunRes) :
    (settle snapshot suicides res).Sat ⟨fun _ => False, fun _ _ => True, fun _ => True⟩ (Reports inv res.err res.ret) := by
  apply settle_sat
  · exact fun ended => ⟨rfl, .inl ended.symm⟩
  · exact fun err db ended _ => ⟨rfl, .inl ended.symm⟩
  · exact fun _ _ => trivial

theorem settleCreate_reports (creates : inv.kind.creates = true) (address : Address) (snapshot : Nat) (suicides : List Destroyed)
    (res : RunRes) :
    (settleCreate env address snapshot suicides res).Sat ⟨fun _ => False, fun _ _ => True, fun _ => True⟩
    (Reports inv res.err res.ret) := by
  have deposited : ∀ exceeded, (depositCode address exceeded res).ret = res.ret ∧
    ((depositCode address exceeded res).err = res.err ∨
      res.err = none ∧ (depositCode address exceeded res).err = some .codeStoreOutOfGas) := by
    intro exceeded
    unfold depositCode
    split
    · next fine =>
      split
      · exact ⟨rfl, .inl rfl⟩
      · exact ⟨rfl, .inr ⟨fine.1, rfl⟩⟩
    · exact ⟨rfl, .inl rfl⟩
  unfold settleCreate
  dsimp only
  generalize (env.isEIP158 && decide (res.ret.length > MaxCodeSize)) = exceeded
  obtain ⟨ret, err⟩ := deposited exceeded
  generalize depositCode address exceeded res = after at ret err
  have ended : (if (exceeded && decide (after.err = none)) = true then some .maxCodeSizeExceeded else after.err) = res.err ∨
      inv.kind.creates = true ∧ res.err = none ∧
        ((if (exceeded && decide (after.err = none)) = true then some .maxCodeSizeExceeded else after.err) =
          some .maxCodeSizeExceeded ∨
          (if (exceeded && decide (after.err = none)) = true then some .maxCodeSizeExceeded else after.err) =
            some Err.codeStoreOutOfGas) := by
    split
    · next both =>
      simp only [Bool.and_eq_true, decide_eq_true_eq] at both
      rcases err with same | ⟨-, failed⟩
      · exact .inr ⟨creates, same.symm.trans both.2, .inl rfl⟩
      · rw [both.2] at failed
        cases failed
    · rcases err with same | ⟨fine, failed⟩
      · exact .inl same
      · exact .inr ⟨creates, fine, .inr failed⟩
  split
  · split
    · trivial
    · exact ⟨ret, ended⟩
  · exact ⟨ret, ended⟩

omit [Crypto] in
theorem admitCall_cases (env : Env) (inv : Invocation) (checkBalance : Bool) :
    (∃ reply, admitCall env inv checkBalance = .error reply ∧ reply.ret = [] ∧
      (Rebuffed reply.err ∨ reply.err = none ∧ inv.barred env = true)) ∨
    ∃ evm, admitCall env inv checkBalance = .ok evm ∧ inv.barred env = false := by
  unfold admitCall
  split
  · next barred => exact .inl ⟨_, rfl, rfl, .inr ⟨rfl, barred⟩⟩
  · next free =>
    have unbarred : inv.barred env = false := Bool.eq_false_iff.mpr free
    repeat' split
    · exact .inl ⟨_, rfl, rfl, .inl (.inl rfl)⟩
    · exact .inr ⟨_, rfl, unbarred⟩
    · exact .inl ⟨_, rfl, rfl, .inl (.inr (.inl rfl))⟩
    · exact .inr ⟨_, rfl, unbarred⟩

theorem callFrame_body (plain : inv.kind.creates = false) (unbarred : inv.barred env = false) (evm : EVM) (snapshot : Nat)
    {contract : Contract} (gas : contract.gas = inv.gas) (readOnly : Bool) :
    Body env inv (callFrame env inv evm snapshot contract readOnly) := by
  have target : inv.target = inv.addr := by simp [Invocation.target, plain]
  unfold callFrame
  apply Body.runs unbarred
  · rw [target]
    rfl
  · exact gas
  · simp [plain]
  · exact fun res => settle_reports _ _ res

theorem createAt_body (creates : inv.kind.creates = true) {made : Invocation} (depth : made.evm.depth = inv.evm.depth)
    (gas : made.gas = inv.gas) (codeHash : Hash) {address : Address} (target : inv.target = address) :
    Body env inv (EVM.createAt env made codeHash address) := by
  unfold EVM.createAt
  dsimp only
  split
  · exact .replies rfl (.inl (.inl rfl))
  · split
    · exact .replies rfl (.inl (.inr (.inl rfl)))
    · split
      · exact .replies rfl (.inl (.inr (.inr rfl)))
      · split
        · next skipped =>
          rw [depth] at skipped
          exact .replies rfl (.inr ⟨rfl, .inl skipped⟩)
        · next free =>
          rw [depth] at free
          apply Body.runs (Bool.eq_false_iff.mpr free)
          · rw [target]
          · exact gas
          · simp [creates]
          · exact fun res => settleCreate_reports creates _ _ _ res

theorem admitCall_body (checkBalance : Bool) {next : EVM → Prog RunReq RunRes Panic Reply}
    (admitted : ∀ evm, inv.barred env = false → Body env inv (next evm)) :
    Body env inv (match admitCall env inv checkBalance with
      | .error reply => .ret reply
      | .ok evm => next evm) := by
  rcases admitCall_cases env inv checkBalance with ⟨reply, refused, empty, why⟩ | ⟨evm, admits, unbarred⟩
  · rw [refused]
    exact .replies empty (why.imp_right fun idle => ⟨idle.1, .inl idle.2⟩)
  · rw [admits]
    exact admitted evm unbarred

theorem entry_body (env : Env) (inv : Invocation) : Body env inv (entry env inv) := by
  unfold entry
  cases kind : inv.kind with
  | call =>
    have plain : inv.kind.creates = false := by rw [kind]; rfl
    have target : inv.target = inv.addr := by simp [Invocation.target, plain]
    refine admitCall_body true fun evm unbarred => ?_
    dsimp only
    split
    · -- An account that does not exist is not called, except for a precompiled contract.
      next missing =>
      simp only [Bool.and_eq_true, Option.isNone_iff_eq_none] at missing
      refine .replies rfl (.inr ⟨rfl, .inr ?_⟩)
      rw [target]
      exact missing.1.1.2
    · exact callFrame_body plain unbarred _ _ rfl _
  | callCode => exact admitCall_body true fun evm unbarred => callFrame_body (by rw [kind]; rfl) unbarred _ _ rfl _
  | delegateCall =>
    refine admitCall_body false fun evm unbarred => ?_
    cases inv.caller with
    | accountRef a => exact .panics _
    | contract parent => exact callFrame_body (by rw [kind]; rfl) unbarred _ _ rfl _
  | staticCall => exact admitCall_body false fun evm unbarred => callFrame_body (by rw [kind]; rfl) unbarred _ _ rfl _
  | create =>
    dsimp only
    unfold EVM.create
    apply createAt_body (by rw [kind]; rfl)
    · rfl
    · rfl
    · rw [Invocation.target, Invocation.derived, kind]
      rfl
  | create2 =>
    dsimp only
    unfold EVM.create2
    apply createAt_body (by rw [kind]; rfl)
    · rfl
    · rfl
    · simp [Invocation.target, Invocation.derived, kind, CallKind.creates]

omit [Crypto] in
theorem Reports.admitted {err : Option Err} {out : Bytes} (reports : Reports inv err out reply)
    (known : ∀ e, err = some e → e.ofRun = true) : ¬ Rebuffed reply.err := by
  rcases reports.err with same | ⟨-, -, exceeded | unpaid⟩
  · rw [same]
    rintro (rfl | rfl | rfl)
    · cases known _ rfl
    · cases known _ rfl
    · cases known _ rfl
  · rw [exceeded]
    rintro (h | h | h) <;> cases h
  · rw [unpaid]
    rintro (h | h | h) <;> cases h

theorem answers_callee (answers : Answers env inv reply) :
    ∃ err out, Callee env inv reply err out ∧ Reports inv err out reply := by
  obtain ⟨fuel, invoked⟩ := answers
  have yields : (entry env inv).Yields (machine env).Returns reply :=
    Prog.yields_of_handle (fun _ _ ran => ⟨fuel, ran⟩) invoked
  have body := entry_body env inv
  generalize shape : entry env inv = program at body yields
  cases body with
  | replies empty why =>
    cases yields
    rcases why with refused | ⟨fine, barred | foreign⟩
    · exact ⟨_, _, .refused refused, empty, .inl rfl⟩
    · exact ⟨_, _, .idle fine (.inl barred), empty, .inl fine⟩
    · exact ⟨_, _, .idle fine (.inr ⟨foreign, shape⟩), empty, .inl fine⟩
  | panics fault => exact yields.elim
  | @runs request next unbarred addr gas input settles =>
    have heard : ∀ res, (next res).Yields (machine env).Returns reply → Reports inv res.err res.ret reply :=
      fun res rest => (settles res).yields (fun _ _ none _ => none.elim) rest
    cases found : precompiles env inv.target with
    | none =>
      have ran : run env request = .call request .ret := by simp [run, addr, found]
      rw [ran] at yields shape
      obtain ⟨res, returned, rest⟩ := yields
      refine ⟨_, _, .interpreted ?_ returned, heard res rest⟩
      rw [shape]
      exact .inl rfl
    | some p =>
      cases native : runPrecompiledContract p request.input request.contract with
      | error fault =>
        have ran : run env request = .panic fault := by simp [run, addr, found, native]
        rw [ran] at yields
        exact yields.elim
      | ok result =>
        obtain ⟨answer, after⟩ := result
        have natively : Natively env inv answer :=
          ⟨unbarred, p, request.contract, after, found, gas, by rw [← input]; exact native⟩
        have known := (runPrecompiledContract_gas native).2.1
        cases answer with
        | ok out =>
          have ran : run env request = .ret ⟨request.evm, after, out, none⟩ := by simp [run, addr, found, native]
          rw [ran] at yields
          have reports := heard _ yields
          exact ⟨_, _, .native (reports.admitted (by rintro _ ⟨⟩)) natively, reports⟩
        | error err =>
          have ran : run env request = .ret ⟨request.evm, after, [], some err⟩ := by simp [run, addr, found, native]
          rw [ran] at yields
          have reports := heard _ yields
          refine ⟨_, _, .nativeFails (reports.admitted ?_) natively, reports⟩
          rintro e same
          exact known e (congrArg Except.error (Option.some.inj same))

structure Receives (kind : CallKind) (fr : Frame) (err : Option Err) (out : Bytes) (later : Frame) : Prop where
  returnData : later.evm.returnData = if err = some .executionReverted ∨ err = none ∧ kind.creates = false then out else []
  grows : fr.memory.store.length ≤ later.memory.store.length
  copied : kind.creates = false → Delivers err → ∀ k : Nat, k < out.length → (k : Int) < (kind.window fr.stack).2 →
    ∃ i : Nat, (i : Int) = (kind.window fr.stack).1 + k ∧ later.memory.store[i]? = out[k]?
  kept : ∀ i : Nat, ¬ (kind.creates = false ∧ Delivers err ∧ (kind.window fr.stack).1 ≤ i ∧
      (i : Int) < (kind.window fr.stack).1 + min (kind.window fr.stack).2 out.length) →
    later.memory.store.getD i 0 = fr.memory.store.getD i 0

theorem Heard.receives {fr later : Frame} {err : Option Err} {out : Bytes} (heard : Heard inv.kind fr reply later)
    (callee : Callee env inv reply err out) (reports : Reports inv err out reply) : Receives inv.kind fr err out later := by
  obtain ⟨rfl, ended⟩ := reports
  cases creates : inv.kind.creates with
  | false =>
    have same : reply.err = err := by simpa [creates] using ended
    subst same
    refine ⟨?_, heard.grows, heard.copied, fun i outside => heard.kept i fun inside => outside ⟨creates, inside⟩⟩
    rw [heard.returnData, if_neg (by simp [creates])]
    split
    · rfl
    · next lost => exact callee.silent fun delivers => lost (delivers.symm.imp_right fun fine => ⟨fine, creates⟩)
  | true =>
    have empty : (inv.kind.window fr.stack) = (0, 0) := by
      cases kind : inv.kind with
      | create | create2 => rfl
      | _ => simp [kind, CallKind.creates] at creates
    refine ⟨?_, heard.grows, fun plain => absurd (creates.symm.trans plain) (by decide), fun i _ => heard.kept i ?_⟩
    · rw [heard.returnData]
      rcases ended with same | ⟨-, rfl, exceeded | unpaid⟩
      · rw [same]
        simp [creates]
      · simp [creates, exceeded]
      · simp [creates, unpaid]
    · rw [empty]
      rintro ⟨-, -, below⟩
      dsimp only at below
      omega

theorem return_data (env : Env) (root : Invocation) (small : root.gas < 2 ^ 64) {request : RunReq} {fr : Frame}
    {outer : List (RunReq × Frame)} (running : Running env root ((request, fr) :: outer)) :
    (∀ kind later, callKind (fr.contract.getOp fr.pc) = some kind → (step env fr).Yields (Answers env) (.inl later) →
      ∃ inv reply err out, (step env fr).Makes (Answers env) inv ∧ inv.kind = kind ∧ Answers env inv reply ∧
        Callee env inv reply err out ∧ Receives kind fr err out later) ∧
    (fr.contract.getOp fr.pc = 0x3e → ∀ (memOffset dataOffset length : Nat) (rest : Stack),
      fr.stack = (memOffset : Int) :: (dataOffset : Int) :: (length : Int) :: rest → fr.evm.returnData.length < 2 ^ 63 →
      ∀ operation mid, prepare env fr = .ret (.ok operation, mid) →
        if dataOffset + length ≤ fr.evm.returnData.length then
          ∃ later, step env fr = .ret (.inl later) ∧ CopiesReturnData memOffset dataOffset length fr later
        else ∃ last, step env fr = .ret (.inr last) ∧ last.err = some .returnDataOutOfBounds) := by
  have fit : Fit fr := ((bounded_upholds env).running small running (request, fr) (List.mem_cons_self ..)).2.fit
  constructor
  · intro kind later which yields
    obtain ⟨inv, reply, makes, rfl, answers, heard⟩ := step_heard env fit which yields
    obtain ⟨err, out, callee, reports⟩ := answers_callee answers
    exact ⟨inv, reply, err, out, makes, rfl, answers, callee, heard.receives callee reports⟩
  · intro op memOffset dataOffset length rest stack short operation mid prepared
    exact step_returnDataCopy fit op stack short prepared

def answeredAtOnce (env : Env) (fr : Frame) : Option Frame :=
  match step env fr with
  | .call inv resume =>
    (replyOf (invoke env 0 inv)).bind fun reply =>
      match resume reply with
      | .ret (.inl later) => some later
      | _ => none
  | _ => none

theorem answeredAtOnce_yields {fr later : Frame} (answered : answeredAtOnce env fr = some later) :
    (step env fr).Yields (Answers env) (.inl later) := by
  unfold answeredAtOnce at answered
  split at answered
  · next inv resume stepped =>
    cases invoked : invoke env 0 inv with
    | ret reply =>
      rw [invoked] at answered
      simp only [replyOf, Option.bind_some] at answered
      split at answered
      · next reached resumed =>
        cases answered
        rw [stepped]
        exact ⟨reply, ⟨0, invoked⟩, by rw [resumed]; rfl⟩
      · cases answered
    | panic fault =>
      rw [invoked] at answered
      cases answered
    | outOfFuel =>
      rw [invoked] at answered
      cases answered
  · cases answered

theorem follow_running {root : Invocation} {request : RunReq} {first : Frame} {outer : List (RunReq × Frame)}
    (running : Running env root ((request, first) :: outer)) (count : Nat) {charges : List Nat} {fr : Frame}
    (followed : follow env count first = some (charges, fr)) : Running env root ((request, fr) :: outer) := by
  induction count generalizing charges fr with
  | zero =>
    cases followed
    exact running
  | succ count ih =>
    obtain ⟨⟨before, mid⟩, reached, stepped⟩ := Option.bind_eq_some_iff.mp followed
    dsimp only at stepped
    split at stepped
    · next later shape =>
      cases stepped
      obtain ⟨start, made, active⟩ := ih reached
      refine ⟨start, made, active.next ?_⟩
      show ((step env mid).inline (entry env)).Yields _ _
      rw [shape]
      rfl
    · cases stepped

end Callees

attribute [local instance] Crypto.sample

-- Stores 5 and has it copied by the contract at 4, to the second word of the memory.
def callsIdentity : Bytes :=
  [0x60, 5, 0x60, 0, 0x52, 0x60, 32, 0x60, 32, 0x60, 32, 0x60, 0, 0x60, 0, 0x60, 4, 0x60, 100, 0xf1]

theorem return_data_identity : ∃ request fr later err out, Running sampleEnv (sampleCall .call callsIdentity) [(request, fr)] ∧
    (step sampleEnv fr).Yields (Answers sampleEnv) (.inl later) ∧ Receives .call fr err out later ∧
    later.evm.returnData = List.replicate 31 0 ++ [5] ∧ later.memory.store.drop 32 = List.replicate 31 0 ++ [5] := by
  obtain ⟨request, first, running, computed⟩ : ∃ request first, Running sampleEnv (sampleCall .call callsIdentity)
    [(request, first)] ∧
      ((follow sampleEnv 10 first).any fun q => callKind (q.2.contract.getOp q.2.pc) == some .call &&
        (answeredAtOnce sampleEnv q.2).any fun later =>
          later.evm.returnData == List.replicate 31 0 ++ [5] && later.memory.store.drop 32 == List.replicate 31 0 ++ [5]) = true :=
    firstRun_running (by decide +kernel)
  obtain ⟨⟨charges, fr⟩, followed, holds⟩ := (Option.any_eq_true _ _).mp computed
  rw [Bool.and_eq_true] at holds
  obtain ⟨later, answered, bytes⟩ := (Option.any_eq_true _ _).mp holds.2
  rw [Bool.and_eq_true] at bytes
  have reached := follow_running running 10 followed
  have yields := answeredAtOnce_yields answered
  obtain ⟨inv, reply, err, out, -, -, -, -, receives⟩ :=
    (return_data sampleEnv (sampleCall .call callsIdentity) (by decide) reached).1 .call later (eq_of_beq holds.1) yields
  exact ⟨request, fr, later, err, out, reached, yields, receives, eq_of_beq bytes.1, eq_of_beq bytes.2⟩

end CuteEVM
