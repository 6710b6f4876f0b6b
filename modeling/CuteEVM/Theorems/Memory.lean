import CuteEVM.Proofs.Metering
import CuteEVM.Theorems.Gas

set_option autoImplicit false

-- What a frame has paid for its memory is the price of the words that it has.

namespace CuteEVM

open CallTree Exec

section Course

variable [Crypto]

def memoryCharge (env : Env) (fr : Frame) : Nat :=
  match (jumpTable env).lookup (fr.contract.getOp fr.pc) with
  | none => 0
  | some operation =>
    match requiredMemory operation fr with
    | .ret (.ok size, _) => ((memoryFee fr.memory size).map Prod.fst).getD 0
    | _ => 0

-- Instructions that a frame executes one after the other, with the charges for memory, the last one first. Calls may
-- be answered in any way.
inductive Course (env : Env) (first : Frame) : List Nat → Frame → Prop where
  | start : Course env first [] first
  | next {charges : List Nat} {fr later : Frame} (course : Course env first charges fr)
      (yields : (step env fr).Yields (fun _ _ => True) (.inl later)) : Course env first (memoryCharge env fr :: charges) later

variable {fr fr' : Frame}

section Rent

omit [Crypto]

theorem pay_returned {cost : Nat} {done : Unit} (returned : pay cost fr = .ret (.ok done, fr')) :
    cost ≤ fr.contract.gas ∧ fr' = fr.charge cost := by
  unfold pay at returned
  obtain ⟨paid, fr₁, used, rest⟩ := bind_returned returned
  cases used
  unfold Contract.useGas at rest
  split at rest
  · cases rest
  · next enough =>
    cases rest
    exact ⟨Nat.le_of_not_lt enough, rfl⟩

theorem orOutOfGas_returned {gas : Exec Nat} {cost : Nat} (returned : orOutOfGas gas fr = .ret (.ok cost, fr')) :
    gas fr = .ret (.ok cost, fr') := by
  unfold orOutOfGas at returned
  cases body : gas fr with
  | ret reached =>
    obtain ⟨result, fr₁⟩ := reached
    rw [body] at returned
    cases result with
    | error err => cases returned
    | ok value =>
      cases returned
      rfl
  | panic fault =>
    rw [body] at returned
    cases returned
  | call request next =>
    rw [body] at returned
    cases returned

theorem requiredMemory_returned {operation : Operation} {size : Nat} (metering : Metering operation)
    (returned : requiredMemory operation fr = .ret (.ok size, fr')) :
    fr' = fr ∧ size % 32 = 0 ∧ ∀ other :
      Frame, other.stack = fr.stack → requiredMemory operation other = .ret (.ok size, other) := by
  unfold requiredMemory at returned ⊢
  cases metering with
  | free unsized gas acts =>
    rw [unsized] at returned ⊢
    cases returned
    exact ⟨rfl, rfl, fun _ _ => rfl⟩
  | paid sized metered asks meters acts =>
    rw [sized] at returned ⊢
    obtain ⟨⟨memSize, overflow⟩, fr₁, asked, rest⟩ := bind_returned returned
    obtain ⟨rfl, again⟩ := asks _ _ _ asked
    dsimp only at rest
    cases overflow with
    | true => cases rest
    | false =>
      have product := @checked_mul fr₁ (toWordSize memSize) 32
      rw [if_neg (by decide), product] at rest
      split at rest
      · next small =>
        cases rest
        refine ⟨rfl, by omega, fun other same => ?_⟩
        dsimp only
        rw [bind_of_returned (again other same)]
        dsimp only
        rw [if_neg (by decide), checked_mul, if_pos small]
      · cases rest

theorem resize_length (m : Memory) (size : Nat) :
    (if size > 0 then m.resize size else m).store.length = max m.store.length size := by
  unfold Memory.resize
  split
  · split
    · rw [List.length_append, List.length_replicate]
      omega
    · omega
  · omega

theorem resize_cost (m : Memory) (size : Nat) : (if size > 0 then m.resize size else m).lastGasCost = m.lastGasCost := by
  unfold Memory.resize
  repeat' split
  all_goals rfl

theorem Memory.Paid.resize {m m' : Memory} (paid : m.Paid) {size fee : Nat} (whole : size % 32 = 0)
    (priced : memoryFee m size = some (fee, m')) :
    (if size > 0 then m'.resize size else m').Paid ∧ (if size > 0 then m'.resize size else m').words = m.grown size ∧
      memoryPrice m.words + fee = memoryPrice (m.grown size) := by
  have small := (memoryFee_some priced).2.2
  rw [memoryFee_exact paid small] at priced
  cases priced
  have larger : memoryPrice m.words ≤ memoryPrice (m.grown size) := memoryPrice_mono (Nat.le_max_left _ _)
  have multiple := paid.whole
  have words : max m.store.length size / 32 = m.grown size := by
    unfold Memory.grown Memory.words wordsFor
    omega
  refine ⟨⟨?_, ?_⟩, ?_, ?_⟩
  · rw [resize_length]
    dsimp only
    omega
  · rw [resize_cost, resize_length, words]
  · rw [Memory.words, resize_length, words]
  · unfold Memory.expansion
    omega

theorem Memory.Paid.of_meter {m m' : Memory} (same : m'.meter = m.meter) (paid : m.Paid) : m'.Paid := by
  obtain ⟨length, cost⟩ := Prod.mk.inj same
  exact ⟨by rw [length]; exact paid.whole, by rw [length, cost]; exact paid.cost⟩

theorem Memory.words_of_meter {m m' : Memory} (same : m'.meter = m.meter) : m'.words = m.words :=
  congrArg (· / 32) (Prod.mk.inj same).1

theorem KeepsMeter.returned {α : Type} {action : Exec α} {value : α} (keeps : KeepsMeter action)
    (returned : action fr = .ret (.ok value, fr')) : fr'.memory.meter = fr.memory.meter := by
  have kept := keeps fr
  rw [returned] at kept
  exact kept

-- What is paid for memory when an instruction is admitted, and the memory on which it is executed.
structure Rented (operation : Operation) (fr mid : Frame) (size fee : Nat) : Prop where
  required : requiredMemory operation fr = .ret (.ok size, fr)
  priced : ∃ memory, memoryFee fr.memory size = some (fee, memory) ∧
    mid.memory.meter = (if size > 0 then memory.resize size else memory).meter
  whole : size % 32 = 0
  charged : operation.memorySize ≠ none → mid.contract.gas + fee ≤ fr.contract.gas
  free : operation.memorySize = none → fee = 0

theorem payDynamic_rents {operation : Operation} {size : Nat} {done : Unit} (metering : Metering operation)
    (required : requiredMemory operation fr = .ret (.ok size, fr))
    (returned : payDynamic operation size fr = .ret (.ok done, fr')) :
    ∃ fee memory, memoryFee fr.memory size = some (fee, memory) ∧ fr'.memory.meter = memory.meter ∧
      (operation.memorySize ≠ none → fr'.contract.gas + fee ≤ fr.contract.gas) ∧ (operation.memorySize = none → fee = 0) := by
  unfold payDynamic at returned
  cases metering with
  | free unsized gas acts =>
    have zero : size = 0 := by
      simp only [requiredMemory, unsized] at required
      cases required
      rfl
    subst zero
    refine ⟨0, fr.memory, rfl, ?_, fun sized => absurd unsized sized, fun _ => rfl⟩
    cases dynamic : operation.dynamicGas with
    | none =>
      rw [dynamic] at returned
      cases returned
      rfl
    | some price =>
      rw [dynamic] at returned
      obtain ⟨cost, fr₁, priced, rest⟩ := bind_returned returned
      obtain ⟨-, rfl⟩ := pay_returned rest
      have kept := (gas price dynamic 0).returned (orOutOfGas_returned priced)
      exact kept
  | paid sized metered asks meters acts =>
    rw [metered] at returned
    obtain ⟨cost, fr₁, priced, rest⟩ := bind_returned returned
    obtain ⟨held, fee, memory, enough⟩ := meters _ _ _ _ (orOutOfGas_returned priced)
    obtain ⟨covered, rfl⟩ := pay_returned rest
    refine ⟨fee, fr₁.memory, memory, rfl, fun _ => ?_, fun unsized => absurd (sized.symm.trans unsized) (Option.some_ne_none _)⟩
    rw [← held]
    dsimp only
    omega

theorem admitOperation_parts {env : Env} {op : OpCode} {operation admitted : Operation} {mid : Frame}
    (returned : admitOperation env op operation fr = .ret (.ok admitted, mid)) :
    admitted = operation ∧ ∃ size asked paid, requiredMemory operation (fr.charge operation.constantGas) = .ret (.ok size, asked) ∧
      payDynamic operation size asked = .ret (.ok (), paid) ∧
      mid = if size > 0 then { paid with memory := paid.memory.resize size } else paid := by
  unfold admitOperation at returned
  obtain ⟨_, fr₁, first, rest₁⟩ := bind_returned returned
  obtain rfl := validateStack_stays first
  obtain ⟨_, fr₂, second, rest₂⟩ := bind_returned rest₁
  obtain rfl := enforceReadOnly_stays env second
  obtain ⟨_, fr₃, third, rest₃⟩ := bind_returned rest₂
  obtain ⟨-, rfl⟩ := pay_returned third
  obtain ⟨size, asked, fourth, rest₄⟩ := bind_returned rest₃
  obtain ⟨_, paid, fifth, rest₅⟩ := bind_returned rest₄
  obtain ⟨_, fr₆, sixth, rest₆⟩ := bind_returned rest₅
  cases sixth
  cases rest₆
  exact ⟨rfl, size, asked, paid, fourth, fifth, rfl⟩

theorem admitOperation_rents {env : Env} {op : OpCode} {operation admitted : Operation} {mid : Frame}
    (metering : Metering operation) (returned : admitOperation env op operation fr = .ret (.ok admitted, mid)) :
    admitted = operation ∧ ∃ size fee, Rented operation fr mid size fee := by
  obtain ⟨rfl, size, asked, paid, required, dynamic, rfl⟩ := admitOperation_parts returned
  obtain ⟨rfl, whole, again⟩ := requiredMemory_returned metering required
  obtain ⟨fee, memory, priced, meter, charged, free⟩ := payDynamic_rents metering (again _ rfl) dynamic
  refine ⟨rfl, size, fee, again _ rfl, ⟨memory, priced, ?_⟩, whole, fun sized => ?_, free⟩
  · obtain ⟨length, cost⟩ := Prod.mk.inj meter
    unfold Memory.meter
    rw [resize_length, resize_cost, ← length, ← cost, ← resize_length, ← resize_cost paid.memory size]
    split <;> rfl
  · have spent := charged sized
    dsimp only at spent
    split
    · dsimp only
      omega
    · show paid.contract.gas + fee ≤ _
      omega

end Rent

structure Provided (env : Env) (fr mid : Frame) : Prop where
  paid : mid.memory.Paid
  price : memoryPrice fr.memory.words + memoryCharge env fr = memoryPrice mid.memory.words
  grows : fr.memory.store.length ≤ mid.memory.store.length
  limit : mid.memory.store.length ≤ memoryLimit
  charged : mid.contract.gas + memoryCharge env fr ≤ fr.contract.gas

theorem prepare_provides {env : Env} {operation : Operation} {mid : Frame} (paid : fr.memory.Paid)
    (limit : fr.memory.store.length ≤ memoryLimit)
    (prepared : prepare env fr = .ret (.ok operation, mid)) : Provided env fr mid ∧ KeepsMeter operation.execute := by
  have admitted := prepare_sat env limit
  rw [prepared] at admitted
  obtain ⟨cls, admitted⟩ := admitted
  rw [prepare_found admitted.found] at prepared
  have metering := jumpTable_metering env _ (mem_of_lookup admitted.found)
  obtain ⟨-, size, fee, rented⟩ := admitOperation_rents metering prepared
  obtain ⟨memory, priced, meter⟩ := rented.priced
  have charge : memoryCharge env fr = fee := by
    simp only [memoryCharge, admitted.found, rented.required, priced, Option.map_some, Option.getD_some]
  obtain ⟨resized, words, price⟩ := paid.resize rented.whole priced
  have length : mid.memory.store.length = max fr.memory.store.length size := by
    rw [(Prod.mk.inj meter).1, resize_length, (memoryFee_some priced).1]
  have small := (memoryFee_some priced).2.2
  refine ⟨⟨resized.of_meter meter, ?_, by omega, by omega, ?_⟩, ?_⟩
  · rw [charge, price, ← words, Memory.words_of_meter meter]
  · rw [charge]
    by_cases sized : operation.memorySize = none
    · have gas := admitted.paid
      have zero := rented.free sized
      omega
    · exact rented.charged sized
  · cases metering with
    | free unsized gas acts => exact acts
    | paid sized metered asks meters acts => exact acts

structure Squared (fr : Frame) (spent : Nat) : Prop where
  paid : fr.memory.Paid
  limit : fr.memory.store.length ≤ memoryLimit
  spent : spent = memoryPrice fr.memory.words

theorem step_squared (env : Env) {spent : Nat} (squared : Squared fr spent) :
    (step env fr).Sat anySpec (Sum.elim (fun later => Squared later (spent + memoryCharge env fr) ∧
      fr.memory.store.length ≤ later.memory.store.length) fun _ => True) := by
  rcases Prog.Sat.cases (prepare_gently env fr) (fun _ => id) with ⟨⟨result, mid⟩, prepared, -⟩ | ⟨fault, prepared, -⟩
  · unfold step
    rw [prepared]
    cases result with
    | error err => trivial
    | ok operation =>
      obtain ⟨provided, acts⟩ := prepare_provides squared.paid squared.limit prepared
      rw [Prog.bind_ret]
      refine Prog.Sat.bind (acts mid) ?_
      rintro ⟨result, fr'⟩ same
      have length := (Prod.mk.inj same).1
      have after : ∀ later : Frame, later.memory = fr'.memory → Squared later (spent + memoryCharge env fr) ∧
          fr.memory.store.length ≤ later.memory.store.length := by
        intro later memory
        rw [memory]
        refine ⟨⟨?_, ?_, ?_⟩, ?_⟩
        · rw [memory]
          exact provided.paid.of_meter same
        · rw [memory]
          exact length ▸ provided.limit
        · rw [memory, Memory.words_of_meter same, ← provided.price, squared.spent]
        · exact length ▸ provided.grows
      show Sum.elim _ _ (finish operation result fr')
      unfold finish
      cases result with
      | error err => trivial
      | ok res =>
        dsimp only
        repeat' split
        all_goals first
          | trivial
          | exact after _ rfl
  · unfold step
    rw [prepared]
    trivial

theorem Course.squared {env : Env} {first : Frame} {charges : List Nat} (course : Course env first charges fr) {spent : Nat}
    (squared : Squared first spent) : Squared fr (spent + charges.sum) ∧ first.memory.store.length ≤ fr.memory.store.length := by
  induction course with
  | start => exact ⟨squared, Nat.le_refl _⟩
  | next course yields ih =>
    have stepped := (step_squared env ih.1).yields (fun _ _ _ _ => trivial) yields
    refine ⟨?_, Nat.le_trans ih.2 stepped.2⟩
    have sum := stepped.1
    rwa [Nat.add_assoc, Nat.add_comm _ (memoryCharge env _), ← List.sum_cons] at sum

def follow (env : Env) : Nat → Frame → Option (List Nat × Frame)
  | 0, fr => some ([], fr)
  | count + 1, fr =>
    (follow env count fr).bind fun (charges, mid) =>
      match step env mid with
      | .ret (.inl later) => some (memoryCharge env mid :: charges, later)
      | _ => none

theorem follow_course {env : Env} {count : Nat} {first : Frame} {charges : List Nat}
    (followed : follow env count first = some (charges, fr)) :
    Course env first charges fr := by
  induction count generalizing charges fr with
  | zero =>
    cases followed
    exact .start
  | succ count ih =>
    obtain ⟨⟨before, mid⟩, reached, last⟩ := Option.bind_eq_some_iff.mp followed
    dsimp only at last
    split at last
    · next stepped =>
      cases last
      refine .next (ih reached) ?_
      rw [stepped]
      rfl
    · cases last

theorem memory_fees (env : Env) :
    (∀ request first, start request = .inl first → ∀ charges fr, Course env first charges fr →
      fr.memory.store.length % 32 = 0 ∧ fr.memory.lastGasCost = memoryPrice fr.memory.words ∧
      charges.sum = memoryPrice fr.memory.words ∧
      (∀ more later, Course env fr more later → fr.memory.store.length ≤ later.memory.store.length) ∧
      -- the memory on which the next instruction is executed, also if that one ends the frame
      ∀ operation mid, prepare env fr = .ret (.ok operation, mid) →
        mid.memory.store.length % 32 = 0 ∧ mid.memory.lastGasCost = memoryPrice mid.memory.words ∧
        charges.sum + memoryCharge env fr = memoryPrice mid.memory.words ∧ fr.memory.store.length ≤ mid.memory.store.length ∧
        mid.contract.gas + memoryCharge env fr ≤ fr.contract.gas ∧ KeepsMeter operation.execute) ∧
    ∀ m : Memory, m.Paid → ∀ size,
      (size ≤ 0x1FFFFFFFE0 →
        wordsFor size * 32 < 2 ^ 64 ∧ wordsFor size * wordsFor size < 2 ^ 64 ∧ wordsFor size * MemoryGas < 2 ^ 64 ∧
        wordsFor size * MemoryGas + wordsFor size * wordsFor size / QuadCoeffDiv < 2 ^ 64 ∧
        (m.words < wordsFor size → m.lastGasCost ≤ wordsFor size * MemoryGas + wordsFor size * wordsFor size / QuadCoeffDiv) ∧
        memoryFee m size = some (m.expansion size, { m with lastGasCost := memoryPrice (m.grown size) })) ∧
      (0x1FFFFFFFE0 < size → memoryFee m size = none) := by
  constructor
  · intro request first started charges fr course
    have empty : first.memory = {} := by
      unfold start at started
      dsimp only at started
      split at started
      · cases started
      · cases started
        rfl
    have begins : Squared first 0 := by
      refine ⟨?_, ?_, ?_⟩
      · rw [empty]
        exact ⟨rfl, rfl⟩
      · rw [empty]
        exact Nat.zero_le _
      · rw [empty]
        rfl
    obtain ⟨squared, -⟩ := course.squared begins
    have sum : charges.sum = memoryPrice fr.memory.words := by
      have spent := squared.spent
      rwa [Nat.zero_add] at spent
    refine ⟨squared.paid.whole, squared.paid.cost, sum, fun more later beyond => (beyond.squared squared).2, ?_⟩
    intro operation mid prepared
    obtain ⟨provided, acts⟩ := prepare_provides squared.paid squared.limit prepared
    refine ⟨provided.paid.whole, provided.paid.cost, ?_, provided.grows, provided.charged, acts⟩
    rw [sum]
    exact provided.price
  · intro m paid size
    constructor
    · intro small
      have most : wordsFor size ≤ 0xFFFFFFFF := by
        unfold wordsFor
        omega
      have square : wordsFor size * wordsFor size ≤ 0xFFFFFFFF * 0xFFFFFFFF := Nat.mul_le_mul most most
      have price : wordsFor size * MemoryGas + wordsFor size * wordsFor size / QuadCoeffDiv = memoryPrice (wordsFor size) := by
        unfold memoryPrice MemoryGas QuadCoeffDiv
        rw [pow_two, Nat.mul_comm]
      have below := memoryPrice_lt most
      refine ⟨by omega, by omega, ?_, ?_, fun larger => ?_, memoryFee_exact paid small⟩
      · unfold MemoryGas
        omega
      · rw [price]
        omega
      · rw [price, paid.cost]
        exact memoryPrice_mono (Nat.le_of_lt larger)
    · intro large
      unfold memoryFee
      rw [if_neg (by omega), if_pos large]

end Course

attribute [local instance] Crypto.sample

def storing : Frame where
  evm := { db := sampleState returnFive, depth := 1 }
  contract := { callerAddress := 1, self := 0x100, code := returnFive, gas := 1000, value := 0 }

theorem memory_fees_sample :
    ∃ fr, Course sampleEnv storing [3, 0, 0] fr ∧ fr.memory.lastGasCost = memoryPrice 1 ∧ [3, 0, 0].sum = memoryPrice 1 := by
  have computed : (follow sampleEnv 3 storing).any (fun p => p.1 == [3, 0, 0] && p.2.memory.words == 1) = true := by decide +kernel
  cases followed : follow sampleEnv 3 storing with
  | none =>
    rw [followed] at computed
    cases computed
  | some reached =>
    obtain ⟨charges, fr⟩ := reached
    rw [followed] at computed
    obtain ⟨rfl, words⟩ : charges = [3, 0, 0] ∧ fr.memory.words = 1 := by simpa using computed
    have course := follow_course followed
    have fees := (memory_fees sampleEnv).1 ⟨{ db := sampleState returnFive }, storing.contract, [], false⟩ storing rfl _ fr course
    rw [words] at fees
    exact ⟨fr, course, fees.2.1, fees.2.2.1⟩

end CuteEVM
