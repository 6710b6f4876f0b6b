import CuteEVM.Proofs.Mild

set_option autoImplicit false

-- Where an instruction leaves the program counter, and which of them do more than compute.

namespace CuteEVM

open CallTree Exec

variable [Crypto]

def Advances (size : Nat) (body : Exec Bytes) : Prop :=
  ∀ fr, (body fr).Sat (muteSpec false) fun p =>
    ∃ mid pc, Mild false fr mid ∧ p.2 = { mid with pc := pc } ∧ add64 pc 1 = add64 (fr.pc + size) 1

theorem Gently.advances {body : Exec Bytes} (gently : Gently false body) : Advances 0 body := fun fr =>
  Prog.Sat.mono (gently fr) fun p mild => ⟨p.2, p.2.pc, mild, rfl, by rw [mild.pc]; rfl⟩

theorem opPush1_advances : Advances 1 opPush1 := by
  intro fr
  simp only [opPush1, modify_apply, bind_apply, Prog.bind_ret, nullary, get_apply, push_apply, done, pure_apply, Prog.sat_ret]
  refine ⟨{ fr with stack := (fr.contract.code.getD (add64 fr.pc 1) 0).toNat :: fr.stack }, add64 fr.pc 1,
    .of_same rfl rfl rfl rfl, rfl, ?_⟩
  simp [add64]

theorem makePush_advances (size pushByteSize : Nat) : Advances size (makePush size pushByteSize) := by
  intro fr
  simp only [makePush, get_apply, bind_apply, Prog.bind_ret]
  generalize read : pushData _ _ _ = result
  cases result with
  | error fault =>
    intro below
    rw [pushData_fault read] at below
    cases below
  | ok data =>
    simp only [lift, Prog.bind_ret, push_apply, modify_apply, done, pure_apply, Prog.sat_ret]
    refine ⟨{ fr with stack := setBytes (rightPadded data pushByteSize) :: fr.stack }, add64 fr.pc size,
      .of_same rfl rfl rfl rfl, rfl, ?_⟩
    simp [add64]

inductive Jumped (fr : Frame) : Except Err Bytes × Frame → Prop where
  | lands {mid after : Frame} {dest : Int} (mild : Mild false fr mid)
      (valid : validJumpdest dest mid = .ret (.ok true, after)) : Jumped fr (.ok [], { after with pc := uint64 dest })
  | misses {mid after : Frame} {dest : Int} (mild : Mild false fr mid)
      (valid : validJumpdest dest mid = .ret (.ok false, after)) : Jumped fr (.error .invalidJump, after)
  | passes {mid : Frame} (mild : Mild false fr mid) : Jumped fr (.ok [], { mid with pc := add64 fr.pc 1 })

def Jumps (body : Exec Bytes) : Prop := ∀ fr, (body fr).Sat (muteSpec false) (Jumped fr)

theorem jumpTo_jumped {fr mid : Frame} (pos : Int) (mild : Mild false fr mid) :
    (jumpTo pos mid).Sat (muteSpec false) (Jumped fr) := by
  rcases (validJumpdest_sat pos mid).cases (fun _ => id) with ⟨⟨result, after⟩, body, valid, rfl, -⟩ | ⟨fault, body, sliced⟩
  · simp only [jumpTo, bind_apply, body, Prog.bind_ret]
    cases valid with
    | true => exact .lands mild body
    | false => exact .misses mild body
  · simp only [jumpTo, bind_apply, body, Prog.bind_panic, Prog.sat_panic]
    rw [show fault = .sliceBounds from sliced]
    rintro ⟨⟩

theorem opJump_jumps : Jumps opJump := by
  intro fr
  simp only [opJump, bind_apply, pop]
  cases fr.stack with
  | nil => rintro ⟨⟩
  | cons pos rest => exact jumpTo_jumped pos (.of_same rfl rfl rfl rfl)

theorem opJumpi_jumps : Jumps opJumpi := by
  intro fr
  simp only [opJumpi, bind_apply, pop]
  cases fr.stack with
  | nil => rintro ⟨⟩
  | cons pos rest =>
    simp only [Prog.bind_ret]
    cases rest with
    | nil => rintro ⟨⟩
    | cons cond rest =>
      simp only [Prog.bind_ret]
      split
      · exact jumpTo_jumped pos (.of_same rfl rfl rfl rfl)
      · have popped : Mild false fr { fr with stack := rest } := .of_same rfl rfl rfl rfl
        exact .passes popped

inductive Class where
  | simple
  | suicide
  | calls (kind : CallKind)

structure Priced (refunds : Bool) (operation : Operation) : Prop where
  size : ∀ memorySize, operation.memorySize = some memorySize → Gently refunds memorySize
  gas : ∀ gas, operation.dynamicGas = some gas → ∀ size, Gently refunds (gas size)

namespace Priced

variable {refunds : Bool} {operation : Operation} {gas : Nat → Exec Nat} {memorySize : Exec (Nat × Bool)}

theorem of_none (size : operation.memorySize = none) (gas : operation.dynamicGas = none) : Priced refunds operation :=
  ⟨by simp [size], by simp [gas]⟩

theorem of_metered (size : operation.memorySize = none) (metered : operation.dynamicGas = some gas)
    (gently : ∀ size, Gently refunds (gas size)) : Priced refunds operation where
  size := by simp [size]
  gas := by
    intro other same
    obtain rfl := Option.some.inj (metered.symm.trans same)
    exact gently

theorem of_sized (sized : operation.memorySize = some memorySize) (metered : operation.dynamicGas = some gas)
    (size_gently : Gently refunds memorySize) (gently : ∀ size, Gently refunds (gas size)) : Priced refunds operation where
  size := by
    intro other same
    obtain rfl := Option.some.inj (sized.symm.trans same)
    exact size_gently
  gas := by
    intro other same
    obtain rfl := Option.some.inj (metered.symm.trans same)
    exact gently

theorem weaken (priced : Priced false operation) : Priced true operation :=
  ⟨fun memorySize sized => (priced.size memorySize sized).weaken, fun gas metered size => (priced.gas gas metered size).weaken⟩

end Priced

abbrev sstoreEntry (env : Env) : Operation := { metered opSstore (gasSStore env) 2 0 with writes := true }

abbrev suicideEntry (env : Env) : Operation := { metered opSuicide (gasSuicide env) 1 0 with halts := true, writes := true }

inductive Mannered (env : Env) (op : OpCode) (operation : Operation) : Class → Prop where
  | advances (priced : Priced false operation) (jumps : operation.jumps = false)
      (acts : Advances (pushSize op) operation.execute) : Mannered env op operation .simple
  | jumps (plain : pushSize op = 0) (priced : Priced false operation) (jumps : operation.jumps = true)
      (acts : Jumps operation.execute) : Mannered env op operation .simple
  | stores (plain : pushSize op = 0) (same : operation = sstoreEntry env) :
      Mannered env op operation .simple
  | destroys (same : operation = suicideEntry env) :
      Mannered env op operation .suicide
  | calls (kind : CallKind) (plain : pushSize op = 0) (priced : Priced false operation) : Mannered env op operation (.calls kind)

theorem Mannered.plain {env : Env} {op : OpCode} {operation : Operation} (priced : Priced false operation)
    (jumps : operation.jumps = false) (plain : pushSize op = 0) (gently : Gently false operation.execute) :
    Mannered env op operation .simple :=
  .advances priced jumps (plain ▸ gently.advances)

theorem Mannered.priced {env : Env} {op : OpCode} {operation : Operation} {cls : Class} (manner : Mannered env op operation cls) :
    Priced true operation := by
  cases manner with
  | advances priced jumps acts => exact priced.weaken
  | jumps plain priced jumps acts => exact priced.weaken
  | stores plain same =>
    subst same
    exact .of_metered rfl rfl (gasSStore_gently env)
  | destroys same =>
    subst same
    exact .of_metered rfl rfl (gasSuicide_gently env)
  | calls kind plain priced => exact priced.weaken

section Prepare

variable {refunds : Bool} (env : Env) {op : OpCode} {operation : Operation}

theorem validateStack_gently : Gently refunds (validateStack operation) := by
  refine Gently.get.bind fun fr => ?_
  repeat' split
  · exact .fail _
  · exact .fail _
  · exact .pure _

theorem enforceReadOnly_gently : Gently refunds (enforceReadOnly env op operation) := by
  refine Gently.get.bind fun fr => ?_
  split
  · split
    · exact .fail _
    · split
      · refine (Gently.back _).bind fun value => ?_
        split
        · exact .fail _
        · exact .pure _
      · exact .pure _
  · exact .pure _

omit [Crypto] in
theorem validateStack_stays {fr fr' : Frame} {result : Except Err Unit} (body : validateStack operation fr = .ret (result, fr')) :
    fr' = fr := by
  simp only [validateStack, bind_apply, get_apply, Prog.bind_ret] at body
  repeat' split at body
  all_goals exact (Prod.mk.inj (Prog.ret.inj body)).2.symm

omit [Crypto] in
theorem enforceReadOnly_stays {fr fr' : Frame} {result : Except Err Unit}
    (body : enforceReadOnly env op operation fr = .ret (result, fr')) : fr' = fr := by
  simp only [enforceReadOnly, bind_apply, get_apply, Prog.bind_ret] at body
  split at body
  · split at body
    · exact (Prod.mk.inj (Prog.ret.inj body)).2.symm
    · split at body
      · cases found : fr.stack[2]? with
        | none => simp [back, found] at body
        | some value =>
          simp only [bind_apply, back_apply found, Prog.bind_ret] at body
          split at body <;> exact (Prod.mk.inj (Prog.ret.inj body)).2.symm
      · exact (Prod.mk.inj (Prog.ret.inj body)).2.symm
  · exact (Prod.mk.inj (Prog.ret.inj body)).2.symm

theorem pay_gently (cost : Nat) : Gently refunds (pay cost) := by
  refine (Gently.useGas cost).bind fun paid => ?_
  split
  · exact .pure _
  · exact .fail _

theorem orOutOfGas_gently {gas : Exec Nat} (gently : Gently refunds gas) : Gently refunds (orOutOfGas gas) := by
  intro fr
  refine Prog.Sat.bind (gently fr) ?_
  rintro ⟨result, fr'⟩ mild
  cases result <;> exact mild

theorem resizeMemory_gently (size : Nat) : Gently refunds (resizeMemory size) := by
  refine .modify fun fr => ?_
  split
  · exact .of_same rfl rfl rfl rfl
  · exact .refl fr

theorem admitOperation_gently (priced : Priced refunds operation) : Gently refunds (admitOperation env op operation) := by
  have required : Gently refunds (requiredMemory operation) := by
    unfold requiredMemory
    split
    · exact .pure _
    · next memorySize sized =>
        refine (priced.size memorySize sized).bind fun ⟨size, overflow⟩ => ?_
        dsimp only
        split
        · exact .fail _
        · exact checked_gently _
  have dynamic : ∀ size, Gently refunds (payDynamic operation size) := by
    intro size
    unfold payDynamic
    split
    · exact .pure _
    · next gas metered => exact (orOutOfGas_gently (priced.gas gas metered size)).bind fun _ => pay_gently _
  refine validateStack_gently.bind fun _ => (enforceReadOnly_gently env).bind fun _ => (pay_gently _).bind fun _ => ?_
  exact required.bind fun size => (dynamic size).bind fun _ => (resizeMemory_gently size).bind fun _ => .pure _

abbrev Frame.charge (fr : Frame) (cost : Nat) : Frame :=
  { fr with contract := { fr.contract with gas := fr.contract.gas - cost } }

inductive Metered (operation : Operation) (gas : Nat → Exec Nat) (fr : Frame) : Except Err Operation × Frame → Prop where
  | refused (err : Err) : Metered operation gas fr (.error err, fr)
  | unpriced {err : Err} {priced : Frame} (result : gas 0 fr = .ret (.error err, priced)) :
      Metered operation gas fr (.error .outOfGas, priced)
  | unpaid {cost : Nat} {priced : Frame} (result : gas 0 fr = .ret (.ok cost, priced)) :
      Metered operation gas fr (.error .outOfGas, priced)
  | paid {cost : Nat} {priced : Frame} (result : gas 0 fr = .ret (.ok cost, priced)) :
      Metered operation gas fr (.ok operation, priced.charge cost)

def meteredSpec (gas : Nat → Exec Nat) (fr : Frame) : Spec Invocation Reply Panic where
  pre := fun _ => False
  post := fun _ _ => False
  safe := fun fault => fault = .refundBelowZero → gas 0 fr = .panic .refundBelowZero

theorem admitOperation_metered {gas : Nat → Exec Nat} (unsized : operation.memorySize = none)
    (metered : operation.dynamicGas = some gas) (free : operation.constantGas = 0) (gently : Gently true (gas 0)) (fr : Frame) :
    (admitOperation env op operation fr).Sat (meteredSpec gas fr) (Metered operation gas fr) := by
  have rest : ((do
      pay operation.constantGas
      let memorySize ← requiredMemory operation
      payDynamic operation memorySize
      resizeMemory memorySize
      pure operation : Exec Operation) fr).Sat (meteredSpec gas fr) (Metered operation gas fr) := by
    simp only [free, pay, bind_apply, useGas, Contract.useGas, Nat.not_lt_zero, if_false, Prog.bind_ret, if_true, pure_apply,
      requiredMemory, unsized, payDynamic, metered, orOutOfGas, Nat.sub_zero]
    rcases Prog.Sat.cases (gently fr) (fun _ => id) with ⟨⟨result, priced⟩, body, -⟩ | ⟨fault, body, -⟩
    · rw [body]
      cases result with
      | error err => exact .unpriced body
      | ok cost =>
        simp only [Prog.bind_ret]
        by_cases enough : priced.contract.gas < cost
        · simp only [if_pos enough, Prog.bind_ret, Bool.false_eq_true, if_false, fail_apply]
          exact .unpaid body
        · simp only [if_neg enough]
          exact .paid body
    · rw [body]
      rintro rfl
      exact body
  have checked : ∀ {action : Exec Unit} {next : Exec Operation}, Gently false action →
      (∀ result fr', action fr = .ret (result, fr') → fr' = fr) →
      (next fr).Sat (meteredSpec gas fr) (Metered operation gas fr) →
      ((action >>= fun _ => next) fr).Sat (meteredSpec gas fr) (Metered operation gas fr) := by
    intro action next mute stays tail
    rw [bind_apply]
    rcases Prog.Sat.cases (mute fr) (fun _ => id) with ⟨⟨result, fr'⟩, body, -⟩ | ⟨fault, body, other⟩
    · obtain rfl := stays result fr' body
      rw [body]
      cases result with
      | error err => exact .refused err
      | ok _ => exact tail
    · rw [body]
      exact fun below => absurd (other below) (by decide)
  unfold admitOperation
  exact checked validateStack_gently (fun _ _ => validateStack_stays)
    (checked (enforceReadOnly_gently env) (fun _ _ => enforceReadOnly_stays env) rest)

end Prepare

theorem sstore_metered (env : Env) (op : OpCode) (fr : Frame) : (admitOperation env op (sstoreEntry env) fr).Sat
    (meteredSpec (gasSStore env) fr) (Metered (sstoreEntry env) (gasSStore env) fr) :=
  admitOperation_metered env rfl rfl rfl (gasSStore_gently env 0) fr

theorem suicide_metered (env : Env) (op : OpCode) (fr : Frame) : (admitOperation env op (suicideEntry env) fr).Sat
    (meteredSpec (gasSuicide env) fr) (Metered (suicideEntry env) (gasSuicide env) fr) :=
  admitOperation_metered env rfl rfl rfl (gasSuicide_gently env 0) fr

abbrev Frame.advance (fr : Frame) (returnData : Bytes) (pc : Nat) : Frame :=
  { fr with evm := { fr.evm with returnData := returnData }, pc := pc }

def Frame.following (fr : Frame) : Nat := add64 (fr.pc + pushSize (fr.contract.getOp fr.pc)) 1

abbrev Frame.store (fr : Frame) (loc val : Int) (rest : Stack) : Frame :=
  { fr with
    stack := rest
    evm := { fr.evm with db := fr.evm.db.setState fr.contract.self (bigToHash loc) (bigToHash val) } }

inductive Moves (env : Env) (fr : Frame) : Frame → Prop where
  | advances {mid : Frame} (mild : Mild false fr mid) (returnData : Bytes) : Moves env fr (mid.advance returnData fr.following)
  | jumps {mid after : Frame} {dest : Int} (mild : Mild false fr mid) (valid : validJumpdest dest mid = .ret (.ok true, after))
      (returnData : Bytes) : Moves env fr (after.advance returnData (uint64 dest))
  | stores {cost : Nat} {priced : Frame} {loc val : Int} {rest : Stack} (price : gasSStore env 0 fr = .ret (.ok cost, priced))
      (operands : priced.stack = loc :: val :: rest) (returnData : Bytes) :
      Moves env fr (((priced.charge cost).store loc val rest).advance returnData fr.following)

inductive Closes (fr : Frame) : Option Err → Frame → Prop where
  | mild {mid : Frame} (mild : Mild false fr mid) (err : Option Err) (returnData : Bytes) (pc : Nat) :
      Closes fr err (mid.advance returnData pc)
  | jumps {mid after : Frame} {dest : Int} {answer : Bool} (mild : Mild false fr mid)
      (valid : validJumpdest dest mid = .ret (.ok answer, after)) (err : Option Err) (returnData : Bytes) (pc : Nat) :
      Closes fr err (after.advance returnData pc)
  | refused {mid : Frame} (mild : Mild true fr mid) (err : Err) : Closes fr (some err) mid

inductive Dies (env : Env) (fr : Frame) : Frame → Prop where
  | intro {cost : Nat} {priced after : Frame} (price : gasSuicide env 0 fr = .ret (.ok cost, priced))
      (done : opSuicide (priced.charge cost) = .ret (.ok [], after)) (returnData : Bytes) (pc : Nat) :
      Dies env fr (after.advance returnData pc)

section Mannered

variable {env : Env} {op : OpCode} {operation : Operation} {fr mid fr' : Frame}

theorem Priced.mild {result : Except Err Operation} {refunds : Bool} (priced : Priced refunds operation)
    (prepared : admitOperation env op operation fr = .ret (result, mid)) : Mild refunds fr mid := by
  have gently := (admitOperation_gently env priced : Gently refunds (admitOperation env op operation)) fr
  rw [prepared] at gently
  exact gently

theorem opSstore_stored {result : Except Err Bytes} (ran : opSstore mid = .ret (result, fr')) :
    ∃ loc val rest, mid.stack = loc :: val :: rest ∧ result = .ok [] ∧ fr' = mid.store loc val rest := by
  simp only [opSstore, bind_apply, pop] at ran
  cases shape : mid.stack with
  | nil => simp [shape] at ran
  | cons loc rest =>
    cases rest with
    | nil => simp [shape] at ran
    | cons val rest =>
      simp only [shape, Prog.bind_ret, get_apply, writeDb_apply, done, pure_apply, Prog.ret.injEq, Prod.mk.injEq] at ran
      exact ⟨loc, val, rest, rfl, ran.1.symm, ran.2.symm⟩

theorem Mannered.moves (manner : Mannered env (fr.contract.getOp fr.pc) operation .simple)
    (prepared : admitOperation env (fr.contract.getOp fr.pc) operation fr = .ret (.ok operation, mid)) {res : Bytes}
    (ran : operation.execute mid = .ret (.ok res, fr')) (returnData : Bytes) :
    Moves env fr (fr'.advance returnData (if operation.jumps = true then fr'.pc else add64 fr'.pc 1)) := by
  cases manner with
  | advances priced jumps acts =>
    have acted := acts mid
    rw [ran] at acted
    obtain ⟨last, pc, mild, same, next⟩ := acted
    obtain rfl : fr' = { last with pc := pc } := same
    have before := priced.mild prepared
    have place : add64 pc 1 = fr.following := by rw [next, before.pc]; rfl
    simp only [jumps, Bool.false_eq_true, if_false, place]
    exact .advances (before.trans mild) returnData
  | jumps plain priced jumps acts =>
    have acted := acts mid
    rw [ran] at acted
    have before := priced.mild prepared
    simp only [jumps, if_true]
    cases acted with
    | lands mild valid => exact .jumps (before.trans mild) valid returnData
    | passes mild =>
      have place : add64 mid.pc 1 = fr.following := by rw [Frame.following, plain, before.pc]; rfl
      simp only [place]
      exact .advances (before.trans mild) returnData
  | stores plain same =>
    subst same
    obtain ⟨loc, val, rest, operands, -, rfl⟩ := opSstore_stored ran
    have admitted := sstore_metered env (fr.contract.getOp fr.pc) fr
    rw [prepared] at admitted
    cases admitted with
    | @paid cost priced price =>
      have before : Mild true fr priced := by
        have gently := gasSStore_gently env 0 fr
        rw [price] at gently
        exact gently
      have place : add64 priced.pc 1 = fr.following := by rw [Frame.following, plain, before.pc]; rfl
      show Moves env fr (Frame.advance _ returnData (add64 priced.pc 1))
      rw [place]
      exact .stores price operands returnData

theorem Mannered.closes (manner : Mannered env op operation .simple)
    (prepared : admitOperation env op operation fr = .ret (.ok operation, mid)) {result : Except Err Bytes}
    (ran : operation.execute mid = .ret (result, fr'))
    (ends : operation.reverts = true ∨ operation.halts = true ∨ ∃ err, result = .error err) (err : Option Err)
    (returnData : Bytes) (pc : Nat) : Closes fr err (fr'.advance returnData pc) := by
  cases manner with
  | advances priced jumps acts =>
    have acted := acts mid
    rw [ran] at acted
    obtain ⟨last, pc, mild, same, next⟩ := acted
    obtain rfl : fr' = { last with pc := pc } := same
    exact .mild ((priced.mild prepared).trans mild) err returnData _
  | jumps plain priced jumps acts =>
    have acted := acts mid
    rw [ran] at acted
    have before := priced.mild prepared
    cases acted with
    | lands mild valid => exact .jumps (before.trans mild) valid err returnData pc
    | misses mild valid => exact .jumps (before.trans mild) valid err returnData pc
    | passes mild => exact .mild (before.trans mild) err returnData pc
  | stores plain same =>
    subst same
    obtain ⟨loc, val, rest, -, rfl, -⟩ := opSstore_stored ran
    rcases ends with reverts | halts | ⟨err, failed⟩
    · cases reverts
    · cases halts
    · cases failed

theorem Mannered.dies (manner : Mannered env op operation .suicide)
    (prepared : admitOperation env op operation fr = .ret (.ok operation, mid))
    (ran : operation.execute mid = .ret (.ok [], fr')) (returnData : Bytes) (pc : Nat) :
    Dies env fr (fr'.advance returnData pc) := by
  cases manner with
  | destroys same =>
    subst same
    have admitted := suicide_metered env op fr
    rw [prepared] at admitted
    cases admitted with
    | paid price => exact .intro price ran returnData pc

def Overdrawn (env : Env) (fr : Frame) : Prop :=
  gasSStore env 0 fr = .panic .refundBelowZero ∨ gasSuicide env 0 fr = .panic .refundBelowZero

theorem Mannered.overdrawn {cls : Class} (manner : Mannered env op operation cls)
    (prepared : admitOperation env op operation fr = .panic .refundBelowZero) : Overdrawn env fr := by
  have never : Priced false operation → False := by
    intro priced
    have gently := (admitOperation_gently env priced : Gently false (admitOperation env op operation)) fr
    rw [prepared] at gently
    exact absurd (gently rfl) (by decide)
  cases manner with
  | advances priced jumps acts => exact (never priced).elim
  | jumps plain priced jumps acts => exact (never priced).elim
  | stores plain same =>
    subst same
    have admitted := sstore_metered env op fr
    rw [prepared] at admitted
    exact .inl (admitted rfl)
  | destroys same =>
    subst same
    have admitted := suicide_metered env op fr
    rw [prepared] at admitted
    exact .inr (admitted rfl)
  | calls kind plain priced => exact (never priced).elim

end Mannered

end CuteEVM
