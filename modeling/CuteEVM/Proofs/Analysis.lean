import CuteEVM.Proofs.Journal

set_option autoImplicit false

-- The frames of a call tree share their analyses under the hashes of the codes.

namespace CuteEVM

open CallTree Exec

variable [Crypto]

section Probe

omit [Crypto]

inductive Probed (fr : Frame) : Frame → Prop where
  | same : Probed fr fr
  | shared (hashed : fr.contract.codeHash ≠ 0) : Probed fr { fr with evm := { fr.evm with
      jumpdests := Function.update fr.evm.jumpdests fr.contract.codeHash (some (codeBitmap fr.contract.code)) } }
  | own (plain : fr.contract.codeHash = 0) : Probed fr { fr with contract := { fr.contract with
      analysis := some (codeBitmap fr.contract.code) } }

variable {fr after : Frame} {dest : Int}

theorem analyse_probed (fr : Frame) : ∃ bits after, analyse fr = .ret (.ok bits, after) ∧ Probed fr after := by
  unfold analyse
  split
  · next hashed =>
    split
    · exact ⟨_, _, rfl, .same⟩
    · exact ⟨_, _, rfl, .shared hashed⟩
  · next plain =>
    split
    · exact ⟨_, _, rfl, .same⟩
    · exact ⟨_, _, rfl, .own (not_not.mp plain)⟩

theorem validJumpdest_probed {result : Except Err Bool} (body : validJumpdest dest fr = .ret (result, after)) :
    Probed fr after := by
  obtain ⟨bits, next, analysed, probed⟩ := analyse_probed fr
  simp only [validJumpdest, bind_apply, get_apply, Prog.bind_ret] at body
  split at body
  · obtain rfl := (Prod.mk.inj (Prog.ret.inj body)).2
    exact .same
  · split at body
    · obtain rfl := (Prod.mk.inj (Prog.ret.inj body)).2
      exact .same
    · simp only [bind_apply, analysed, Prog.bind_ret] at body
      unfold lift at body
      split at body
      · obtain rfl := (Prod.mk.inj (Prog.ret.inj body)).2
        exact probed
      · cases body

theorem Probed.db (probed : Probed fr after) : after.evm.db = fr.evm.db := by cases probed <;> rfl

theorem Probed.code (probed : Probed fr after) : after.contract.code = fr.contract.code := by cases probed <;> rfl

end Probe

/-! What the iterations do to the state, as edits -/

section Edits

variable {env : Env} {fr fr' : Frame}

theorem Gently.mild {α : Type} {refunds : Bool} {action : Exec α} (gently : Gently refunds action) {result : Except Err α}
    (ran : action fr = .ret (result, fr')) : Mild refunds fr fr' := by
  have mild := gently fr
  rw [ran] at mild
  exact mild

theorem Moves.edits (moves : Moves env fr fr') (valid : Valid fr.evm.db) : Edits Set.univ fr.evm.db fr'.evm.db := by
  cases moves with
  | advances mild _ => exact (mild.db valid).edits
  | jumps mild jumped _ =>
    show Edits Set.univ _ _
    rw [(validJumpdest_probed jumped).db]
    exact (mild.db valid).edits
  | @stores cost priced loc val rest price _ _ =>
    have paid := ((gasSStore_gently env 0).mild price).db valid
    exact paid.edits.trans (setState_edits paid.evolves.valid _ _ _)

theorem Closes.edits {err : Option Err} (closes : Closes fr err fr') (valid : Valid fr.evm.db) :
    Edits Set.univ fr.evm.db fr'.evm.db := by
  cases closes with
  | mild mild _ _ _ => exact (mild.db valid).edits
  | jumps mild jumped _ _ _ =>
    show Edits Set.univ _ _
    rw [(validJumpdest_probed jumped).db]
    exact (mild.db valid).edits
  | refused mild _ => exact (mild.db valid).edits

theorem opSuicide_db {mid after : Frame} {result : Except Err Bytes} (ran : opSuicide mid = .ret (result, after)) :
    ∃ beneficiary, after.evm.db = (((mid.evm.db.getBalance mid.contract.self).2.addBalance beneficiary
      (mid.evm.db.getBalance mid.contract.self).1).suicide mid.contract.self).2 := by
  simp only [opSuicide, bind_apply, get_apply, Prog.bind_ret, readDb_apply, pop] at ran
  cases shape : mid.stack with
  | nil => simp [shape] at ran
  | cons word rest =>
    simp only [shape, Prog.bind_ret, writeDb_apply, modify_apply, done, pure_apply, Prog.ret.injEq, Prod.mk.injEq] at ran
    exact ⟨bigToAddress word, by rw [← ran.2]⟩

theorem Dies.edits (dies : Dies env fr fr') (valid : Valid fr.evm.db) : Edits Set.univ fr.evm.db fr'.evm.db := by
  cases dies with
  | @intro cost priced after price ran _ _ =>
    have paid := ((gasSuicide_gently env 0).mild price).db valid
    obtain ⟨beneficiary, db⟩ := opSuicide_db ran
    show Edits Set.univ _ after.evm.db
    rw [db]
    have read : Inert false priced.evm.db (priced.evm.db.getBalance priced.contract.self).2 :=
      Op.inert_apply paid.evolves.valid (show (Op.getBalance priced.contract.self).inert = true from rfl) rfl
    have given := addBalance_evolves read.evolves.valid beneficiary (priced.evm.db.getBalance priced.contract.self).1
    exact paid.edits.trans (read.edits.trans ((addBalance_edits read.evolves.valid _ _).trans (suicide_edits given.valid _)))

end Edits

-- The codes in the state have the hashes under which they are kept.
def StateDB.Hashed (s : StateDB) : Prop := Coded Set.univ s.journal.entries s

section Hashed

variable {s s' : StateDB}

theorem StateDB.Hashed.edits (hashed : s.Hashed) (edits : Edits Set.univ s s') : s'.Hashed := edits.coded hashed

theorem StateDB.Hashed.revert (hashed : s.Hashed) {revid : Nat} (reverted : s.revertToSnapshot revid = .ok s') : s'.Hashed :=
  revertToSnapshot_coded hashed reverted

theorem StateDB.Hashed.code (hashed : s.Hashed) (a : Address)
    (present : ((s.getCodeHash a).2.getCode a).1 ≠ []) :
    keccak256 ((s.getCodeHash a).2.getCode a).1 = (s.getCodeHash a).1 := by
  cases found : s.lookup a with
  | none => simp [StateDB.getCodeHash, StateDB.getCode, s.getStateObject_eq, StateDB.load_of_missing found, found] at present
  | some o =>
    have loaded := Coded.load hashed a
    have again := StateDB.lookup_of_live (StateDB.live_load found) (StateDB.present_of_lookup found)
    simp only [StateDB.getCodeHash, StateDB.getCode, StateDB.getStateObject_eq, found, again, StateDB.load_codes] at present ⊢
    rw [← s.load_codes a] at present ⊢
    exact (loadCode_value loaded.store (loaded.live a o (StateDB.live_load found)) present).2

end Hashed

def Indexed (codes : Set Bytes) (jumpdests : Hash → Option Bitvec) : Prop :=
  ∀ hash bits, jumpdests hash = some bits → ∃ code ∈ codes, keccak256 code = hash ∧ bits = codeBitmap code

structure Coherent (codes : Set Bytes) (fr : Frame) : Prop where
  cache : Indexed codes fr.evm.jumpdests
  hash : fr.contract.codeHash ≠ 0 → keccak256 fr.contract.code = fr.contract.codeHash
  own : ∀ bits, fr.contract.analysis = some bits → bits = codeBitmap fr.contract.code

section Coherent

variable {codes : Set Bytes} {fr fr' : Frame}

theorem Indexed.update {jumpdests : Hash → Option Bitvec} (analysed : Indexed codes jumpdests) {code : Bytes}
    (member : code ∈ codes) :
    Indexed codes (Function.update jumpdests (keccak256 code) (some (codeBitmap code))) := by
  intro hash bits found
  by_cases same : hash = keccak256 code
  · subst same
    rw [Function.update_self] at found
    exact ⟨code, member, rfl, (Option.some.inj found).symm⟩
  · rw [Function.update_of_ne same] at found
    exact analysed hash bits found

theorem Coherent.mild {refunds : Bool} (coherent : Coherent codes fr) (mild : Mild refunds fr fr') : Coherent codes fr' where
  cache := mild.jumpdests ▸ coherent.cache
  hash := by
    rw [mild.contract]
    exact coherent.hash
  own := by
    rw [mild.contract]
    exact coherent.own

theorem Coherent.probed (coherent : Coherent codes fr) (member : fr.contract.code ∈ codes) (probed : Probed fr fr') :
    Coherent codes fr' := by
  cases probed with
  | same => exact coherent
  | shared hashed =>
    refine ⟨?_, coherent.hash, coherent.own⟩
    have updated := coherent.cache.update member
    rw [coherent.hash hashed] at updated
    exact updated
  | own plain => exact ⟨coherent.cache, coherent.hash, fun bits found => (Option.some.inj found).symm⟩

theorem Coherent.analyse (coherent : Coherent codes fr) (apart : Set.InjOn keccak256 codes) (member : fr.contract.code ∈ codes) :
    ∃ after, analyse fr = .ret (.ok (codeBitmap fr.contract.code), after) := by
  unfold CuteEVM.analyse
  split
  · next hashed =>
    split
    · next bits found =>
      -- The entry may come from another frame, but only from one with the same code.
      obtain ⟨code, run, same, rfl⟩ := coherent.cache _ _ found
      rw [apart run member (same.trans (coherent.hash hashed).symm)]
      exact ⟨_, rfl⟩
    · exact ⟨_, rfl⟩
  · split
    · next bits found =>
      rw [coherent.own bits found]
      exact ⟨_, rfl⟩
    · exact ⟨_, rfl⟩

theorem Coherent.answers (coherent : Coherent codes fr) (apart : Set.InjOn keccak256 codes) (member : fr.contract.code ∈ codes)
    (dest : Int) : ∃ answer after, validJumpdest dest fr = .ret (.ok answer, after) ∧
      (answer = true ↔ bitLen dest < 63 ∧ uint64 dest < fr.contract.code.length ∧ fr.contract.getOp (uint64 dest) = JUMPDEST ∧
        InstructionStart fr.contract.code (uint64 dest)) := by
  simp only [validJumpdest, bind_apply, get_apply, Prog.bind_ret]
  split
  · next outside => exact ⟨false, fr, rfl, by simp only [Bool.false_eq_true, false_iff]; omega⟩
  · next inside =>
    split
    · next other => exact ⟨false, fr, rfl, by simp only [Bool.false_eq_true, false_iff]; tauto⟩
    · next jumpdest =>
      obtain ⟨after, analysed⟩ := coherent.analyse apart member
      obtain ⟨answer, found, starts⟩ := codeSegment_codeBitmap (show uint64 dest < fr.contract.code.length by omega)
      simp only [bind_apply, analysed, Prog.bind_ret, found, lift]
      refine ⟨answer, after, rfl, starts.trans ⟨fun start => ⟨by omega, by omega, not_not.mp jumpdest, start⟩, fun all =>
        all.2.2.2⟩⟩

end Coherent

def Codes (inside : List (RunReq × Frame) → Prop) : Set Bytes :=
  { code | ∃ frames, inside frames ∧ ∃ frame ∈ frames, frame.2.contract.code = code }

structure Placed (fr : Frame) : Prop where
  small : fr.pc < 2 ^ 64
  place : fr.contract.code.length ≤ fr.pc ∨ InstructionStart fr.contract.code fr.pc

section Placed

variable {env : Env} {codes : Set Bytes} {fr fr' : Frame}

omit [Crypto] in
theorem Placed.following (placed : Placed fr) (short : fr.contract.code.length < 2 ^ 63) :
    fr.following < 2 ^ 64 ∧ (fr.contract.code.length ≤ fr.following ∨ InstructionStart fr.contract.code fr.following) := by
  have small := placed.small
  refine ⟨Nat.mod_lt _ (by decide), ?_⟩
  by_cases past : fr.contract.code.length ≤ fr.pc
  · -- Past the code there is a `STOP`; only the largest counter wraps around, to the first instruction.
    have stop : fr.contract.getOp fr.pc = 0 := by
      simp [Contract.getOp, Contract.getByte, List.getD_eq_getElem?_getD, List.getElem?_eq_none past]
    have next : fr.following = (fr.pc + 1) % 2 ^ 64 := by rw [Frame.following, stop]; rfl
    rw [next]
    by_cases last : fr.pc + 1 = 2 ^ 64
    · rw [last, Nat.mod_self]
      exact .inr .zero
    · rw [Nat.mod_eq_of_lt (by omega)]
      exact .inl (by omega)
  · have start := placed.place.resolve_left past
    have size := pushSize_le (fr.contract.getOp fr.pc)
    have next : fr.following = fr.pc + 1 + pushSize (fr.contract.code.getD fr.pc 0) := by
      unfold Frame.following add64
      rw [Nat.mod_eq_of_lt (by omega)]
      exact Nat.add_right_comm _ _ _
    rw [next]
    exact .inr start.next

theorem Moves.placed (moves : Moves env fr fr') (placed : Placed fr) (short : fr.contract.code.length < 2 ^ 63)
    (coherent : Coherent codes fr) (apart : Set.InjOn keccak256 codes) (member : fr.contract.code ∈ codes) : Placed fr' := by
  cases moves with
  | @advances mid mild _ =>
    have next := placed.following short
    rw [← mild.code] at next
    exact ⟨next.1, next.2⟩
  | @jumps mid after dest mild jumped _ =>
    have found : mid.contract.code ∈ codes := mild.code ▸ member
    obtain ⟨answer, last, answered, meaning⟩ := (coherent.mild mild).answers apart found dest
    rw [jumped] at answered
    have start := (meaning.mp (Except.ok.inj (Prod.mk.inj (Prog.ret.inj answered)).1).symm).2.2.2
    rw [← (validJumpdest_probed jumped).code] at start
    exact ⟨Nat.mod_lt _ (by decide), .inr start⟩
  | @stores cost priced loc val rest price _ _ =>
    have next := placed.following short
    rw [← ((gasSStore_gently env 0).mild price).code] at next
    exact ⟨next.1, next.2⟩

theorem Moves.coherent (moves : Moves env fr fr') (coherent : Coherent codes fr) (member : fr.contract.code ∈ codes) :
    Coherent codes fr' := by
  cases moves with
  | advances mild _ =>
    have kept := coherent.mild mild
    exact ⟨kept.cache, kept.hash, kept.own⟩
  | @jumps mid _ _ mild jumped _ =>
    have found : mid.contract.code ∈ codes := mild.code ▸ member
    have kept := (coherent.mild mild).probed found (validJumpdest_probed jumped)
    exact ⟨kept.cache, kept.hash, kept.own⟩
  | stores price _ _ =>
    have kept := coherent.mild ((gasSStore_gently env 0).mild price)
    exact ⟨kept.cache, kept.hash, kept.own⟩

theorem Closes.cache {err : Option Err} (closes : Closes fr err fr') (coherent : Coherent codes fr)
    (member : fr.contract.code ∈ codes) : Indexed codes fr'.evm.jumpdests := by
  cases closes with
  | mild mild _ _ _ => exact (coherent.mild mild).cache
  | @jumps mid _ _ _ mild jumped _ _ _ =>
    have found : mid.contract.code ∈ codes := mild.code ▸ member
    exact ((coherent.mild mild).probed found (validJumpdest_probed jumped)).cache
  | refused mild _ => exact (coherent.mild mild).cache

end Placed

structure Fresh (codes : Set Bytes) (request : RunReq) : Prop where
  hashed : request.evm.db.Hashed
  cache : Indexed codes request.evm.jumpdests
  unanalysed : request.contract.analysis = none
  hash : request.contract.codeHash ≠ 0 → request.contract.code ≠ [] →
    keccak256 request.contract.code = request.contract.codeHash

structure Sited (codes : Set Bytes) (fr : Frame) : Prop where
  hashed : fr.evm.db.Hashed
  coherent : Coherent codes fr
  placed : Placed fr

section Opening

variable {env : Env} {inv : Invocation} {before : StateDB} {request : RunReq} {address : Address}

theorem Deploys.effects (deploys : Deploys env inv before address request) (valid : Valid before) :
    Effects before.snapshot.2 request.evm.db
      (Function.update before.facts address { Facts.blank with nonce := if env.isEIP158 then 1 else 0 }) := by
  have taken := snapshot_evolves valid
  have made := newAccount_effects taken.valid env.isEIP158 address
  rw [deploys.db]
  exact made.after (transfer_inert made.evolves.valid _ _ _)

theorem Opens.edits (env : Env) (opens : Opens inv before request) (valid : Valid inv.evm.db)
    (deploys : inv.kind.creates = true → ∃ address, Deploys env inv before address request) :
    Edits Set.univ inv.evm.db request.evm.db := by
  have prior := (opens.prior valid).1.valid
  cases kind : inv.kind.creates with
  | false =>
    obtain ⟨read, made⟩ := opens.inert kind valid
    exact read.edits.trans ((snapshot_inert prior).edits.trans made.edits)
  | true =>
    obtain ⟨address, deployed⟩ := deploys kind
    exact (opens.nonced kind valid).effects.edits.trans ((snapshot_inert prior).edits.trans (deployed.effects prior).edits)

end Opening

section Runs

variable {env : Env} {inside : List (RunReq × Frame) → Prop} {invoked : Invocation → Prop} {codes : Set Bytes}

def Keeps (codes : Set Bytes) (evm : EVM) : Prop := evm.db.Hashed ∧ Indexed codes evm.jumpdests

theorem analysis_start {request : RunReq} (fresh : Fresh codes request) :
    Sum.elim (Sited codes) (fun res => Keeps codes res.evm) (start request) := by
  unfold start
  dsimp only
  split
  · exact ⟨fresh.hashed, fresh.cache⟩
  · next filled =>
    have present : request.contract.code ≠ [] := fun empty => filled (by rw [empty]; rfl)
    refine ⟨fresh.hashed, ⟨fresh.cache, fun hashed => fresh.hash hashed present, fun bits found => ?_⟩, Nat.two_pow_pos 64,
      .inr .zero⟩
    have none := found.symm.trans fresh.unanalysed
    cases none

theorem analysis_step (apart : Set.InjOn keccak256 codes) {request : RunReq} {fr : Frame}
    (kept : JournalKeeps (fun _ => True) request fr) (member : fr.contract.code ∈ codes)
    (short : fr.contract.code.length < 2 ^ 63) (sited : Sited codes fr) :
    (step env fr).Sat
      ⟨fun inv => Keeps codes (inv.evm.shareJumpdests inv.caller),
        fun inv reply => Keeps codes (reply.evm.shareJumpdests inv.caller), fun _ => True⟩
      (Sum.elim (Sited codes) fun res => Keeps codes res.evm) := by
  obtain ⟨bounded, evolves, -⟩ := kept
  have valid := evolves.valid
  obtain ⟨hashed, coherent, placed⟩ := sited
  refine step_rule bounded.fit (fun _ _ => trivial) (fun fr' _ moves _ => ?_) (fun fr' ret err _ closes _ _ => ?_)
    (fun beneficiary fr' perishes dies => ?_) fun parent inv asks => ?_
  · exact ⟨hashed.edits (moves.edits valid), moves.coherent coherent member, moves.placed placed short coherent apart member⟩
  · exact ⟨hashed.edits (closes.edits valid), closes.cache coherent member⟩
  · refine ⟨hashed.edits (dies.edits valid), ?_⟩
    show Indexed codes fr'.evm.jumpdests
    rw [perishes.evm]
    exact coherent.cache
  · have shared : ∀ evm : EVM, evm.shareJumpdests inv.caller = evm := by
      intro evm
      rw [asks.caller]
      rfl
    simp only [shared]
    refine ⟨⟨hashed.edits (asks.inert valid).edits, ?_⟩, fun reply post fr' continues => ?_⟩
    · rw [asks.evm]
      exact coherent.cache
    · have contract : fr'.contract = { fr.contract with gas := fr'.contract.gas } := by
        rw [continues.contract, asks.keeps]
      have next := placed.following short
      have place : fr'.pc = fr.following := by rw [continues.pc, Frame.following, asks.plain]; rfl
      refine ⟨?_, ⟨?_, ?_, ?_⟩, ?_, ?_⟩
      · rw [continues.db]
        exact post.1
      · rw [continues.evm]
        exact post.2
      · rw [contract]
        exact coherent.hash
      · rw [contract]
        exact coherent.own
      · rw [place]
        exact next.1
      · rw [place, contract]
        exact next.2

theorem Indexed.share {evm : EVM} (indexed : Indexed codes evm.jumpdests) (caller : ContractRef) :
    Indexed codes (evm.shareJumpdests caller).jumpdests := by
  cases caller with
  | accountRef _ => exact nofun
  | contract _ => exact indexed

omit [Crypto] in
theorem EVM.shareJumpdests_db (evm : EVM) (caller : ContractRef) : (evm.shareJumpdests caller).db = evm.db := by
  cases caller <;> rfl

theorem Keeps.share {evm : EVM} (keeps : Keeps codes evm) (caller : ContractRef) : Keeps codes (evm.shareJumpdests caller) :=
  ⟨by rw [evm.shareJumpdests_db]; exact keeps.1, keeps.2.share caller⟩

theorem Keeps.replace {evm evm' : EVM} (keeps : Keeps codes evm) (hashed : evm'.db.Hashed) (same : evm'.jumpdests = evm.jumpdests)
    (caller : ContractRef) : Keeps codes (evm'.shareJumpdests caller) :=
  Keeps.share ⟨hashed, same ▸ keeps.2⟩ caller

theorem analysis_entry {spec : Spec RunReq RunRes Panic} {inv : Invocation} (journaled : Journaled spec)
    (safe : ∀ fault, spec.safe fault) (fresh : ∀ request, Fresh codes request → spec.pre request)
    (post : ∀ request res, spec.post request res → Keeps codes res.evm)
    (valid : Valid inv.evm.db) (keeps : Keeps codes (inv.evm.shareJumpdests inv.caller)) :
    (entry env inv).Sat spec fun reply => Keeps codes (reply.evm.shareJumpdests inv.caller) := by
  obtain ⟨hashed, cache⟩ := keeps
  rw [EVM.shareJumpdests_db] at hashed
  have called : ∀ before request, inv.kind.creates = false → Opens inv before request → Fresh codes request := by
    intro before request kind opens
    obtain ⟨-, db, read, codeHash, code⟩ := opens.loads kind
    refine ⟨hashed.edits (opens.edits env valid (by simp [kind])), opens.cache ▸ cache, opens.unanalysed, fun _ present => ?_⟩
    rw [code] at present
    rw [codeHash, code]
    exact (hashed.edits (read valid).edits).code inv.addr present
  have created : ∀ before address request, inv.kind.creates = true → Opens inv before request →
      Deploys env inv before address request → Fresh codes request := by
    intro before address request kind opens deploys
    refine ⟨hashed.edits (opens.edits env valid fun _ => ⟨address, deploys⟩), opens.cache ▸ cache, opens.unanalysed,
      fun present _ => ?_⟩
    cases which : inv.kind with
    | create => exact absurd (deploys.create which).1 present
    | create2 => rw [deploys.code, (deploys.create2 which).1]
    | _ => simp [which, CallKind.creates] at kind
  have ended : ∀ request res, Fresh codes request → Ran env spec request res → Keeps codes res.evm := by
    intro request res opened ran
    rcases ran.how with native | interpreted
    · rw [native.evm]
      exact ⟨opened.hashed, opened.cache⟩
    · exact post request res interpreted
  have kept : ∀ db : StateDB, db.Hashed → Keeps codes (EVM.shareJumpdests { inv.evm with db := db } inv.caller) := by
    intro db good
    cases caller : inv.caller with
    | accountRef _ => exact ⟨good, by rintro _ _ ⟨⟩⟩
    | contract _ =>
      rw [caller] at cache
      exact ⟨good, cache⟩
  refine (entry_concludes journaled valid (safe _) (fun before request kind opens => fresh _ (called before request kind opens))
    fun before address request kind opens deploys => fresh _ (created before address request kind opens deploys)).mono ?_
  intro reply concluded
  cases concluded with
  | declines declines =>
    rw [declines.evm]
    exact kept _ (hashed.edits (declines.inert valid).edits)
  | collides collides =>
    rw [collides.evm]
    exact kept _ (hashed.edits (collides.db valid).effects.edits)
  | skips kind opens deploys never =>
    have opened := created _ _ _ kind opens deploys
    exact Keeps.share ⟨opened.hashed, opened.cache⟩ inv.caller
  | succeeds kind opens ran ended' => exact (ended _ _ (called _ _ kind opens) ran).share inv.caller
  | fails kind opens ran failed reverted restored =>
    have kept := ended _ _ (called _ _ kind opens) ran
    refine kept.replace ?_ ?_ inv.caller
    · exact kept.1.revert reverted
    · rfl
  | @deploys before address request res kind opens deployed ran ended' short paid =>
    have kept := ended _ _ (created _ _ _ kind opens deployed) ran
    have done := opens.done journaled valid ran
    refine kept.replace ?_ ?_ inv.caller
    · exact kept.1.edits (setCode_edits done.valid address (Set.mem_univ _))
    · rfl
  | unpaid kind opens deployed ran ended' frontier => exact (ended _ _ (created _ _ _ kind opens deployed) ran).share inv.caller
  | abandons kind opens deployed ran abandoned reverted restored =>
    have kept := ended _ _ (created _ _ _ kind opens deployed) ran
    refine kept.replace ?_ ?_ inv.caller
    · exact kept.1.revert reverted
    · rfl

theorem analysis_upholds (env : Env) (scope : Scope env inside invoked) (apart : Set.InjOn keccak256 (Codes inside))
    (short : ∀ code ∈ Codes inside, code.length < 2 ^ 63) :
    Upholds env
      ⟨fun inv => ((journalCalls fun _ => True).pre inv ∧ invoked inv) ∧ Keeps (Codes inside) (inv.evm.shareJumpdests inv.caller),
        fun inv reply => ((journalCalls fun _ => True).post inv reply ∧ Answers env inv reply) ∧
          Keeps (Codes inside) (reply.evm.shareJumpdests inv.caller),
        fun fault => (journalCalls fun _ => True).safe fault ∧ True⟩
      ⟨fun request => ((journalRuns fun _ => True).pre request ∧ Started inside request) ∧ Fresh (Codes inside) request,
        fun request res => ((journalRuns fun _ => True).post request res ∧ (machine env).Returns request res) ∧
          Keeps (Codes inside) res.evm,
        fun fault => (journalRuns fun _ => True).safe fault ∧ True⟩
      fun request fr => (JournalKeeps (fun _ => True) request fr ∧ Ongoing env inside request fr) ∧ Sited (Codes inside) fr := by
  refine ((journal_upholds env steady_true).along scope).extend (fun request _ fresh => analysis_start fresh)
    (fun request fr kept sited => ?_) fun inv pre keeps => ?_
  · obtain ⟨outer, running⟩ := kept.2.running
    have member : fr.contract.code ∈ Codes inside := ⟨_, running, _, List.mem_cons_self, rfl⟩
    exact (analysis_step apart kept.1 member (short _ member) sited).weaken (fun _ good => good) (fun _ _ _ post => post.2)
      fun _ _ => trivial
  · exact analysis_entry ⟨fun _ _ post => post.1.1.2, fun _ _ post => post.1.1.1.err, trivial⟩ (fun _ => trivial)
      (fun _ fresh => fresh) (fun _ _ post => post.2) pre.1.2.1 keeps

end Runs

end CuteEVM
