import CuteEVM.Proofs.Simple

set_option autoImplicit false

namespace CuteEVM

open CallTree Exec

structure Fits (memorySize : Exec (Nat × Bool)) (fr : Frame) : Prop where
  asked : ∃ size, memorySize fr = .ret (.ok (size, false), fr) ∧ size ≤ fr.memory.store.length
  limit : fr.memory.store.length ≤ memoryLimit

section Fits

variable {fr : Frame}

theorem memoryRange_apply {i j : Nat} {off l : Int} (first : fr.stack[i]? = some off)
    (second : fr.stack[j]? = some l) : memoryRange i j fr = .ret (.ok (calcMemSize64 off l), fr) := by
  simp only [memoryRange, bind_apply, back_apply first, back_apply second, Prog.bind_ret, pure_apply]

theorem Fits.range {i j : Nat} {off l : Int} (fits : Fits (memoryRange i j) fr) (first : fr.stack[i]? = some off)
    (second : fr.stack[j]? = some l) : Covered off l fr.memory := by
  obtain ⟨size, asked, resized⟩ := fits.asked
  rw [memoryRange_apply first second] at asked
  simp only [Prog.ret.injEq, Prod.mk.injEq, Except.ok.injEq, and_true] at asked
  exact calcMemSize64_covers asked resized

theorem Fits.fixed {i length64 : Nat} {off : Int} (fits : Fits (memoryFixed i length64) fr)
    (first : fr.stack[i]? = some off) (small : length64 < 2 ^ 64) : Covered off length64 fr.memory := by
  obtain ⟨size, asked, resized⟩ := fits.asked
  simp only [memoryFixed, bind_apply, back_apply first, Prog.bind_ret, pure_apply, Prog.ret.injEq, Prod.mk.injEq,
    Except.ok.injEq, and_true] at asked
  exact calcMemSize64WithUint_covers asked small resized

theorem Fits.ranges {i j k l : Nat} {retOff retLen inOff inLen : Int} (fits : Fits (memoryRanges i j k l) fr)
    (first : fr.stack[i]? = some retOff) (second : fr.stack[j]? = some retLen)
    (third : fr.stack[k]? = some inOff) (fourth : fr.stack[l]? = some inLen) :
    Covered retOff retLen fr.memory ∧ Covered inOff inLen fr.memory := by
  obtain ⟨size, asked, resized⟩ := fits.asked
  simp only [memoryRanges, bind_apply, memoryRange_apply first second, Prog.bind_ret] at asked
  rcases wanted : calcMemSize64 retOff retLen with ⟨x, overflow⟩
  rcases wanted' : calcMemSize64 inOff inLen with ⟨y, overflow'⟩
  cases overflow with
  | true => simp [wanted] at asked
  | false =>
    simp only [wanted, Bool.false_eq_true, if_false, bind_apply, memoryRange_apply third fourth, Prog.bind_ret] at asked
    cases overflow' with
    | true => simp [wanted'] at asked
    | false =>
      simp only [wanted', Bool.false_eq_true, if_false] at asked
      -- The size is the larger one of the two, so both ranges fit.
      have both : x ≤ size ∧ y ≤ size := by
        split at asked <;> simp only [pure_apply, Prog.ret.injEq, Prod.mk.injEq, Except.ok.injEq, and_true] at asked
          <;> omega
      exact ⟨calcMemSize64_covers wanted (by omega), calcMemSize64_covers wanted' (by omega)⟩

end Fits

section Uses

variable (fr : Frame)

theorem changeMemory_apply {fr : Frame} {change : Memory → Except Panic Memory} {m : Memory} (result : change fr.memory = .ok m) :
    changeMemory change fr = .ret (.ok (), { fr with memory := m }) := by
  simp [changeMemory, result]

theorem Touched.change {fr fr' : Frame} {m : Memory} (touched : Touched fr fr') (change : Memory → Except Panic Memory)
    (result : change fr'.memory = .ok m) (length : m.store.length = fr'.memory.store.length) :
    changeMemory change fr' = .ret (.ok (), { fr' with memory := m }) ∧ Touched fr { fr' with memory := m } := by
  obtain ⟨memory, accesses, rfl, same, logged⟩ := touched
  exact ⟨changeMemory_apply result, m, accesses, rfl, length.trans same, logged⟩

theorem memorySet_touched {offset size : Nat} (covered : Covered offset size fr.memory)
    (limit : fr.memory.store.length ≤ memoryLimit) (value : Bytes) :
    ∃ fr', memorySet offset size value fr = .ret (.ok (), fr') ∧ Touched fr fr' := by
  obtain ⟨fr', recorded, same, touched⟩ := record_touched covered
  obtain ⟨m, result, length⟩ := Memory.set_covered covered limit value
  obtain ⟨changed, after⟩ := touched.change (fun m => m.set offset size value) (by rw [same]; exact result)
    (by rw [same]; exact length)
  exact ⟨_, by simp only [memorySet, bind_apply, recorded, Prog.bind_ret, changed], after⟩

theorem memorySet32_touched {offset : Nat} (covered : Covered offset 32 fr.memory)
    (limit : fr.memory.store.length ≤ memoryLimit) (val : Int) :
    ∃ fr', memorySet32 offset val fr = .ret (.ok (), fr') ∧ Touched fr fr' := by
  obtain ⟨fr', recorded, same, touched⟩ := record_touched covered
  obtain ⟨m, result, length⟩ := Memory.set32_covered covered limit val
  obtain ⟨changed, after⟩ := touched.change (fun m => m.set32 offset val) (by rw [same]; exact result)
    (by rw [same]; exact length)
  exact ⟨_, by simp only [memorySet32, bind_apply, recorded, Prog.bind_ret, changed], after⟩

theorem memoryStore_touched {off : Int} (covered : Covered off 1 fr.memory) (value : UInt8) :
    ∃ fr', memoryStore off value fr = .ret (.ok (), fr') ∧ Touched fr fr' := by
  obtain ⟨fr', recorded, same, touched⟩ := record_touched covered
  obtain ⟨m, result, length⟩ := Memory.storeByte_covered covered value
  obtain ⟨changed, after⟩ := touched.change (fun m => m.storeByte off value) (by rw [same]; exact result)
    (by rw [same]; exact length)
  exact ⟨_, by simp only [memoryStore, bind_apply, recorded, Prog.bind_ret, changed], after⟩

theorem memoryGet_touched {offset size : Int} (covered : Covered offset size fr.memory) :
    ∃ bytes fr', memoryGet offset size fr = .ret (.ok bytes, fr') ∧ Touched fr fr' ∧
      bytes.length ≤ fr.memory.store.length := by
  obtain ⟨fr', recorded, same, touched⟩ := record_touched covered
  obtain ⟨bytes, result, short⟩ := Memory.get_covered covered
  refine ⟨bytes, fr', ?_, touched, short⟩
  simp only [memoryGet, bind_apply, recorded, Prog.bind_ret, get_apply, same, lift, result]

theorem Touched.acts [Crypto] {fr fr' : Frame} {writes : Bool} {below : Stack} {read : StateDB}
    (touched : Touched { fr with stack := below, evm := { fr.evm with db := read } } fr') {stack : Stack} {db : StateDB}
    {res : Bytes} (height : stack.length ≤ StackLimit) (words : fr.Funded → ∀ word ∈ stack, 0 ≤ word)
    (gentle : Valid fr.evm.db → Gentle writes fr.evm.db db) (ret : res.length ≤ fr.memory.store.length) :
    Local writes fr (.ok res) { fr' with stack := stack, evm := { fr'.evm with db := db } } := by
  obtain ⟨memory, accesses, rfl, length, logged⟩ := touched
  exact {
    contract := rfl
    evm := rfl
    resets := rfl
    memory := length
    logged := logged
    height := height
    words := words
    db := gentle
    ret := by rintro _ ⟨⟩; exact ret
    err := by rintro _ ⟨⟩ }

theorem Touched.pushes [Crypto] {fr fr' : Frame} {writes : Bool} {below : Stack} {read : StateDB} {res : Bytes}
    (touched : Touched { fr with stack := below, evm := { fr.evm with db := read } } fr') {stack : Stack}
    (height : stack.length ≤ StackLimit) (words : fr.Funded → ∀ word ∈ stack, 0 ≤ word)
    (gentle : Valid fr.evm.db → Gentle writes fr.evm.db read) (ret : res.length ≤ fr.memory.store.length) :
    Local writes fr (.ok res) { fr' with stack := stack } := by
  have same : fr'.evm = { fr'.evm with db := read } := by
    obtain ⟨memory, accesses, rfl, -⟩ := touched
    rfl
  rw [same]
  exact touched.acts height words gentle ret

theorem Touched.stack {fr fr' : Frame} (touched : Touched fr fr') : fr'.stack = fr.stack := by
  obtain ⟨memory, accesses, rfl, -⟩ := touched
  rfl

theorem Touched.db {fr fr' : Frame} (touched : Touched fr fr') : fr'.evm.db = fr.evm.db := by
  obtain ⟨memory, accesses, rfl, -⟩ := touched
  rfl

theorem Touched.ends [Crypto] {fr fr' : Frame} {writes : Bool} {rest : Stack} {read : StateDB} {res : Bytes}
    (touched : Touched { fr with stack := rest, evm := { fr.evm with db := read } } fr')
    (height : rest.length ≤ StackLimit) (words : fr.Funded → ∀ word ∈ rest, 0 ≤ word)
    (gentle : Valid fr.evm.db → Gentle writes fr.evm.db read) (ret : res.length ≤ fr.memory.store.length) :
    Local writes fr (.ok res) fr' := by
  have same : fr' = { fr' with stack := rest } := by
    rw [← show fr'.stack = rest from touched.stack]
  rw [same]
  exact touched.pushes height words gentle ret

end Uses

section Faults

theorem getDataBig_sliced (data : Bytes) (start size : Int) : Sliced (getDataBig data start size) :=
  (slice_sliced _ _ _).bind fun _ => .checked _

theorem sat_lift {α β : Type} {spec : Spec Invocation Reply Panic} {good : Except Err β × Frame → Prop}
    {result : Except Panic α} {next : α → Exec β} {fr : Frame} (faults : ∀ fault, result = .error fault → spec.safe fault)
    (tail : ∀ value, result = .ok value → (next value fr).Sat spec good) :
    ((lift result >>= next) fr).Sat spec good := by
  simp only [bind_apply, lift]
  cases result with
  | ok value => exact tail value rfl
  | error fault => exact faults fault rfl

end Faults

section Instructions

variable [Crypto] {fr : Frame}

theorem onSlot_local {read : Frame → Int → StateDB → Int × StateDB}
    (reads : ∀ fr slot s, Valid s → Reads s (read fr slot s).2)
    (nonneg : ∀ fr slot, (∀ a, 0 ≤ fr.evm.db.balances a) → 0 ≤ (read fr slot fr.evm.db).1)
    (low : 1 ≤ fr.stack.length) (high : fr.stack.length ≤ maxStack 1 1) :
    (onSlot read fr).Sat localSpec fun p => Local false fr p.1 p.2 := by
  obtain ⟨slot, rest, shape, -⟩ := exists_cons low
  simp only [shape, List.length_cons, maxStack, StackLimit] at high
  simp only [onSlot, bind_apply, pop_apply shape, Prog.bind_ret, get_apply, readDb_apply, push_apply, done, pure_apply,
    Prog.sat_ret]
  exact {
    contract := rfl
    evm := rfl
    resets := rfl
    memory := rfl
    logged := .refl _
    height := by simp [StackLimit]; omega
    words := by
      intro funded
      have words := funded.words
      simp only [Frame.Nonneg, shape, List.forall_mem_cons] at words ⊢
      exact ⟨nonneg _ _ funded.balances, words.2⟩
    db := fun valid => (reads _ _ _ valid).gentle false
    ret := by rintro _ ⟨⟩; simp
    err := by rintro _ ⟨⟩ }

omit [Crypto] in
theorem StateDB.getBalance_value (s : StateDB) (a : Address) : (s.getBalance a).1 = s.balances a := by
  cases found : s.lookup a <;> simp [getBalance, s.getStateObject_eq, found, balances]

theorem opBalance_local (low : 1 ≤ fr.stack.length) (high : fr.stack.length ≤ maxStack 1 1) :
    (opBalance fr).Sat localSpec fun p => Local false fr p.1 p.2 :=
  onSlot_local (fun _ _ _ valid => StateDB.getBalance_reads valid _)
    (fun _ _ balances => by rw [StateDB.getBalance_value]; exact balances _) low high

theorem opExtCodeSize_local (low : 1 ≤ fr.stack.length) (high : fr.stack.length ≤ maxStack 1 1) :
    (opExtCodeSize fr).Sat localSpec fun p => Local false fr p.1 p.2 :=
  onSlot_local (fun _ _ _ valid => StateDB.getCodeSize_reads valid _) (fun _ _ _ => Int.natCast_nonneg _) low high

theorem opSload_local (low : 1 ≤ fr.stack.length) (high : fr.stack.length ≤ maxStack 1 1) :
    (opSload fr).Sat localSpec fun p => Local false fr p.1 p.2 :=
  onSlot_local (fun _ _ _ valid => StateDB.getState_reads valid _ _) (fun _ _ _ => Int.natCast_nonneg _) low high

theorem opExtCodeHash_local (low : 1 ≤ fr.stack.length) (high : fr.stack.length ≤ maxStack 1 1) :
    (opExtCodeHash fr).Sat localSpec fun p => Local false fr p.1 p.2 := by
  refine onSlot_local (fun fr slot s valid => ?_) (fun fr slot _ => ?_) low high
  · have emptied := StateDB.empty_reads valid (bigToAddress slot)
    simp only
    split
    · exact emptied
    · exact emptied.trans (StateDB.getCodeHash_reads emptied.valid _)
  · simp only
    split
    · exact Int.le_refl 0
    · exact Int.natCast_nonneg _

theorem opCallDataLoad_local (low : 1 ≤ fr.stack.length) (high : fr.stack.length ≤ maxStack 1 1) :
    (opCallDataLoad fr).Sat localSpec fun p => Local false fr p.1 p.2 := by
  obtain ⟨start, rest, shape, -⟩ := exists_cons low
  simp only [shape, List.length_cons, maxStack, StackLimit] at high
  unfold opCallDataLoad
  simp only [bind_apply, get_apply, pop_apply shape, Prog.bind_ret]
  refine sat_lift (getDataBig_sliced _ _ _) fun data _ => ?_
  simp only [push_apply, Prog.bind_ret, done, pure_apply, Prog.sat_ret]
  refine .of_stack _ _ (by simp [StackLimit]; omega) fun funded => ?_
  have words := funded.words
  simp only [Frame.Nonneg, shape, List.forall_mem_cons] at words ⊢
  exact ⟨Int.natCast_nonneg _, words.2⟩

theorem dataCopy_local (data : Bytes) {below : Stack} {read : StateDB}
    (reads : Valid fr.evm.db → Reads fr.evm.db read) (low : 3 ≤ below.length) (high : below.length ≤ maxStack 3 0)
    (covered : ∀ memOffset length, below[0]? = some memOffset → below[2]? = some length →
      Covered memOffset length fr.memory)
    (limit : fr.memory.store.length ≤ memoryLimit) (words : fr.Funded → ∀ word ∈ below, 0 ≤ word) :
    (dataCopy data { fr with stack := below, evm := { fr.evm with db := read } }).Sat localSpec
      fun p => Local false fr p.1 p.2 := by
  obtain ⟨memOffset, dataOffset, length, rest, rfl⟩ := exists_three low
  simp only [List.length_cons, maxStack, StackLimit] at high
  simp only [dataCopy, bind_apply, pop, Prog.bind_ret]
  refine sat_lift (getDataBig_sliced _ _ _) fun copied _ => ?_
  have inside := (covered memOffset length rfl rfl).uint64 limit
  obtain ⟨fr', result, touched⟩ :=
    memorySet_touched { fr with stack := rest, evm := { fr.evm with db := read } } inside limit copied
  simp only [result, Prog.bind_ret, done, pure_apply, Prog.sat_ret]
  refine touched.ends (by simp [StackLimit]; omega) (fun funded word member => ?_)
    (fun valid => (reads valid).gentle false) (by simp)
  exact words funded word (by simp [member])

theorem opCallDataCopy_local (low : 3 ≤ fr.stack.length) (high : fr.stack.length ≤ maxStack 3 0)
    (fits : Fits memoryCallDataCopy fr) : (opCallDataCopy fr).Sat localSpec fun p => Local false fr p.1 p.2 :=
  dataCopy_local fr.contract.input (fun valid => .refl valid) low high
    (fun _ _ first third => fits.range first third) fits.limit (fun funded => funded.words)

theorem opCodeCopy_local (low : 3 ≤ fr.stack.length) (high : fr.stack.length ≤ maxStack 3 0)
    (fits : Fits memoryCodeCopy fr) : (opCodeCopy fr).Sat localSpec fun p => Local false fr p.1 p.2 :=
  dataCopy_local fr.contract.code (fun valid => .refl valid) low high
    (fun _ _ first third => fits.range first third) fits.limit (fun funded => funded.words)

theorem opExtCodeCopy_local (low : 4 ≤ fr.stack.length) (high : fr.stack.length ≤ maxStack 4 0)
    (fits : Fits memoryExtCodeCopy fr) : (opExtCodeCopy fr).Sat localSpec fun p => Local false fr p.1 p.2 := by
  obtain ⟨addr, below, shape, low₁⟩ := exists_cons low
  simp only [shape, List.length_cons, maxStack] at high
  simp only [opExtCodeCopy, bind_apply, pop_apply shape, Prog.bind_ret, readDb_apply]
  refine dataCopy_local _ (fun valid => StateDB.getCode_reads valid _) low₁ (by simp only [maxStack]; omega) ?_
    fits.limit ?_
  · -- The operands of the copy sit one deeper on the stack than those of the other copies.
    intro memOffset length first third
    exact fits.range (by simpa [shape] using first) (by simpa [shape] using third)
  · intro funded word member
    exact funded.words word (by simp [shape, member])

theorem opReturnDataCopy_local (low : 3 ≤ fr.stack.length) (high : fr.stack.length ≤ maxStack 3 0)
    (fits : Fits memoryReturnDataCopy fr) : (opReturnDataCopy fr).Sat localSpec fun p => Local false fr p.1 p.2 := by
  obtain ⟨memOffset, dataOffset, length, rest, shape⟩ := exists_three low
  have inside : Covered (uint64 memOffset) (uint64 length) fr.memory :=
    (fits.range (by simp [shape]) (by simp [shape])).uint64 fits.limit
  simp only [shape, List.length_cons, maxStack, StackLimit] at high
  have words : fr.Funded → ∀ word ∈ rest, 0 ≤ word :=
    fun funded word member => funded.words word (by simp [shape, member])
  simp only [opReturnDataCopy, bind_apply, pop, shape, Prog.bind_ret, get_apply]
  split
  · exact { Local.of_stack false fr.pc (show rest.length ≤ StackLimit by simp [StackLimit]; omega) words with
      ret := by rintro _ ⟨⟩
      err := by rintro _ ⟨⟩; rfl }
  · refine sat_lift (slice_sliced _ _ _) fun copied _ => ?_
    obtain ⟨fr', result, touched⟩ := memorySet_touched { fr with stack := rest } inside fits.limit copied
    simp only [bind_apply, result, Prog.bind_ret, done, pure_apply, Prog.sat_ret]
    exact touched.ends (by simp [StackLimit]; omega) words (fun valid => .refl valid false) (by simp)

theorem opMload_local (low : 1 ≤ fr.stack.length) (high : fr.stack.length ≤ maxStack 1 1)
    (fits : Fits memoryMLoad fr) : (opMload fr).Sat localSpec fun p => Local false fr p.1 p.2 := by
  obtain ⟨offset, rest, shape, -⟩ := exists_cons low
  have inside : Covered (int64 offset) (int64 32) fr.memory :=
    (fits.fixed (by simp [shape]) (by decide)).int64 fits.limit
  simp only [shape, List.length_cons, maxStack, StackLimit] at high
  obtain ⟨val, fr', result, touched, -⟩ := memoryGet_touched { fr with stack := rest } inside
  simp only [opMload, bind_apply, pop_apply shape, Prog.bind_ret]
  rw [show memoryGet (int64 offset) 32 { fr with stack := rest } = _ from result]
  simp only [Prog.bind_ret, push_apply, done, pure_apply, Prog.sat_ret]
  rw [touched.stack]
  refine touched.pushes (by simp [StackLimit]; omega) (fun funded => ?_) (fun valid => .refl valid false) (by simp)
  have words := funded.words
  simp only [Frame.Nonneg, shape, List.forall_mem_cons] at words ⊢
  exact ⟨Int.natCast_nonneg _, words.2⟩

theorem opMstore_local (low : 2 ≤ fr.stack.length) (high : fr.stack.length ≤ maxStack 2 0)
    (fits : Fits memoryMStore fr) : (opMstore fr).Sat localSpec fun p => Local false fr p.1 p.2 := by
  obtain ⟨mStart, val, rest, shape⟩ := exists_two low
  have inside : Covered (uint64 mStart) (uint64 32) fr.memory :=
    (fits.fixed (by simp [shape]) (by decide)).uint64 fits.limit
  simp only [shape, List.length_cons, maxStack, StackLimit] at high
  obtain ⟨fr', result, touched⟩ := memorySet32_touched { fr with stack := rest } inside fits.limit val
  simp only [opMstore, bind_apply, pop, shape, Prog.bind_ret, result, done, pure_apply, Prog.sat_ret]
  refine touched.ends (by simp [StackLimit]; omega) (fun funded word member => ?_) (fun valid => .refl valid false)
    (by simp)
  exact funded.words word (by simp [shape, member])

theorem opMstore8_local (low : 2 ≤ fr.stack.length) (high : fr.stack.length ≤ maxStack 2 0)
    (fits : Fits memoryMStore8 fr) : (opMstore8 fr).Sat localSpec fun p => Local false fr p.1 p.2 := by
  obtain ⟨off, val, rest, shape⟩ := exists_two low
  have inside : Covered (int64 off) (int64 1) fr.memory :=
    (fits.fixed (by simp [shape]) (by decide)).int64 fits.limit
  simp only [shape, List.length_cons, maxStack, StackLimit] at high
  obtain ⟨fr', result, touched⟩ :=
    memoryStore_touched { fr with stack := rest } inside (UInt8.ofNat (int64 val % 256).toNat)
  simp only [opMstore8, bind_apply, pop, shape, Prog.bind_ret, result, done, pure_apply, Prog.sat_ret]
  refine touched.ends (by simp [StackLimit]; omega) (fun funded word member => ?_) (fun valid => .refl valid false)
    (by simp)
  exact funded.words word (by simp [shape, member])

theorem opSha3_local (env : Env) (low : 2 ≤ fr.stack.length) (high : fr.stack.length ≤ maxStack 2 1)
    (fits : Fits memorySha3 fr) : (opSha3 env fr).Sat localSpec fun p => Local false fr p.1 p.2 := by
  obtain ⟨offset, size, rest, shape⟩ := exists_two low
  have inside : Covered (int64 offset) (int64 size) fr.memory :=
    (fits.range (by simp [shape]) (by simp [shape])).int64 fits.limit
  simp only [shape, List.length_cons, maxStack, StackLimit] at high
  obtain ⟨data, fr', result, touched, -⟩ := memoryGet_touched { fr with stack := rest } inside
  simp only [opSha3, bind_apply, pop, shape, Prog.bind_ret, result, writeDb_apply, push_apply, done, pure_apply,
    Prog.sat_ret]
  rw [touched.stack, touched.db]
  refine touched.acts (by simp [StackLimit]; omega) (fun funded => ?_) (fun valid => ?_) (by simp)
  · have words := funded.words
    simp only [Frame.Nonneg, shape, List.forall_mem_cons] at words ⊢
    exact ⟨Int.natCast_nonneg _, words.2.2⟩
  · split
    · exact ⟨addPreimage_evolves valid _ _, addPreimage_balances _ _ _, fun _ => addPreimage_quiet _ _ _⟩
    · exact .refl valid false

theorem returnRange_local (low : 2 ≤ fr.stack.length) (high : fr.stack.length ≤ maxStack 2 0)
    (fits : Fits (memoryRange 0 1) fr) : (returnRange fr).Sat localSpec fun p => Local false fr p.1 p.2 := by
  obtain ⟨offset, size, rest, shape⟩ := exists_two low
  have inside : Covered (int64 offset) (int64 size) fr.memory :=
    (fits.range (by simp [shape]) (by simp [shape])).int64 fits.limit
  simp only [shape, List.length_cons, maxStack, StackLimit] at high
  obtain ⟨data, fr', result, touched, short⟩ := memoryGet_touched { fr with stack := rest } inside
  simp only [returnRange, bind_apply, pop, shape, Prog.bind_ret]
  rw [show memoryGetPtr (int64 offset) (int64 size) { fr with stack := rest } = _ from result]
  refine touched.ends (by simp [StackLimit]; omega) (fun funded word member => ?_) (fun valid => .refl valid false)
    short
  exact funded.words word (by simp [shape, member])

theorem opSstore_local (low : 2 ≤ fr.stack.length) (high : fr.stack.length ≤ maxStack 2 0) :
    (opSstore fr).Sat localSpec fun p => Local true fr p.1 p.2 := by
  obtain ⟨loc, val, rest, shape⟩ := exists_two low
  simp only [shape, List.length_cons, maxStack, StackLimit] at high
  simp only [opSstore, bind_apply, pop, shape, Prog.bind_ret, get_apply, writeDb_apply, done, pure_apply, Prog.sat_ret]
  exact {
    contract := rfl
    evm := rfl
    resets := rfl
    memory := rfl
    logged := .refl _
    height := by simp [StackLimit]; omega
    words := fun funded word member => funded.words word (by simp [shape, member])
    db := fun valid => ⟨setState_evolves valid _ _ _, setState_balances valid _ _ _, by rintro ⟨⟩⟩
    ret := by rintro _ ⟨⟩; simp
    err := by rintro _ ⟨⟩ }

omit [Crypto] in
theorem popTopics_apply (size : Nat) {fr : Frame} (low : size ≤ fr.stack.length) :
    ∃ topics, popTopics size fr = .ret (.ok topics, { fr with stack := fr.stack.drop size }) := by
  induction size generalizing fr with
  | zero => exact ⟨[], rfl⟩
  | succ size ih =>
    obtain ⟨topic, rest, shape, low₁⟩ := exists_cons low
    obtain ⟨topics, popped⟩ := ih (show size ≤ ({ fr with stack := rest } : Frame).stack.length from low₁)
    refine ⟨bigToHash topic :: topics, ?_⟩
    simp only [popTopics, bind_apply, pop_apply shape, Prog.bind_ret, popped, pure_apply, shape, List.drop_succ_cons]

theorem makeLog_local (env : Env) {size : Nat} (low : size + 2 ≤ fr.stack.length)
    (high : fr.stack.length ≤ maxStack (size + 2) 0) (fits : Fits memoryLog fr) :
    (makeLog env size fr).Sat localSpec fun p => Local true fr p.1 p.2 := by
  obtain ⟨mStart, rest₁, shape, low₁⟩ := exists_cons low
  obtain ⟨mSize, rest, rfl, low₂⟩ := exists_cons low₁
  have inside : Covered (int64 mStart) (int64 mSize) fr.memory :=
    (fits.range (by simp [shape]) (by simp [shape])).int64 fits.limit
  simp only [shape, List.length_cons, maxStack, StackLimit] at high
  obtain ⟨topics, popped⟩ := popTopics_apply size (show size ≤ ({ fr with stack := rest } : Frame).stack.length from low₂)
  obtain ⟨data, fr', result, touched, -⟩ := memoryGet_touched { fr with stack := rest.drop size } inside
  simp only [makeLog, bind_apply, pop, shape, Prog.bind_ret, popped, result, get_apply, writeDb_apply, done, pure_apply,
    Prog.sat_ret]
  rw [touched.db]
  have kept : fr' = { fr' with stack := rest.drop size } := by
    rw [← show fr'.stack = rest.drop size from touched.stack]
  rw [kept]
  refine touched.acts (by simp [StackLimit]; omega) (fun funded word member => ?_)
    (fun valid => ⟨addLog_evolves valid _, rfl, by rintro ⟨⟩⟩) (by simp)
  exact funded.words word (by simp [shape, List.mem_of_mem_drop member])

def Analysed (fr fr' : Frame) : Prop :=
  ∃ jumpdests analysis, fr' = { fr with
    evm := { fr.evm with jumpdests := jumpdests }
    contract := { fr.contract with analysis := analysis } }

omit [Crypto] in
theorem analyse_analysed (fr : Frame) : ∃ analysis fr', analyse fr = .ret (.ok analysis, fr') ∧ Analysed fr fr' := by
  unfold analyse
  repeat' split
  all_goals exact ⟨_, _, rfl, _, _, rfl⟩

theorem Analysed.local {rest : Stack} {fr' : Frame} {result : Except Err Bytes}
    (analysed : Analysed { fr with stack := rest } fr') (pc : Nat) (height : rest.length ≤ StackLimit)
    (words : fr.Funded → ∀ word ∈ rest, 0 ≤ word) (outcome : result = .ok [] ∨ result = .error .invalidJump) :
    Local false fr result { fr' with pc := pc } := by
  obtain ⟨jumpdests, analysis, rfl⟩ := analysed
  exact {
    contract := rfl
    evm := rfl
    resets := rfl
    memory := rfl
    logged := .refl _
    height := height
    words := words
    db := fun valid => .refl valid false
    ret := by
      rintro _ rfl
      obtain ⟨⟨⟩⟩ | ⟨⟨⟩⟩ := outcome
      simp
    err := by
      rintro _ rfl
      obtain ⟨⟨⟩⟩ | ⟨⟨⟩⟩ := outcome
      rfl }

omit [Crypto] in
theorem validJumpdest_sat (pos : Int) (fr : Frame) : (validJumpdest pos fr).Sat localSpec
    fun p => ∃ valid, p.1 = .ok valid ∧ Analysed fr p.2 := by
  simp only [validJumpdest, bind_apply, get_apply, Prog.bind_ret]
  split
  · exact ⟨false, rfl, _, _, rfl⟩
  · split
    · exact ⟨false, rfl, _, _, rfl⟩
    · obtain ⟨analysis, fr', result, analysed⟩ := analyse_analysed fr
      simp only [bind_apply, result, Prog.bind_ret, lift]
      cases segment : analysis.codeSegment (uint64 pos) with
      | ok valid => exact ⟨valid, rfl, analysed⟩
      | error fault =>
        unfold Bitvec.codeSegment at segment
        split at segment
        · simp at segment
        · exact (Except.error.inj segment).symm

theorem jumpTo_local (pos : Int) {rest : Stack} (height : rest.length ≤ StackLimit)
    (words : fr.Funded → ∀ word ∈ rest, 0 ≤ word) :
    (jumpTo pos { fr with stack := rest }).Sat localSpec fun p => Local false fr p.1 p.2 := by
  refine sat_bind (validJumpdest_sat pos _) ?_ ?_
  · rintro valid fr' ⟨_, _, analysed⟩
    cases valid with
    | true => exact analysed.local _ height words (.inl rfl)
    | false => exact analysed.local fr'.pc height words (.inr rfl)
  · rintro err fr' ⟨_, ⟨⟩, _⟩

theorem opJump_local (low : 1 ≤ fr.stack.length) (high : fr.stack.length ≤ maxStack 1 0) :
    (opJump fr).Sat localSpec fun p => Local false fr p.1 p.2 := by
  obtain ⟨pos, rest, shape, -⟩ := exists_cons low
  simp only [shape, List.length_cons, maxStack, StackLimit] at high
  simp only [opJump, bind_apply, pop_apply shape, Prog.bind_ret]
  refine jumpTo_local pos (by simp [StackLimit]; omega) fun funded word member => ?_
  exact funded.words word (by simp [shape, member])

theorem opJumpi_local (low : 2 ≤ fr.stack.length) (high : fr.stack.length ≤ maxStack 2 0) :
    (opJumpi fr).Sat localSpec fun p => Local false fr p.1 p.2 := by
  obtain ⟨pos, cond, rest, shape⟩ := exists_two low
  simp only [shape, List.length_cons, maxStack, StackLimit] at high
  have height : rest.length ≤ StackLimit := by simp [StackLimit]; omega
  have words : fr.Funded → ∀ word ∈ rest, 0 ≤ word :=
    fun funded word member => funded.words word (by simp [shape, member])
  simp only [opJumpi, bind_apply, pop, shape, Prog.bind_ret]
  split
  · exact jumpTo_local pos height words
  · exact .of_stack _ _ height words

end Instructions

end CuteEVM
