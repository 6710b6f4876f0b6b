import CuteEVM.Proofs.Effects

set_option autoImplicit false

namespace CuteEVM

open CallTree Exec

theorem exists_cons {n : Nat} {st : Stack} (low : n + 1 ≤ st.length) :
    ∃ word rest, st = word :: rest ∧ n ≤ rest.length := by
  cases st with
  | nil => simp at low
  | cons word rest => exact ⟨word, rest, rfl, by simpa using low⟩

theorem exists_two {st : Stack} (low : 2 ≤ st.length) : ∃ x y rest, st = x :: y :: rest := by
  obtain ⟨x, _, rfl, more⟩ := exists_cons low
  obtain ⟨y, rest, rfl, -⟩ := exists_cons more
  exact ⟨x, y, rest, rfl⟩

theorem exists_three {st : Stack} (low : 3 ≤ st.length) : ∃ x y z rest, st = x :: y :: z :: rest := by
  obtain ⟨x, _, rfl, more⟩ := exists_cons low
  obtain ⟨y, z, rest, rfl⟩ := exists_two more
  exact ⟨x, y, z, rest, rfl⟩

theorem exists_four {st : Stack} (low : 4 ≤ st.length) : ∃ w x y z rest, st = w :: x :: y :: z :: rest := by
  obtain ⟨w, _, rfl, more⟩ := exists_cons low
  obtain ⟨x, y, z, rest, rfl⟩ := exists_three more
  exact ⟨w, x, y, z, rest, rfl⟩

theorem exists_six {st : Stack} (low : 6 ≤ st.length) : ∃ u v w x y z rest, st = u :: v :: w :: x :: y :: z :: rest := by
  obtain ⟨u, _, rfl, more⟩ := exists_cons low
  obtain ⟨v, _, rfl, more'⟩ := exists_cons more
  obtain ⟨w, x, y, z, rest, rfl⟩ := exists_four more'
  exact ⟨u, v, w, x, y, z, rest, rfl⟩

theorem exists_seven {st : Stack} (low : 7 ≤ st.length) : ∃ t u v w x y z rest, st = t :: u :: v :: w :: x :: y :: z :: rest := by
  obtain ⟨t, _, rfl, more⟩ := exists_cons low
  obtain ⟨u, v, w, x, y, z, rest, rfl⟩ := exists_six more
  exact ⟨t, u, v, w, x, y, z, rest, rfl⟩

/-! Words computed from non-negative words are non-negative. -/

theorem flag_nonneg (condition : Bool) : 0 ≤ flag condition := by
  unfold flag
  split <;> decide

theorem wordDiv_nonneg (x y : Int) : 0 ≤ wordDiv x y := by
  unfold wordDiv
  split
  · exact U256_nonneg _
  · decide

theorem wordSdiv_nonneg (x y : Int) : 0 ≤ wordSdiv x y := by
  unfold wordSdiv
  simp only
  repeat' split
  all_goals first | exact U256_nonneg _ | decide

theorem wordMod_nonneg (x y : Int) : 0 ≤ wordMod x y := by
  unfold wordMod
  split
  · decide
  · exact U256_nonneg _

theorem wordSmod_nonneg (x y : Int) : 0 ≤ wordSmod x y := by
  unfold wordSmod
  simp only
  repeat' split
  all_goals first | exact U256_nonneg _ | decide

theorem expWord_nonneg (bits : Nat) (pair : Int × Int) (word : Nat) (nonneg : 0 ≤ pair.1) :
    0 ≤ (expWord bits pair word).1 := by
  induction bits generalizing pair word with
  | zero => exact nonneg
  | succ bits ih =>
    refine ih _ _ ?_
    split
    · exact U256_nonneg _
    · exact nonneg

theorem wordExp_nonneg (base exponent : Int) (nonneg : 0 ≤ base) : 0 ≤ wordExp base exponent := by
  unfold wordExp
  repeat' split
  · decide
  · decide
  · exact nonneg
  · refine List.foldlRecOn (motive := fun pair : Int × Int => 0 ≤ pair.1) _ _ (by decide : (0 : Int) ≤ 1) ?_
    exact fun pair nonneg word _ => expWord_nonneg 64 pair word nonneg

theorem wordSlt_nonneg (x y : Int) : 0 ≤ wordSlt x y := by
  unfold wordSlt
  repeat' split
  all_goals first | exact flag_nonneg _ | decide

theorem wordSgt_nonneg (x y : Int) : 0 ≤ wordSgt x y := by
  unfold wordSgt
  repeat' split
  all_goals first | exact flag_nonneg _ | decide

theorem wordIszero_nonneg (x : Int) : 0 ≤ wordIszero x := by
  unfold wordIszero
  split <;> decide

theorem wordByte_nonneg (th val : Int) : 0 ≤ wordByte th val := by
  unfold wordByte
  split
  · exact Int.natCast_nonneg _
  · decide

theorem wordAddmod_nonneg (x y z : Int) : 0 ≤ wordAddmod x y z := by
  unfold wordAddmod
  split
  · exact U256_nonneg _
  · decide

theorem wordMulmod_nonneg (x y z : Int) : 0 ≤ wordMulmod x y z := by
  unfold wordMulmod
  split
  · exact U256_nonneg _
  · decide

theorem wordSHL_nonneg (x y : Int) : 0 ≤ wordSHL x y := by
  unfold wordSHL
  simp only
  split
  · decide
  · exact U256_nonneg _

theorem wordSHR_nonneg (x y : Int) : 0 ≤ wordSHR x y := by
  unfold wordSHR
  simp only
  split
  · decide
  · exact U256_nonneg _

theorem wordSAR_nonneg (x y : Int) : 0 ≤ wordSAR x y := by
  unfold wordSAR
  simp only
  split <;> exact U256_nonneg _

theorem land_nonneg (x y : Int) (left : 0 ≤ x) (right : 0 ≤ y) : 0 ≤ x.land y := by
  lift x to Nat using left
  lift y to Nat using right
  exact Int.natCast_nonneg _

theorem lor_nonneg (x y : Int) (left : 0 ≤ x) (right : 0 ≤ y) : 0 ≤ x.lor y := by
  lift x to Nat using left
  lift y to Nat using right
  exact Int.natCast_nonneg _

theorem xor_nonneg (x y : Int) (left : 0 ≤ x) (right : 0 ≤ y) : 0 ≤ x.xor y := by
  lift x to Nat using left
  lift y to Nat using right
  exact Int.natCast_nonneg _

theorem blockhash_nonneg (env : Env) (num : Int) : 0 ≤ blockhash env num := by
  unfold blockhash
  split
  · exact Int.natCast_nonneg _
  · decide

section Slices

variable {α β : Type}

def Sliced (result : Except Panic α) : Prop := ∀ fault, result = .error fault → fault = .sliceBounds

theorem Sliced.ok (value : α) : Sliced (.ok value) := nofun

theorem Sliced.checked {p : Prop} [Decidable p] (value : α) : Sliced (if p then .ok value else .error .sliceBounds) := by
  split
  · exact .ok value
  · rintro _ ⟨⟩
    rfl

theorem Sliced.bind {first : Except Panic α} {next : α → Except Panic β} (head : Sliced first)
    (tail : ∀ value, Sliced (next value)) : Sliced (first >>= next) := by
  cases first with
  | ok value => exact tail value
  | error fault =>
    rintro _ ⟨⟩
    exact head fault rfl

theorem Sliced.map {result : Except Panic α} (sliced : Sliced result) (f : α → β) : Sliced (result.map f) := by
  cases result with
  | ok value => nofun
  | error fault =>
    rintro _ ⟨⟩
    exact sliced fault rfl

theorem slice_sliced (data : Bytes) (low high : Nat) : Sliced (slice data low high) := .checked _

end Slices

theorem pushData_fault {code : Bytes} {pc pushByteSize : Nat} {fault : Panic}
    (failed : pushData code pc pushByteSize = .error fault) :
    fault = .sliceBounds := by
  unfold pushData at failed
  split at failed
  · exact (Except.error.inj failed).symm
  · exact slice_sliced _ _ _ fault failed

variable [Crypto]

/-! Stack instructions -/

section Stack

variable {fr : Frame}

theorem unary_local {f : Int → Int} (nonneg : ∀ x, 0 ≤ x → 0 ≤ f x) (low : 1 ≤ fr.stack.length)
    (high : fr.stack.length ≤ maxStack 1 1) :
    (unary f fr).Sat localSpec fun p => Local false fr p.1 p.2 := by
  obtain ⟨x, rest, shape, -⟩ := exists_cons low
  simp only [shape, List.length_cons, maxStack, StackLimit] at high
  simp only [unary, pop_apply shape, bind_apply, Prog.bind_ret, push_apply, done, pure_apply, Prog.sat_ret]
  refine .of_stack _ _ (by simp [StackLimit]; omega) fun funded => ?_
  have words := funded.words
  simp only [Frame.Nonneg, shape, List.forall_mem_cons] at words ⊢
  exact ⟨nonneg x words.1, words.2⟩

theorem binary_local {f : Int → Int → Int} (nonneg : ∀ x y, 0 ≤ x → 0 ≤ y → 0 ≤ f x y)
    (low : 2 ≤ fr.stack.length) (high : fr.stack.length ≤ maxStack 2 1) :
    (binary f fr).Sat localSpec fun p => Local false fr p.1 p.2 := by
  obtain ⟨x, y, rest, shape⟩ := exists_two low
  simp only [shape, List.length_cons, maxStack, StackLimit] at high
  simp only [binary, bind_apply, pop, shape, Prog.bind_ret, push_apply, done, pure_apply, Prog.sat_ret]
  refine .of_stack _ _ (by simp [StackLimit]; omega) fun funded => ?_
  have words := funded.words
  simp only [Frame.Nonneg, shape, List.forall_mem_cons] at words ⊢
  exact ⟨nonneg x y words.1 words.2.1, words.2.2⟩

theorem ternary_local {f : Int → Int → Int → Int} (nonneg : ∀ x y z, 0 ≤ f x y z)
    (low : 3 ≤ fr.stack.length) (high : fr.stack.length ≤ maxStack 3 1) :
    (ternary f fr).Sat localSpec fun p => Local false fr p.1 p.2 := by
  obtain ⟨x, y, z, rest, shape⟩ := exists_three low
  simp only [shape, List.length_cons, maxStack, StackLimit] at high
  simp only [ternary, bind_apply, pop, shape, Prog.bind_ret, push_apply, done, pure_apply, Prog.sat_ret]
  refine .of_stack _ _ (by simp [StackLimit]; omega) fun funded => ?_
  have words := funded.words
  simp only [Frame.Nonneg, shape, List.forall_mem_cons] at words ⊢
  exact ⟨nonneg x y z, words.2.2.2⟩

theorem nullary_local {value : Frame → Int} (nonneg : fr.Funded → 0 ≤ value fr)
    (high : fr.stack.length ≤ maxStack 0 1) :
    (nullary value fr).Sat localSpec fun p => Local false fr p.1 p.2 := by
  simp only [maxStack, StackLimit] at high
  simp only [nullary, get_apply, bind_apply, Prog.bind_ret, push_apply, done, pure_apply, Prog.sat_ret]
  refine .of_stack _ _ (by simp [StackLimit]; omega) fun funded => ?_
  exact List.forall_mem_cons.mpr ⟨nonneg funded, funded.words⟩

-- Either one or two words are popped, but then as many as the table says are left.
theorem opSignExtend_local (low : 2 ≤ fr.stack.length) (high : fr.stack.length ≤ maxStack 2 1) :
    (opSignExtend fr).Sat localSpec fun p => Local false fr p.1 p.2 := by
  obtain ⟨x, y, rest, shape⟩ := exists_two low
  simp only [shape, List.length_cons, maxStack, StackLimit] at high
  simp only [opSignExtend, pop_apply shape, bind_apply, Prog.bind_ret]
  have nonneg : 0 ≤ signExtend x y := by
    unfold signExtend
    simp only
    split <;> exact U256_nonneg _
  split
  · simp only [bind_apply, pop, Prog.bind_ret, push_apply, done, pure_apply, Prog.sat_ret]
    refine .of_stack _ _ (by simp [StackLimit]; omega) fun funded => ?_
    have words := funded.words
    simp only [Frame.Nonneg, shape, List.forall_mem_cons] at words ⊢
    exact ⟨nonneg, words.2.2⟩
  · simp only [done, pure_apply, Prog.sat_ret]
    refine .of_stack _ _ (by simp [StackLimit]; omega) fun funded => ?_
    have words := funded.words
    simp only [Frame.Nonneg, shape, List.forall_mem_cons] at words ⊢
    exact words.2

theorem opPop_local (low : 1 ≤ fr.stack.length) (high : fr.stack.length ≤ maxStack 1 0) :
    (opPop fr).Sat localSpec fun p => Local false fr p.1 p.2 := by
  obtain ⟨x, rest, shape, -⟩ := exists_cons low
  simp only [shape, List.length_cons, maxStack, StackLimit] at high
  simp only [opPop, pop_apply shape, bind_apply, Prog.bind_ret, done, pure_apply, Prog.sat_ret]
  refine .of_stack _ _ (by simp only [StackLimit]; omega) fun funded => ?_
  have words := funded.words
  simp only [Frame.Nonneg, shape, List.forall_mem_cons] at words
  exact words.2

theorem done_local (high : fr.stack.length ≤ maxStack 0 0) :
    (done fr).Sat localSpec fun p => Local false fr p.1 p.2 :=
  .of_stack _ fr.pc high fun funded => funded.words

theorem opPush1_local (high : fr.stack.length ≤ maxStack 0 1) :
    (opPush1 fr).Sat localSpec fun p => Local false fr p.1 p.2 := by
  simp only [maxStack, StackLimit] at high
  simp only [opPush1, modify_apply, bind_apply, Prog.bind_ret, nullary, get_apply, push_apply, done, pure_apply,
    Prog.sat_ret]
  refine .of_stack _ _ (by simp [StackLimit]; omega) fun funded => ?_
  exact List.forall_mem_cons.mpr ⟨Int.natCast_nonneg _, funded.words⟩

theorem makePush_local (size pushByteSize : Nat) (high : fr.stack.length ≤ maxStack 0 1) :
    (makePush size pushByteSize fr).Sat localSpec fun p => Local false fr p.1 p.2 := by
  simp only [maxStack, StackLimit] at high
  simp only [makePush, get_apply, bind_apply, Prog.bind_ret]
  generalize read : pushData _ _ _ = result
  cases result with
  | ok data =>
    simp only [lift, Prog.bind_ret, push_apply, modify_apply, done, pure_apply, Prog.sat_ret]
    refine .of_stack _ _ (by simp [StackLimit]; omega) fun funded => ?_
    exact List.forall_mem_cons.mpr ⟨Int.natCast_nonneg _, funded.words⟩
  | error fault => exact pushData_fault read

theorem makeDup_local {size : Nat} (positive : 1 ≤ size) (low : size ≤ fr.stack.length)
    (high : fr.stack.length ≤ maxStack size (size + 1)) :
    (makeDup size fr).Sat localSpec fun p => Local false fr p.1 p.2 := by
  simp only [maxStack, StackLimit] at high
  have found : fr.stack[size - 1]? = some fr.stack[size - 1] := List.getElem?_eq_getElem (by omega)
  simp only [makeDup, dup, back_apply found, bind_apply, Prog.bind_ret, push_apply, done, pure_apply, Prog.sat_ret]
  refine .of_stack _ _ (by simp [StackLimit]; omega) fun funded => ?_
  exact List.forall_mem_cons.mpr ⟨funded.words _ (List.getElem_mem _), funded.words⟩

theorem makeSwap_local {size : Nat} (low : size + 1 ≤ fr.stack.length)
    (high : fr.stack.length ≤ maxStack (size + 1) (size + 1)) :
    (makeSwap size fr).Sat localSpec fun p => Local false fr p.1 p.2 := by
  simp only [maxStack, StackLimit] at high
  have deep : fr.stack[size]? = some fr.stack[size] := List.getElem?_eq_getElem (by omega)
  have top : fr.stack[0]? = some fr.stack[0] := List.getElem?_eq_getElem (by omega)
  simp only [makeSwap, swap, Nat.add_sub_cancel, back_apply deep, back_apply top, bind_apply, Prog.bind_ret,
    modify_apply, done, pure_apply, Prog.sat_ret]
  refine .of_stack _ _ (by simp [StackLimit]; omega) fun funded word member => ?_
  have from_stack : word ∈ fr.stack := by
    rcases List.mem_or_eq_of_mem_set member with member | rfl
    · rcases List.mem_or_eq_of_mem_set member with member | rfl
      · exact member
      · exact List.getElem_mem _
    · exact List.getElem_mem _
  exact funded.words word from_stack

end Stack

end CuteEVM
