import CuteEVM.Shared.TwosComplement
import CuteEVM.Proofs.Effects

set_option autoImplicit false

-- The instructions compute on unbounded integers.

namespace CuteEVM

open CallTree Exec TwosComplement

abbrev Word := BitVec 256

namespace Word

def int (x : Word) : Int := x.toNat

def div (x y : Word) : Word := if y = 0 then 0 else BitVec.ofNat 256 (x.toNat / y.toNat)

def mod (x y : Word) : Word := if y = 0 then 0 else BitVec.ofNat 256 (x.toNat % y.toNat)

def sdiv (x y : Word) : Word := if y = 0 then 0 else BitVec.ofInt 256 (x.toInt.tdiv y.toInt)

def smod (x y : Word) : Word := if y = 0 then 0 else BitVec.ofInt 256 (x.toInt.tmod y.toInt)

def addmod (x y z : Word) : Word := if z = 0 then 0 else BitVec.ofNat 256 ((x.toNat + y.toNat) % z.toNat)

def mulmod (x y z : Word) : Word := if z = 0 then 0 else BitVec.ofNat 256 (x.toNat * y.toNat % z.toNat)

def lt (x y : Word) : Word := if x.toNat < y.toNat then 1 else 0

def gt (x y : Word) : Word := if x.toNat > y.toNat then 1 else 0

def slt (x y : Word) : Word := if x.toInt < y.toInt then 1 else 0

def sgt (x y : Word) : Word := if x.toInt > y.toInt then 1 else 0

def signextend (k x : Word) : Word := if 31 ≤ k.toNat then x else (x.setWidth (8 * k.toNat + 8)).signExtend 256

def byte (i x : Word) : Word := if 32 ≤ i.toNat then 0 else ((x >>> (8 * (31 - i.toNat))).setWidth 8).setWidth 256

def shl (n x : Word) : Word := x <<< n.toNat

def shr (n x : Word) : Word := x >>> n.toNat

def sar (n x : Word) : Word := x.sshiftRight n.toNat

theorem int_nonneg (x : Word) : 0 ≤ x.int := Int.natCast_nonneg _

theorem int_lt (x : Word) : x.int < 2 ^ 256 := by
  have := x.isLt
  unfold int
  omega

theorem int_ofNat {n : Nat} (small : n < 2 ^ 256) : int (BitVec.ofNat 256 n) = n := by
  rw [int, BitVec.toNat_ofNat, Nat.mod_eq_of_lt small]

theorem int_eq_zero (x : Word) : x.int = 0 ↔ x = 0 := by
  constructor
  · intro zero
    apply BitVec.eq_of_toNat_eq
    exact Int.ofNat_inj.mp zero
  · rintro rfl
    rfl

theorem U256_eq (i : Int) : U256 i = int (BitVec.ofInt 256 i) := (natCast_ofInt 256 i).symm

theorem U256_nat {n : Nat} (small : n < 2 ^ 256) : U256 n = n :=
  Int.emod_eq_of_lt (Int.natCast_nonneg _) (by exact_mod_cast small)

theorem U256_int (x : Word) : U256 x.int = x.int := Int.emod_eq_of_lt x.int_nonneg x.int_lt

theorem S256_int (x : Word) : S256 x.int = x.toInt := by
  have small := x.isLt
  rw [BitVec.toInt_eq_toNat_cond]
  unfold S256 tt255 int
  split
  · rw [if_pos (by omega)]
  · rw [if_neg (by omega)]
    push_cast
    rfl

theorem toInt_eq_zero (x : Word) : x.toInt = 0 ↔ x = 0 := by
  have small := x.isLt
  rw [← int_eq_zero, BitVec.toInt_eq_toNat_cond]
  unfold int
  split <;> omega

theorem flag_int (condition : Prop) [Decidable condition] :
    flag (decide condition) = int (if condition then 1 else 0) := by
  by_cases holds : condition
  · simp [flag, holds, int]
  · simp [flag, holds, int]

end Word

open Word

section Operations

variable (x y z : Word)

theorem wordAdd_word : wordAdd x.int y.int = int (x + y) := by
  unfold wordAdd U256 int
  rw [BitVec.toNat_add]
  push_cast
  rfl

theorem wordSub_word : wordSub x.int y.int = int (x - y) := by
  have small := y.isLt
  unfold wordSub U256 int
  rw [BitVec.toNat_sub]
  omega

theorem wordMul_word : wordMul x.int y.int = int (x * y) := by
  unfold wordMul U256 int
  rw [BitVec.toNat_mul]
  push_cast
  rfl

theorem wordDiv_word : wordDiv x.int y.int = int (div x y) := by
  unfold wordDiv div
  by_cases zero : y = 0
  · rw [if_neg (by rw [not_not, int_eq_zero]; exact zero), if_pos zero]
    rfl
  · have small : x.toNat / y.toNat < 2 ^ 256 := Nat.lt_of_le_of_lt (Nat.div_le_self _ _) x.isLt
    rw [if_pos (by rw [ne_eq, int_eq_zero]; exact zero), if_neg zero, int_ofNat small]
    unfold int
    rw [← Int.natCast_ediv, U256_nat small]

theorem wordMod_word : wordMod x.int y.int = int (mod x y) := by
  unfold wordMod mod
  by_cases zero : y = 0
  · rw [if_pos ((int_eq_zero y).mpr zero), if_pos zero]
    rfl
  · have small : x.toNat % y.toNat < 2 ^ 256 := Nat.lt_of_le_of_lt (Nat.mod_le _ _) x.isLt
    rw [if_neg (mt (int_eq_zero y).mp zero), if_neg zero, int_ofNat small]
    unfold int
    rw [← Int.natCast_emod, U256_nat small]

theorem wordSdiv_word : wordSdiv x.int y.int = int (sdiv x y) := by
  unfold wordSdiv sdiv
  rw [S256_int, S256_int]
  dsimp only
  by_cases zero : y = 0
  · rw [if_pos (.inl ((toInt_eq_zero y).mpr zero)), if_pos zero]
    rfl
  · have divisor : y.toInt ≠ 0 := mt (toInt_eq_zero y).mp zero
    rw [if_neg zero]
    by_cases none : x.toInt = 0
    · rw [if_pos (.inr none), none, Int.zero_tdiv]
      rfl
    · rw [if_neg (by tauto), tdiv_eq _ _ divisor none]
      split
      · rw [U256_eq]
        push_cast
        rfl
      · rw [U256_eq]
        push_cast
        rfl

theorem wordSmod_word : wordSmod x.int y.int = int (smod x y) := by
  unfold wordSmod smod
  rw [S256_int, S256_int]
  dsimp only
  by_cases zero : y = 0
  · rw [if_pos ((toInt_eq_zero y).mpr zero), if_pos zero]
    rfl
  · rw [if_neg (mt (toInt_eq_zero y).mp zero), if_neg zero, tmod_eq]
    split
    · rw [U256_eq]
      push_cast
      rfl
    · rw [U256_eq]
      push_cast
      rfl

theorem wordNot_word : wordNot x.int = int (~~~x) := by
  have small := x.isLt
  show U256 (Int.negSucc x.toNat) = _
  unfold U256 int
  rw [BitVec.toNat_not, Int.negSucc_eq]
  omega

theorem wordSlt_word : wordSlt x.int y.int = int (slt x y) := by
  have left := x.isLt
  have right := y.isLt
  rw [wordSlt, slt, ← flag_int, BitVec.toInt_eq_toNat_cond, BitVec.toInt_eq_toNat_cond]
  unfold int tt255 flag
  simp only [decide_eq_true_eq]
  split_ifs <;> omega

theorem wordSgt_word : wordSgt x.int y.int = int (sgt x y) := by
  have left := x.isLt
  have right := y.isLt
  rw [wordSgt, sgt, ← flag_int, BitVec.toInt_eq_toNat_cond, BitVec.toInt_eq_toNat_cond]
  unfold int tt255 flag
  simp only [decide_eq_true_eq]
  split_ifs <;> omega

theorem wordByte_word : wordByte x.int y.int = int (byte x y) := by
  unfold wordByte byte
  by_cases outside : 32 ≤ x.toNat
  · rw [if_neg (by unfold int; omega), if_pos outside]
    rfl
  · have index : int64 x.int = x.toNat := int64_eq x.int_nonneg (by unfold int; omega)
    have place : 256 ^ (31 - x.toNat) = 2 ^ (8 * (31 - x.toNat)) := by
      rw [Nat.pow_mul]
    have small : y.toNat >>> (8 * (31 - x.toNat)) % 2 ^ 8 < 2 ^ 256 := Nat.lt_trans (Nat.mod_lt _ (by decide)) (by decide)
    rw [if_pos (by unfold int; omega), if_neg outside, index, bigByte, if_neg (by omega)]
    unfold int
    rw [BitVec.toNat_setWidth, BitVec.toNat_setWidth, BitVec.toNat_ushiftRight, Nat.mod_eq_of_lt small, Nat.shiftRight_eq_div_pow,
      Int.natAbs_natCast, ← place]
    have turn : (31 - (x.toNat : Int)).toNat = 31 - x.toNat := by omega
    rw [turn]
    rfl

theorem wordAddmod_word : wordAddmod x.int y.int z.int = int (addmod x y z) := by
  unfold wordAddmod addmod
  by_cases zero : z = 0
  · rw [if_neg (by rw [(int_eq_zero z).mpr zero]; decide), if_pos zero]
    rfl
  · have positive : 0 < z.int := lt_of_le_of_ne z.int_nonneg fun none => zero ((int_eq_zero z).mp none.symm)
    have bound : (x.toNat + y.toNat) % z.toNat < 2 ^ 256 :=
      Nat.lt_trans (Nat.mod_lt _ (by unfold int at positive; omega)) z.isLt
    rw [if_pos positive, if_neg zero, int_ofNat bound, ← U256_nat bound]
    push_cast
    rfl

theorem wordMulmod_word : wordMulmod x.int y.int z.int = int (mulmod x y z) := by
  unfold wordMulmod mulmod
  by_cases zero : z = 0
  · rw [if_neg (by rw [(int_eq_zero z).mpr zero]; decide), if_pos zero]
    rfl
  · have positive : 0 < z.int := lt_of_le_of_ne z.int_nonneg fun none => zero ((int_eq_zero z).mp none.symm)
    have bound : x.toNat * y.toNat % z.toNat < 2 ^ 256 :=
      Nat.lt_trans (Nat.mod_lt _ (by unfold int at positive; omega)) z.isLt
    rw [if_pos positive, if_neg zero, int_ofNat bound, ← U256_nat bound]
    push_cast
    rfl

theorem uint64_small (below : x.toNat < 2 ^ 64) : uint64 x.int = x.toNat := by
  unfold uint64 int
  rw [Int.natAbs_natCast, Nat.mod_eq_of_lt below]

theorem wordSHL_word : wordSHL x.int y.int = int (shl x y) := by
  unfold wordSHL shl
  rw [U256_int, U256_int]
  dsimp only
  by_cases wide : 256 ≤ x.toNat
  · rw [if_pos (by unfold int; omega), BitVec.shiftLeft_eq_zero wide]
    rfl
  · rw [if_neg (by unfold int; omega), uint64_small x (by omega)]
    unfold int U256
    rw [BitVec.toNat_shiftLeft, Nat.shiftLeft_eq]
    push_cast
    rfl

theorem wordSHR_word : wordSHR x.int y.int = int (shr x y) := by
  unfold wordSHR shr
  rw [U256_int, U256_int]
  dsimp only
  by_cases wide : 256 ≤ x.toNat
  · rw [if_pos (by unfold int; omega), BitVec.ushiftRight_eq_zero wide]
    rfl
  · have small : y.toNat / 2 ^ x.toNat < 2 ^ 256 := Nat.lt_of_le_of_lt (Nat.div_le_self _ _) y.isLt
    rw [if_neg (by unfold int; omega), uint64_small x (by omega)]
    unfold int
    rw [BitVec.toNat_ushiftRight, Nat.shiftRight_eq_div_pow, ← U256_nat small]
    push_cast
    rfl

theorem toInt_shiftRight_wide (wide : 256 ≤ x.toNat) : y.toInt >>> x.toNat = if y.toInt ≥ 0 then 0 else -1 := by
  have low := BitVec.le_toInt y
  have high := BitVec.toInt_lt (x := y)
  have power : (2 : Int) ^ 256 ≤ 2 ^ x.toNat := pow_le_pow_right₀ (by decide) wide
  rw [Int.shiftRight_eq_div_pow]
  push_cast
  split
  · apply Int.ediv_eq_zero_of_lt (by assumption)
    calc y.toInt < 2 ^ (256 - 1) := high
      _ ≤ 2 ^ 256 := by decide
      _ ≤ 2 ^ x.toNat := power
  · next negative =>
    have bound : -(2 ^ x.toNat : Int) ≤ y.toInt := by
      have : -(2 ^ 256 : Int) ≤ -2 ^ (256 - 1) := by decide
      linarith
    rw [Int.ediv_eq_iff_of_pos (by positivity)]
    constructor
    · linarith
    · linarith

theorem wordSAR_word : wordSAR x.int y.int = int (sar x y) := by
  have shifted : sar x y = BitVec.ofInt 256 (y.toInt >>> x.toNat) := by
    rw [← BitVec.toInt_sshiftRight, BitVec.ofInt_toInt]
    rfl
  unfold wordSAR
  rw [U256_int, S256_int, shifted]
  dsimp only
  by_cases wide : 256 ≤ x.toNat
  · rw [if_pos (by unfold int; omega), U256_eq, toInt_shiftRight_wide x y wide]
  · rw [if_neg (by unfold int; omega), U256_eq, uint64_small x (by omega), Int.shiftRight_eq_div_pow]
    push_cast
    rfl

theorem signExtend_word (low : x.toNat < 31) : CuteEVM.signExtend x.int y.int = int (signextend x y) := by
  have bit : (uint64 x.int * 8 + 7) % 2 ^ 64 = 8 * x.toNat + 7 := by
    rw [uint64_small x (by omega)]
    omega
  have extended : signextend x y = BitVec.ofInt 256 (BitVec.ofNat (8 * x.toNat + 7 + 1) y.toNat).toInt := by
    rw [signextend, if_neg (by omega), BitVec.ofNat_toNat]
    rfl
  unfold CuteEVM.signExtend
  rw [bit, extended, toInt_low]
  dsimp only
  have test : y.int.testBit (8 * x.toNat + 7) = y.toNat.testBit (8 * x.toNat + 7) := rfl
  rw [test]
  split
  · rw [U256_eq]
    show int (BitVec.ofInt 256 (Int.lor y.toNat _)) = _
    rw [lor_lnot_mask]
  · rw [U256_eq]
    show int (BitVec.ofInt 256 (Int.land y.toNat _)) = _
    rw [land_mask]

end Operations

-- The instruction replaces the operands on top of the stack by the results, and does nothing else.
def Effect (op : Exec Bytes) (operands results : List Word) : Prop :=
  ∀ fr rest, fr.stack = operands.map int ++ rest → op fr = .ret (.ok [], { fr with stack := results.map int ++ rest })

def OnWords (stack : Stack) : Prop := ∀ value ∈ stack, 0 ≤ value ∧ value < 2 ^ 256

def KeepsWords (op : Exec Bytes) : Prop :=
  ∀ fr fr' ret, OnWords fr.stack → op fr = .ret (.ok ret, fr') → OnWords fr'.stack

section Effects

variable {x y z : Word}

theorem OnWords.cons_iff {value : Int} {rest : Stack} :
    OnWords (value :: rest) ↔ (∃ word : Word, word.int = value) ∧ OnWords rest := by
  constructor
  · intro words
    obtain ⟨nonneg, small⟩ := words value List.mem_cons_self
    refine ⟨⟨BitVec.ofInt 256 value, ?_⟩, fun other member => words other (List.mem_cons_of_mem _ member)⟩
    rw [← U256_eq]
    exact Int.emod_eq_of_lt nonneg small
  · rintro ⟨⟨word, rfl⟩, words⟩ other member
    rcases List.mem_cons.mp member with rfl | member
    · exact ⟨word.int_nonneg, word.int_lt⟩
    · exact words other member

theorem unary_effect {f : Int → Int} {g : Word → Word} (same : ∀ x, f x.int = int (g x)) : Effect (unary f) [x] [g x] := by
  intro fr rest shape
  have shape : fr.stack = x.int :: rest := shape
  simp only [unary, bind_apply, pop, shape, Prog.bind_ret, push_apply, done, pure_apply, same]
  rfl

theorem binary_effect {f : Int → Int → Int} {g : Word → Word → Word} (same : ∀ x y, f x.int y.int = int (g x y)) :
    Effect (binary f) [x, y] [g x y] := by
  intro fr rest shape
  have shape : fr.stack = x.int :: y.int :: rest := shape
  simp only [binary, bind_apply, pop, shape, Prog.bind_ret, push_apply, done, pure_apply, same]
  rfl

theorem ternary_effect {f : Int → Int → Int → Int} {g : Word → Word → Word → Word}
    (same : ∀ x y z, f x.int y.int z.int = int (g x y z)) : Effect (ternary f) [x, y, z] [g x y z] := by
  intro fr rest shape
  have shape : fr.stack = x.int :: y.int :: z.int :: rest := shape
  simp only [ternary, bind_apply, pop, shape, Prog.bind_ret, push_apply, done, pure_apply, same]
  rfl

theorem signExtend_effect : Effect opSignExtend [x, y] [signextend x y] := by
  intro fr rest shape
  have shape : fr.stack = x.int :: y.int :: rest := shape
  simp only [opSignExtend, bind_apply, pop, shape, Prog.bind_ret]
  by_cases low : x.toNat < 31
  · rw [if_pos (by unfold int; omega)]
    simp only [bind_apply, pop, Prog.bind_ret, push_apply, done, pure_apply, signExtend_word x y low]
    rfl
  · -- The second operand stays where it is.
    rw [if_neg (by unfold int; omega), signextend, if_pos (by omega)]
    rfl

theorem unary_keeps {f : Int → Int} {g : Word → Word} (same : ∀ x, f x.int = int (g x)) : KeepsWords (unary f) := by
  intro fr fr' ret words ran
  cases shape : fr.stack with
  | nil => simp [unary, bind_apply, pop, shape] at ran
  | cons a rest =>
    rw [shape, OnWords.cons_iff] at words
    obtain ⟨⟨x, rfl⟩, words⟩ := words
    rw [unary_effect same fr rest shape] at ran
    cases ran
    exact OnWords.cons_iff.mpr ⟨⟨_, rfl⟩, words⟩

theorem binary_keeps {f : Int → Int → Int} {g : Word → Word → Word} (same : ∀ x y, f x.int y.int = int (g x y)) :
    KeepsWords (binary f) := by
  intro fr fr' ret words ran
  cases shape : fr.stack with
  | nil => simp [binary, bind_apply, pop, shape] at ran
  | cons a rest =>
    cases rest with
    | nil => simp [binary, bind_apply, pop, shape] at ran
    | cons b rest =>
      rw [shape, OnWords.cons_iff, OnWords.cons_iff] at words
      obtain ⟨⟨x, rfl⟩, ⟨y, rfl⟩, words⟩ := words
      rw [binary_effect same fr rest shape] at ran
      cases ran
      exact OnWords.cons_iff.mpr ⟨⟨_, rfl⟩, words⟩

theorem ternary_keeps {f : Int → Int → Int → Int} {g : Word → Word → Word → Word}
    (same : ∀ x y z, f x.int y.int z.int = int (g x y z)) : KeepsWords (ternary f) := by
  intro fr fr' ret words ran
  cases shape : fr.stack with
  | nil => simp [ternary, bind_apply, pop, shape] at ran
  | cons a rest =>
    cases rest with
    | nil => simp [ternary, bind_apply, pop, shape] at ran
    | cons b rest =>
      cases rest with
      | nil => simp [ternary, bind_apply, pop, shape] at ran
      | cons c rest =>
        simp only [shape, OnWords.cons_iff] at words
        obtain ⟨⟨x, rfl⟩, ⟨y, rfl⟩, ⟨z, rfl⟩, words⟩ := words
        rw [ternary_effect same fr rest shape] at ran
        cases ran
        exact OnWords.cons_iff.mpr ⟨⟨_, rfl⟩, words⟩

theorem signExtend_keeps : KeepsWords opSignExtend := by
  intro fr fr' ret words ran
  cases shape : fr.stack with
  | nil => simp [opSignExtend, bind_apply, pop, shape] at ran
  | cons a rest =>
    cases rest with
    | nil =>
      simp only [opSignExtend, bind_apply, pop, shape, Prog.bind_ret] at ran
      split at ran
      · simp [bind_apply, pop] at ran
      · cases ran
        rintro _ ⟨⟩
    | cons b rest =>
      rw [shape, OnWords.cons_iff, OnWords.cons_iff] at words
      obtain ⟨⟨x, rfl⟩, ⟨y, rfl⟩, words⟩ := words
      rw [signExtend_effect fr rest shape] at ran
      cases ran
      exact OnWords.cons_iff.mpr ⟨⟨_, rfl⟩, words⟩

end Effects

def arithmetic : List (Exec Bytes) :=
  [opAdd, opSub, opMul, opDiv, opMod, opSdiv, opSmod, opAddmod, opMulmod, opLt, opGt, opSlt, opSgt, opNot, opSignExtend, opByte,
    opSHL, opSHR, opSAR]

theorem lt_word (x y : Word) : flag (x.int < y.int) = int (lt x y) := by
  rw [lt, ← flag_int]
  unfold int
  simp only [Int.ofNat_lt]

theorem gt_word (x y : Word) : flag (x.int > y.int) = int (gt x y) := by
  rw [gt, ← flag_int]
  unfold int
  simp only [gt_iff_lt, Int.ofNat_lt]

theorem arithmetic_keeps : ∀ op ∈ arithmetic, KeepsWords op := by
  intro op member
  simp only [arithmetic, List.mem_cons, List.not_mem_nil, or_false] at member
  rcases member with rfl | rfl | rfl | rfl | rfl | rfl | rfl | rfl | rfl | rfl | rfl | rfl | rfl | rfl | rfl | rfl | rfl | rfl
    | rfl
  · exact binary_keeps wordAdd_word
  · exact binary_keeps wordSub_word
  · exact binary_keeps wordMul_word
  · exact binary_keeps wordDiv_word
  · exact binary_keeps wordMod_word
  · exact binary_keeps wordSdiv_word
  · exact binary_keeps wordSmod_word
  · exact ternary_keeps wordAddmod_word
  · exact ternary_keeps wordMulmod_word
  · exact binary_keeps lt_word
  · exact binary_keeps gt_word
  · exact binary_keeps wordSlt_word
  · exact binary_keeps wordSgt_word
  · exact unary_keeps wordNot_word
  · exact signExtend_keeps
  · exact binary_keeps wordByte_word
  · exact binary_keeps wordSHL_word
  · exact binary_keeps wordSHR_word
  · exact binary_keeps wordSAR_word

theorem sar_wide (n x : Word) (wide : 256 ≤ n.toNat) : sar n x = if x.toInt < 0 then -1 else 0 := by
  have shifted : sar n x = BitVec.ofInt 256 (x.toInt >>> n.toNat) := by
    rw [← BitVec.toInt_sshiftRight, BitVec.ofInt_toInt]
    rfl
  rw [shifted, toInt_shiftRight_wide n x wide]
  by_cases negative : x.toInt < 0
  · rw [if_pos negative, if_neg (by omega)]
    rfl
  · rw [if_neg negative, if_pos (by omega)]
    rfl

theorem smod_toInt (x y : Word) (nonzero : y ≠ 0) : (smod x y).toInt = x.toInt.tmod y.toInt := by
  have low := BitVec.le_toInt x
  have high := BitVec.toInt_lt (x := x)
  have small := Nat.mod_le x.toInt.natAbs y.toInt.natAbs
  have bounds : -2 ^ (256 - 1) ≤ x.toInt.tmod y.toInt ∧ x.toInt.tmod y.toInt < 2 ^ (256 - 1) := by
    rw [tmod_eq]
    split <;> omega
  rw [smod, if_neg nonzero, BitVec.toInt_ofInt_eq_self (by decide) bounds.1 bounds.2]

theorem arithmetic_words (x y z : Word) :
    (Effect opAdd [x, y] [x + y] ∧ Effect opSub [x, y] [x - y] ∧ Effect opMul [x, y] [x * y] ∧
      Effect opDiv [x, y] [div x y] ∧ Effect opMod [x, y] [mod x y] ∧ Effect opSdiv [x, y] [sdiv x y] ∧
      Effect opSmod [x, y] [smod x y] ∧ Effect opAddmod [x, y, z] [addmod x y z] ∧ Effect opMulmod [x, y, z] [mulmod x y z] ∧
      Effect opLt [x, y] [lt x y] ∧ Effect opGt [x, y] [gt x y] ∧ Effect opSlt [x, y] [slt x y] ∧ Effect opSgt [x, y] [sgt x y] ∧
      Effect opNot [x] [~~~x] ∧ Effect opSignExtend [x, y] [signextend x y] ∧ Effect opByte [x, y] [byte x y] ∧
      Effect opSHL [x, y] [shl x y] ∧ Effect opSHR [x, y] [shr x y] ∧ Effect opSAR [x, y] [sar x y]) ∧
    (div x 0 = 0 ∧ mod x 0 = 0 ∧ sdiv x 0 = 0 ∧ smod x 0 = 0 ∧ addmod x y 0 = 0 ∧ mulmod x y 0 = 0 ∧
      sdiv (BitVec.intMin 256) (-1) = BitVec.intMin 256 ∧ (y ≠ 0 → (smod x y).toInt = x.toInt.tmod y.toInt) ∧
      (256 ≤ x.toNat → shl x y = 0 ∧ shr x y = 0 ∧ sar x y = if y.toInt < 0 then -1 else 0) ∧
      (31 ≤ x.toNat → signextend x y = y)) ∧
    ∀ op ∈ arithmetic, KeepsWords op := by
  refine ⟨⟨binary_effect wordAdd_word, binary_effect wordSub_word, binary_effect wordMul_word, binary_effect wordDiv_word,
    binary_effect wordMod_word, binary_effect wordSdiv_word, binary_effect wordSmod_word, ternary_effect wordAddmod_word,
    ternary_effect wordMulmod_word, binary_effect lt_word, binary_effect gt_word, binary_effect wordSlt_word,
    binary_effect wordSgt_word, unary_effect wordNot_word, signExtend_effect, binary_effect wordByte_word,
    binary_effect wordSHL_word, binary_effect wordSHR_word, binary_effect wordSAR_word⟩,
    ⟨if_pos rfl, if_pos rfl, if_pos rfl, if_pos rfl, if_pos rfl, if_pos rfl, ?_, smod_toInt x y, fun wide => ?_, fun wide =>
      if_pos wide⟩,
    arithmetic_keeps⟩
  · decide +kernel
  · exact ⟨BitVec.shiftLeft_eq_zero wide, BitVec.ushiftRight_eq_zero wide, sar_wide x y wide⟩

end CuteEVM
