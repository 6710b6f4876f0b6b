import CuteEVM.State.Types
import Mathlib.Data.Int.Bitwise
import Mathlib.Data.Nat.Digits.Defs
import Mathlib.Tactic.Common
import Mathlib.Tactic.Linarith

set_option autoImplicit false

namespace CuteEVM

/-! Machine integers: `uint64` values are naturals below `2 ^ 64`, and a stack word is a `big.Int`. -/

def maxUint64 : Nat := 2 ^ 64 - 1

def add64 (x y : Nat) : Nat := (x + y) % 2 ^ 64

def mul64 (x y : Nat) : Nat := (x * y) % 2 ^ 64

def sub64 (x y : Nat) : Nat := (x + (2 ^ 64 - y % 2 ^ 64)) % 2 ^ 64

def safeAdd (x y : Nat) : Nat × Bool := (add64 x y, y > maxUint64 - x)

def safeMul (x y : Nat) : Nat × Bool :=
  if x = 0 || y = 0 then (0, false) else (mul64 x y, y > maxUint64 / x)

def uint64 (x : Int) : Nat := x.natAbs % 2 ^ 64

def isUint64 (x : Int) : Bool := 0 ≤ x && x < 2 ^ 64

def int64 (x : Int) : Int := x.bmod (2 ^ 64)

def bitLen (x : Int) : Nat := if x = 0 then 0 else x.natAbs.log2 + 1

def U256 (x : Int) : Int := x % 2 ^ 256

def tt255 : Int := 2 ^ 255

def S256 (x : Int) : Int := if x < tt255 then x else x - 2 ^ 256

def bigToHash (x : Int) : Hash := BitVec.ofNat 256 x.natAbs

def bigToAddress (x : Int) : Address := BitVec.ofNat 160 x.natAbs

def bigUint64 (v : Int) : Nat × Bool := (uint64 v, !isUint64 v)

-- The words of a `big.Int` from the low end. A word has 32 or 64 bits.
def machineWords (wordBits : Nat) (x : Int) : List Nat := Nat.digits (2 ^ wordBits) x.natAbs

def expWord : Nat → Int × Int → Nat → Int × Int
  | 0, pair, _ => pair
  | bits + 1, (result, base), word =>
    expWord bits (if word % 2 = 1 then U256 (result * base) else result, U256 (base * base)) (word / 2)

def expWords (wordBits : Nat) (base : Int) (words : List Nat) : Int := (words.foldl (expWord wordBits) (1, base)).1

-- `math.Exp`
def mathExp (wordBits : Nat) (base exponent : Int) : Int := expWords wordBits base (machineWords wordBits exponent)

def bigByte (bigint : Int) (n : Int) : Nat :=
  if n ≥ 32 then 0 else bigint.natAbs / 256 ^ (31 - n).toNat % 256

-- `int(size)` of a `uint64`, as the length that is padded to. From `2 ^ 63` on it is negative, and nothing is padded.
def intLength (size : Nat) : Nat := if size < 2 ^ 63 then size else 0

-- The bytes that the Go runtime allocates at most, on 64 bits. Smaller allocations are taken to succeed.
def maxAlloc : Nat := 2 ^ 48

def rightPadded (slice : Bytes) (l : Nat) : Bytes := slice ++ List.replicate (l - slice.length) 0

def leftPadded (slice : Bytes) (l : Nat) : Bytes := List.replicate (l - slice.length) 0 ++ slice

-- A slice that is long enough is returned as it is. For the others `make([]byte, l)` fails beyond the limit.
def rightPadBytes (slice : Bytes) (l : Nat) : Except Panic Bytes :=
  if l ≤ slice.length ∨ l ≤ maxAlloc then .ok (rightPadded slice l) else .error .sliceBounds

def leftPadBytes (slice : Bytes) (l : Nat) : Except Panic Bytes :=
  if l ≤ slice.length ∨ l ≤ maxAlloc then .ok (leftPadded slice l) else .error .sliceBounds

def slice (data : Bytes) (low high : Nat) : Except Panic Bytes :=
  if low ≤ high ∧ high ≤ data.length then .ok ((data.drop low).take (high - low))
  else .error .sliceBounds

/-! `common.go` -/

-- The memory size that a range needs, and whether it overflows. The offset of an empty range is
-- not looked at.
def calcMemSize64WithUint (off : Int) (length64 : Nat) : Nat × Bool :=
  if length64 = 0 then (0, false)
  else if !isUint64 off then (0, true)
  else
    let val := add64 (uint64 off) length64
    (val, val < uint64 off)

def calcMemSize64 (off l : Int) : Nat × Bool :=
  if !isUint64 l then (0, true) else calcMemSize64WithUint off (uint64 l)

def getData (data : Bytes) (start size : Nat) : Except Panic Bytes :=
  let length := data.length
  let start := if start > length then length else start
  let stop := add64 start size
  let stop := if stop > length then length else stop
  do rightPadBytes (← slice data start stop) (intLength size)

def getDataBig (data : Bytes) (start size : Int) : Except Panic Bytes :=
  let s := min start data.length
  let e := min (s + size) data.length
  do rightPadBytes (← slice data (uint64 s) (uint64 e)) (intLength (uint64 size))

def toWordSize (size : Nat) : Nat :=
  if size > maxUint64 - 31 then maxUint64 / 32 + 1 else (size + 31) / 32

def allZero (b : Bytes) : Bool := b.all (· == 0)

section Lemmas

theorem ok_bind {ε α β : Type} {a : α} {next : α → Except ε β} : (Except.ok a >>= next) = next a := rfl

theorem add64_eq {x y : Nat} (fits : x + y < 2 ^ 64) : add64 x y = x + y := Nat.mod_eq_of_lt fits

theorem add64_lt (x y : Nat) : add64 x y < 2 ^ 64 := Nat.mod_lt _ (by norm_num)

theorem mul64_lt (x y : Nat) : mul64 x y < 2 ^ 64 := Nat.mod_lt _ (by norm_num)

theorem sub64_lt (x y : Nat) : sub64 x y < 2 ^ 64 := Nat.mod_lt _ (by norm_num)

theorem sub64_eq {x y : Nat} (le : y ≤ x) (fits : x < 2 ^ 64) : sub64 x y = x - y := by
  unfold sub64
  omega

theorem safeAdd_eq {x y sum : Nat} (fits : x < 2 ^ 64) (added : safeAdd x y = (sum, false)) :
    sum = x + y ∧ x + y < 2 ^ 64 := by
  obtain ⟨total, within⟩ := Prod.mk.inj added
  have within := of_decide_eq_false within
  unfold add64 at total
  unfold maxUint64 at within
  omega

theorem isUint64_iff (x : Int) : isUint64 x = true ↔ 0 ≤ x ∧ x < 2 ^ 64 := by
  simp [isUint64]

theorem uint64_lt (x : Int) : uint64 x < 2 ^ 64 := Nat.mod_lt _ (by norm_num)

theorem uint64_eq {x : Int} (nonneg : 0 ≤ x) (fits : x < 2 ^ 64) : (uint64 x : Int) = x := by
  unfold uint64
  omega

theorem int64_eq {x : Int} (nonneg : 0 ≤ x) (fits : x < 2 ^ 63) : int64 x = x := by
  unfold int64
  rw [Int.bmod_def]
  omega

theorem U256_nonneg (x : Int) : 0 ≤ U256 x := Int.emod_nonneg _ (by norm_num)

end Lemmas

end CuteEVM
