import Mathlib.Data.List.Induction
import Mathlib.Data.Nat.Log
import Mathlib.Tactic.Ring

set_option autoImplicit false

-- The most significant byte comes first.

namespace BigEndian

def read (bytes : List UInt8) : Nat := bytes.foldl (fun value byte => value * 256 + byte.toNat) 0

def write : Nat → Nat → List UInt8
  | 0, _ => []
  | width + 1, value => write width (value / 256) ++ [UInt8.ofNat (value % 256)]

def width (value : Nat) : Nat := if value = 0 then 0 else Nat.log 256 value + 1

def digits (value : Nat) : List UInt8 := write (width value) value

@[simp] theorem read_nil : read [] = 0 := rfl

theorem read_concat (bytes : List UInt8) (byte : UInt8) : read (bytes ++ [byte]) = read bytes * 256 + byte.toNat := by
  simp [read]

theorem read_append (high low : List UInt8) : read (high ++ low) = read high * 256 ^ low.length + read low := by
  induction low using List.reverseRecOn with
  | nil => simp
  | append_singleton low byte ih =>
    rw [← List.append_assoc, read_concat, ih, read_concat, List.length_append, List.length_singleton, pow_succ]
    ring

theorem read_cons (byte : UInt8) (low : List UInt8) : read (byte :: low) = byte.toNat * 256 ^ low.length + read low := by
  have split := read_append [byte] low
  simpa [read] using split

theorem read_lt (bytes : List UInt8) : read bytes < 256 ^ bytes.length := by
  induction bytes using List.reverseRecOn with
  | nil => simp
  | append_singleton bytes byte ih =>
    have small := byte.toNat_lt
    rw [read_concat, List.length_append, List.length_singleton, pow_succ]
    omega

@[simp] theorem write_length (width value : Nat) : (write width value).length = width := by
  induction width generalizing value with
  | zero => rfl
  | succ width ih => simp [write, ih]

theorem read_write_mod (width value : Nat) : read (write width value) = value % 256 ^ width := by
  induction width generalizing value with
  | zero => rw [pow_zero, Nat.mod_one]; rfl
  | succ width ih =>
    have low : (UInt8.ofNat (value % 256)).toNat = value % 256 := by
      rw [UInt8.toNat_ofNat']
      omega
    rw [write, read_concat, ih, low, pow_succ', Nat.mod_mul]
    ring

theorem write_drop (high low value : Nat) : (write (high + low) value).drop high = write low value := by
  induction low generalizing value with
  | zero => exact List.drop_eq_nil_of_le (by simp)
  | succ low ih =>
    rw [← Nat.add_assoc, write, List.drop_append_of_le_length (by simp), ih, write]

theorem read_write {width value : Nat} (fits : value < 256 ^ width) : read (write width value) = value := by
  rw [read_write_mod, Nat.mod_eq_of_lt fits]

theorem write_read (bytes : List UInt8) : write bytes.length (read bytes) = bytes := by
  induction bytes using List.reverseRecOn with
  | nil => rfl
  | append_singleton bytes byte ih =>
    have small := byte.toNat_lt
    have high : (read bytes * 256 + byte.toNat) / 256 = read bytes := by omega
    have low : (read bytes * 256 + byte.toNat) % 256 = byte.toNat := by omega
    rw [List.length_append, List.length_singleton, write, read_concat, high, low, ih, UInt8.ofNat_toNat]

theorem write_split (high low value : Nat) : write (high + low) value = write high (value / 256 ^ low) ++ write low value := by
  induction low generalizing value with
  | zero => simp [write]
  | succ low ih =>
    rw [← Nat.add_assoc, write, ih, write, List.append_assoc, Nat.div_div_eq_div_mul, ← pow_succ']

theorem write_mod (width value : Nat) : write width (value % 256 ^ width) = write width value := by
  have back := write_read (write width value)
  rwa [write_length, read_write_mod] at back

theorem read_zeros (count : Nat) : read (List.replicate count 0) = 0 := by
  induction count with
  | zero => rfl
  | succ count ih =>
    rw [List.replicate_succ', read_concat, ih]
    rfl

theorem write_add {width value : Nat} (fits : value < 256 ^ width) (more : Nat) :
    write (more + width) value = List.replicate more 0 ++ write width value := by
  have length : (List.replicate more 0 ++ write width value).length = more + width := by simp
  have total : read (List.replicate more 0 ++ write width value) = value := by
    rw [read_append, read_zeros, read_write fits, Nat.zero_mul, Nat.zero_add]
  have back := write_read (List.replicate more 0 ++ write width value)
  rwa [length, total] at back

@[simp] theorem width_zero : width 0 = 0 := rfl

theorem lt_pow_width (value : Nat) : value < 256 ^ width value := by
  unfold width
  split
  · next zero =>
    rw [zero]
    decide
  · exact Nat.lt_pow_succ_log_self (by decide) value

theorem pow_le_of_width {value size : Nat} (exact_width : width value = size + 1) : 256 ^ size ≤ value := by
  unfold width at exact_width
  split at exact_width
  · omega
  · next nonzero =>
    obtain rfl : Nat.log 256 value = size := by omega
    exact Nat.pow_log_le_self 256 nonzero

theorem width_le {value size : Nat} (fits : value < 256 ^ size) : width value ≤ size := by
  cases exact_width : width value with
  | zero => omega
  | succ below =>
    have lower := pow_le_of_width exact_width
    have exponent := (Nat.pow_lt_pow_iff_right (by decide : 1 < 256)).mp (Nat.lt_of_le_of_lt lower fits)
    omega

theorem width_pos {value : Nat} (positive : 0 < value) : 0 < width value := by
  unfold width
  split <;> omega

theorem width_eq {value size : Nat} (lower : 256 ^ size ≤ value) (upper : value < 256 ^ (size + 1)) : width value = size + 1 := by
  have positive : 0 < value := Nat.lt_of_lt_of_le (Nat.pow_pos (by decide)) lower
  have most := width_le upper
  have least := lt_pow_width value
  have exponent := (Nat.pow_lt_pow_iff_right (by decide : 1 < 256)).mp (Nat.lt_of_le_of_lt lower least)
  omega

@[simp] theorem digits_length (value : Nat) : (digits value).length = width value := write_length _ _

theorem read_digits (value : Nat) : read (digits value) = value := read_write (lt_pow_width value)

theorem digits_read {byte : UInt8} (low : List UInt8) (nonzero : byte ≠ 0) : digits (read (byte :: low)) = byte :: low := by
  have positive : 0 < byte.toNat := Nat.pos_of_ne_zero fun zero => nonzero (UInt8.toNat_inj.mp zero)
  have lower : 256 ^ low.length ≤ read (byte :: low) := by
    rw [read_cons]
    have scaled := Nat.le_mul_of_pos_left (256 ^ low.length) positive
    omega
  have exact_width := width_eq lower (read_lt (byte :: low))
  unfold digits
  rw [exact_width, ← List.length_cons, write_read]

theorem digits_cons {value : Nat} (positive : 0 < value) : ∃ byte low, digits value = byte :: low ∧ byte ≠ 0 := by
  cases shape : digits value with
  | nil =>
    have length := congrArg List.length shape
    have some := width_pos positive
    rw [digits_length, List.length_nil] at length
    omega
  | cons byte low =>
    refine ⟨byte, low, rfl, ?_⟩
    rintro rfl
    -- A leading zero would make the number too small for its width.
    have total := read_digits value
    have length := congrArg List.length shape
    rw [digits_length, List.length_cons] at length
    have lower := pow_le_of_width length
    have upper := read_lt low
    rw [shape, read_cons] at total
    simp only [UInt8.toNat_zero, Nat.zero_mul, Nat.zero_add] at total
    omega

end BigEndian
