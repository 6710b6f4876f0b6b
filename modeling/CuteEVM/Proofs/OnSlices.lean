import CuteEVM.Rlp.Writing
import CuteEVM.VM.OnSlices

set_option autoImplicit false

-- What the precompiled contracts compute on slices is what they compute on the bytes, and all but one of them leave the
-- arrays alone.

namespace CuteEVM

namespace OnSlices

open Slices

variable {h : Heap UInt8} {s : Slice} {bytes : Bytes}

theorem after_copy (dst src : Slice) (h : Heap UInt8) :
    (copy dst src : Code Unit).after h = (.ok (), h.write dst.array dst.offset ((h.contents src).take dst.len)) := rfl

theorem copied_fresh (holds : Holds h s bytes) (l low room : Nat) (enough : bytes.length ≤ room) :
    Heap.write (h ++ [List.replicate l 0]) h.length low ((Heap.contents (h ++ [List.replicate l (0 : UInt8)]) s).take room) =
      h ++ [List.replicate (min low l) 0 ++ bytes ++ List.replicate (l - (low + bytes.length)) 0] := by
  have later : Holds (h ++ [List.replicate l 0]) s bytes := holds.mono ⟨_, rfl⟩
  rw [later.2, List.take_of_length_le enough, write_fresh, List.take_replicate, List.drop_replicate]

theorem makeBytes_after {l : Nat} (fits : l ≤ maxAlloc) (h : Heap UInt8) :
    (makeBytes l).after h = (.ok ⟨h.length, 0, l, l⟩, h ++ [List.replicate l 0]) := by
  rw [makeBytes, if_pos fits]
  show (Except.ok (⟨h.length, 0, (List.replicate l (0 : UInt8)).length, (List.replicate l (0 : UInt8)).length⟩ : Slice), _) = _
  rw [List.length_replicate]

theorem rightPadBytes_fresh (holds : Holds h s bytes) {l : Nat} (short : s.len < l) (fits : l ≤ maxAlloc) :
    (rightPadBytes s l).after h = (alloc (rightPadded bytes l) : Code Slice).after h := by
  have length := holds.length
  have copied := after_copy ⟨h.length, 0, l, l⟩ s (h ++ [List.replicate l 0])
  rw [copied_fresh holds l 0 l (by omega), Nat.zero_min, List.replicate_zero, List.nil_append, Nat.zero_add] at copied
  rw [rightPadBytes, if_neg (Nat.not_le_of_lt short), after_bind_ok (makeBytes_after fits h), after_bind_ok copied, after_pure]
  show _ = (Except.ok (⟨h.length, 0, (rightPadded bytes l).length, (rightPadded bytes l).length⟩ : Slice), _)
  rw [rightPadded, List.length_append, List.length_replicate, Nat.add_sub_cancel' (by omega)]

theorem rightPadded_whole {l : Nat} (long : l ≤ bytes.length) : rightPadded bytes l = bytes := by
  rw [rightPadded, Nat.sub_eq_zero_of_le long, List.replicate_zero, List.append_nil]

theorem rightPadBytes_refines (holds : Holds h s bytes) (l : Nat) :
    Refines Holds (rightPadBytes s l) h (CuteEVM.rightPadBytes bytes l) := by
  have length := holds.length
  unfold CuteEVM.rightPadBytes
  by_cases long : l ≤ s.len
  · rw [rightPadBytes, if_pos long, if_pos (.inl (by omega)), rightPadded_whole (by omega)]
    exact .pure holds
  · by_cases fits : l ≤ maxAlloc
    · rw [if_pos (.inr fits)]
      exact (refines_alloc _ h).congr (rightPadBytes_fresh holds (Nat.lt_of_not_le long) fits)
    · rw [rightPadBytes, if_neg long, makeBytes, if_neg fits, if_neg (by omega)]
      exact ⟨rfl, .refl h⟩

theorem leftPadded_refines (holds : Holds h s bytes) {l : Nat} (fits : l ≤ s.len ∨ l ≤ maxAlloc) :
    Refines Holds (leftPadBytes s l) h (.ok (leftPadded bytes l)) := by
  have length := holds.length
  unfold leftPadBytes leftPadded
  split
  · next short =>
    rw [length, Nat.sub_eq_zero_of_le short, List.replicate_zero, List.nil_append]
    exact .pure holds
  · next long =>
    have fits := fits.resolve_left long
    refine (refines_alloc (List.replicate (l - bytes.length) 0 ++ bytes) h).congr ?_
    have sliced : (reslice ⟨h.length, 0, l, l⟩ (l - s.len) l .sliceBounds : Code Slice).after (h ++ [List.replicate l 0]) =
        (.ok ⟨h.length, 0 + (l - s.len), l - (l - s.len), l - (l - s.len)⟩, h ++ [List.replicate l 0]) := by
      show ((if l - s.len ≤ l ∧ l ≤ l then _ else _ : Except Panic Slice), _) = _
      rw [if_pos ⟨Nat.sub_le _ _, Nat.le_refl _⟩]
    have copied := after_copy ⟨h.length, 0 + (l - s.len), l - (l - s.len), l - (l - s.len)⟩ s (h ++ [List.replicate l 0])
    have rest : l - (0 + (l - s.len) + bytes.length) = 0 := by omega
    dsimp only at copied
    rw [copied_fresh holds l _ _ (by omega), rest, List.replicate_zero, List.append_nil, Nat.min_eq_left (by omega),
      Nat.zero_add] at copied
    rw [after_bind_ok (makeBytes_after fits h), after_bind_ok sliced, Nat.zero_add, after_bind_ok copied, after_pure, length]
    show _ = (Except.ok (⟨h.length, 0, _, _⟩ : Slice), _)
    rw [List.length_append, List.length_replicate, length, Nat.sub_add_cancel (by omega)]

theorem leftPadBytes_refines (holds : Holds h s bytes) (l : Nat) :
    Refines Holds (leftPadBytes s l) h (CuteEVM.leftPadBytes bytes l) := by
  unfold CuteEVM.leftPadBytes
  rw [holds.length]
  split
  · next fits => exact leftPadded_refines holds fits
  · next huge =>
    rw [leftPadBytes, if_neg fun long => huge (.inl long), makeBytes, if_neg fun fits => huge (.inr fits)]
    exact ⟨rfl, .refl h⟩

theorem reslice_refines (holds : Holds h s bytes) (low : Nat) {high : Nat} (inside : high ≤ bytes.length) :
    Refines Holds (reslice s low high .sliceBounds : Code Slice) h (slice bytes low high) :=
  refines_reslice holds low inside Panic.sliceBounds

theorem getData_refines (holds : Holds h s bytes) (start size : Nat) :
    Refines Holds (getData s start size) h (CuteEVM.getData bytes start size) := by
  unfold getData CuteEVM.getData
  rw [← holds.length]
  refine (reslice_refines holds _ ?_).bind fun part bytes' h' _ holds' => rightPadBytes_refines holds' (intLength size)
  generalize add64 _ size = stop
  split <;> omega

theorem dataBytes_refines (holds : Holds h s bytes) (start size : Nat) :
    Refines Same (dataBytes s start size) h (CuteEVM.getData bytes start size) :=
  (getData_refines holds start size).then_read

theorem then_dataBytes {β γ : Type} {rel : Heap UInt8 → β → γ → Prop} {f : Bytes → Code β} {g : Bytes → Except Panic γ}
    (holds : Holds h s bytes) (start size : Nat) (next : ∀ data h', Holds h' s bytes → Refines rel (f data) h' (g data)) :
    Refines rel (dataBytes s start size >>= f) h (CuteEVM.getData bytes start size >>= g) :=
  (dataBytes_refines holds start size).bind fun data _ h' kept same => same ▸ next data h' (holds.mono kept)

theorem bytesAt_after (holds : Holds h s bytes) {low high : Nat} (ordered : low ≤ high) (inside : high ≤ bytes.length) :
    (bytesAt s low high).after h = (.ok ((bytes.drop low).take (high - low)), h) := by
  have length := holds.length
  have room := holds.1.len
  unfold bytesAt
  rw [after_bind_ok (after_reslice ordered (by omega) _), after_read, contents_reslice low (by omega), holds.2]

theorem bytesAt_refines (holds : Holds h s bytes) {low high : Nat} (ordered : low ≤ high) (inside : high ≤ bytes.length) :
    Refines Same (bytesAt s low high) h (.ok ((bytes.drop low).take (high - low))) := by
  have after := bytesAt_after holds ordered inside
  exact ⟨by rw [after]; rfl, by rw [after]; exact .refl h⟩

theorem modExpOperands_refines (holds : Holds h s bytes) :
    Refines Holds (modExpOperands s) h (.ok (CuteEVM.modExpOperands bytes)) := by
  have length := holds.length
  unfold modExpOperands CuteEVM.modExpOperands
  rw [← length]
  split
  · have sliced := reslice_refines holds 96 (Nat.le_refl _)
    rw [slice, if_pos ⟨by omega, Nat.le_refl _⟩, List.take_of_length_le (by rw [List.length_drop])] at sliced
    exact sliced
  · have sliced := reslice_refines holds 0 (Nat.zero_le _)
    rw [slice, if_pos ⟨Nat.le_refl _, Nat.zero_le _⟩, Nat.sub_self, List.take_zero] at sliced
    rw [List.drop_eq_nil_of_le (by omega)]
    exact sliced

theorem modExpHead_refines (holds : Holds h s bytes) (baseLen expLen : Nat) :
    Refines Same (modExpHead s baseLen expLen) h (CuteEVM.modExpHead bytes baseLen expLen) := by
  unfold modExpHead CuteEVM.modExpHead
  rw [← holds.length]
  split
  · exact .pure rfl
  · exact (dataBytes_refines holds _ _).bind_map fun head head' h' _ same => .pure (congrArg setBytes same)

theorem bigModExpGas_refines (holds : Holds h s bytes) : Refines Same (bigModExpGas s) h (CuteEVM.bigModExpGas bytes) := by
  refine then_dataBytes holds 0 32 fun base _ holds => then_dataBytes holds 32 32 fun exp _ holds =>
    then_dataBytes holds 64 32 fun mod h₃ holds => ?_
  refine (modExpOperands_refines holds).after_ok fun operands h₄ _ holds => ?_
  refine (modExpHead_refines holds _ _).bind fun head _ h₅ _ same => ?_
  subst same
  exact .pure rfl

theorem bigModExpRun_refines (holds : Holds h s bytes) : Refines Holds (bigModExpRun s) h (CuteEVM.bigModExpRun bytes) := by
  refine then_dataBytes holds 0 32 fun baseLen _ holds => then_dataBytes holds 32 32 fun expLen _ holds =>
    then_dataBytes holds 64 32 fun modLen h₃ holds => ?_
  refine (modExpOperands_refines holds).after_ok fun operands h₄ _ holds => ?_
  dsimp only
  split
  · exact refines_alloc [] h₄
  · refine then_dataBytes holds _ _ fun base _ holds => then_dataBytes holds _ _ fun exp _ holds =>
      then_dataBytes holds _ _ fun mod h₇ holds => ?_
    refine (refines_alloc _ h₇).after_ok fun result h₈ _ holds => ?_
    have padded := leftPadBytes_refines holds (intLength (setBytes modLen % 2 ^ 64))
    split at padded
    · next zero =>
      rw [if_pos zero]
      exact padded
    · next nonzero =>
      rw [if_neg nonzero]
      exact padded

theorem pairingPoints_refines (holds : Holds h s bytes) (count i : Nat) (inside : i + 192 * count ≤ bytes.length) :
    Refines Same (pairingPoints s count i) h (.ok (CuteEVM.pairingPoints count (bytes.drop i))) := by
  induction count generalizing i h with
  | zero => exact .pure rfl
  | succ count ih =>
    refine (bytesAt_refines holds (Nat.le_add_right i 64) (by omega)).after_ok fun curve h₁ kept₁ same => ?_
    obtain rfl := same
    have holds := holds.mono kept₁
    refine (bytesAt_refines holds (show i + 64 ≤ i + 192 by omega) (by omega)).after_ok fun twist h₂ kept₂ same => ?_
    obtain rfl := same
    refine (ih (holds.mono kept₂) (i + 192) (by omega)).after_ok fun rest h₃ _ same => ?_
    obtain rfl := same
    refine .pure ?_
    rw [Same, CuteEVM.pairingPoints, List.drop_drop, List.drop_drop, Nat.add_sub_cancel_left, Nat.add_sub_add_left]

-- The result is the same error, or a slice with the same bytes. The slices of the package stand for what they are made with.
def Result (answers : Answers) (h : Heap UInt8) : Except Err Slice → Except Err Bytes → Prop
  | .ok s, .ok bytes =>
    h.contents s = bytes ∨ s = answers.true32Byte ∧ bytes = bigEndian 32 1 ∨ s = answers.false32Byte ∧ bytes = bigEndian 32 0
  | .error e, .error e' => e = e'
  | _, _ => False

theorem curveResult_refines (answers : Answers) (point : Option (BitVec 256 × BitVec 256)) (h : Heap UInt8) :
    Refines (Result answers) (curveResult point) h (.ok (Precompiled.curveResult point)) := by
  cases point with
  | none => exact .pure rfl
  | some point => exact (refines_alloc (marshal point) h).after_ok fun output h' _ holds => .pure (.inl holds.2)

section Runs

variable [Crypto]

theorem pairing_refines (answers : Answers) (holds : Holds h s bytes) :
    Refines (Result answers) (pairing answers s) h (.ok (Precompiled.pairing bytes)) := by
  unfold pairing Precompiled.pairing
  rw [← holds.length]
  split
  · exact .pure rfl
  · refine (pairingPoints_refines holds _ 0 (by omega)).after_ok fun points h' _ same => ?_
    obtain rfl := same
    rw [List.drop_zero]
    rcases Crypto.bn256PairingCheck (CuteEVM.pairingPoints (bytes.length / 192) bytes) with _ | _ | _
    · exact .pure rfl
    · exact .pure (.inr (.inr ⟨rfl, rfl⟩))
    · exact .pure (.inr (.inl ⟨rfl, rfl⟩))

omit [Crypto] in
theorem requiredGas_refines (holds : Holds h s bytes) (p : Precompiled) :
    Refines Same (requiredGas s p) h (p.requiredGas bytes) := by
  have plain : Refines Same (do let bytes ← read s; lift (p.requiredGas bytes) : Code Nat) h (p.requiredGas bytes) :=
    (refines_read holds).after_ok fun bytes' h' _ same => by
      obtain rfl := same
      exact refines_lift _ h'
  cases p with
  | bigModExp => exact bigModExpGas_refines holds
  | _ => exact plain

theorem run_refines (answers : Answers) (holds : Holds h s bytes) {p : Precompiled} (other : p ≠ .ecrecover) :
    Refines (Result answers) (run answers s p) h (p.run bytes) := by
  cases p with
  | ecrecover => exact absurd rfl other
  | sha256hash =>
    refine (refines_read holds).after_ok fun bytes' h₁ _ same => ?_
    obtain rfl := same
    exact (refines_alloc _ h₁).after_ok fun sum h₂ _ holds => .pure (.inl holds.2)
  | ripemd160hash =>
    refine (refines_read holds).after_ok fun bytes' h₁ _ same => ?_
    obtain rfl := same
    refine (refines_alloc _ h₁).after_ok fun sum h₂ _ holds => ?_
    exact (leftPadded_refines holds (.inr (by decide))).after_ok fun output h₃ _ holds => .pure (.inl holds.2)
  | dataCopy => exact .pure (.inl holds.2)
  | bigModExp => exact (bigModExpRun_refines holds).bind_map fun output bytes' h' _ holds => .pure (.inl holds.2)
  | bn256Add =>
    refine (dataBytes_refines holds 0 64).bind fun x _ h₁ kept same => ?_
    obtain rfl := same
    refine (dataBytes_refines (holds.mono kept) 64 64).bind fun y _ h₂ _ same => ?_
    obtain rfl := same
    exact curveResult_refines answers _ h₂
  | bn256ScalarMul =>
    refine (dataBytes_refines holds 0 64).bind fun x _ h₁ kept same => ?_
    obtain rfl := same
    refine (dataBytes_refines (holds.mono kept) 64 32).bind fun y _ h₂ _ same => ?_
    obtain rfl := same
    exact curveResult_refines answers _ h₂
  | bn256Pairing => exact pairing_refines answers holds

def Recovers (bytes : Bytes) : Prop :=
  let input := rightPadded bytes 128
  allZero ((input.drop 32).take 31) = true ∧
    validateSignatureValues (input.getD 63 0 - 27) (setBytes ((input.drop 64).take 32)) (setBytes ((input.drop 96).take 32)) = true

omit [Crypto] in
theorem index_after (holds : Holds h s bytes) {i : Nat} (inside : i < bytes.length) :
    (index s i .sliceBounds : Code UInt8).after h = (.ok (bytes.getD i 0), h) := by
  have length := holds.length
  show (if i < s.len then Except.ok ((h.contents s).getD i default) else .error Panic.sliceBounds, h) = _
  rw [if_pos (by omega), holds.2]
  rfl

omit [Crypto] in
theorem append_after (holds : Holds h s bytes) (long : 128 ≤ bytes.length) (v : UInt8) :
    ∃ signature h', (append ⟨s.array, s.offset + 64, 128 - 64, s.cap - 64⟩ v : Code Slice).after h = (.ok signature, h') ∧
      h'.contents signature = (bytes.drop 64).take 64 ++ [v] ∧
      (128 < s.cap ∧ h' = h.write s.array (s.offset + 128) [v] ∨ s.cap = 128 ∧ Extends h h') := by
  have length := holds.length
  have room := holds.1.len
  have fits := fits_reslice holds.1 (show 64 ≤ 128 by decide) (show 128 ≤ s.cap by omega)
  have pair : h.contents ⟨s.array, s.offset + 64, 128 - 64, s.cap - 64⟩ = (bytes.drop 64).take 64 := by
    rw [contents_reslice 64 (by omega), holds.2]
  by_cases spare : 128 < s.cap
  · refine ⟨_, _, if_pos (show 128 - 64 < s.cap - 64 by omega), ?_, .inl ⟨spare, rfl⟩⟩
    rw [← pair]
    exact contents_grown fits (show 128 - 64 < s.cap - 64 by omega) v
  · have fresh := refines_alloc (ε := Panic) (h.contents ⟨s.array, s.offset + 64, 128 - 64, s.cap - 64⟩ ++ [v]) h
    refine ⟨_, _, if_neg (show ¬128 - 64 < s.cap - 64 by omega), ?_, .inr ⟨by omega, fresh.kept⟩⟩
    rw [← pair]
    exact fresh.agrees.2

def recoveryId (bytes : Bytes) : UInt8 := (rightPadded bytes 128).getD 63 0 - 27

omit [Crypto] in
theorem hash_after (holds : Holds h s bytes) (long : 128 ≤ bytes.length) {h' : Heap UInt8} {v : UInt8}
    (effect : 128 < s.cap ∧ h' = h.write s.array (s.offset + 128) [v] ∨ s.cap = 128 ∧ Extends h h') :
    h'.contents ⟨s.array, s.offset + 0, 32 - 0, s.cap - 0⟩ = bytes.take 32 := by
  have length := holds.length
  have room := holds.1.len
  have cap := holds.1.cap
  have fits := fits_reslice holds.1 (Nat.zero_le 32) (show 32 ≤ s.cap by omega)
  have before : h.contents ⟨s.array, s.offset + 0, 32 - 0, s.cap - 0⟩ = bytes.take 32 := by
    rw [contents_reslice 0 (by omega), holds.2, List.drop_zero]
  rcases effect with ⟨spare, rfl⟩ | ⟨-, kept⟩
  · rw [contents_write_one fits _ _ (fun _ => by omega), if_pos ⟨rfl, by dsimp only; omega⟩, before]
    refine List.set_eq_of_length_le ?_
    rw [List.length_take]
    dsimp only
    omega
  · rw [kept.contents fits, before]

omit [Crypto] in
theorem address_refines (digest : Nat) (h : Heap UInt8) :
    Refines Holds (do
      let bytes ← alloc (bigEndian 32 digest)
      let address ← reslice bytes 12 32 .sliceBounds
      leftPadBytes address 32 : Code Slice) h (.ok (bigEndian 32 (digest % 2 ^ 160))) := by
  have padded : leftPadded (((bigEndian 32 digest).drop 12).take (32 - 12)) 32 = bigEndian 32 (digest % 2 ^ 160) := by
    have fits : digest % 256 ^ 20 < 256 ^ 20 := Nat.mod_lt _ (by decide)
    rw [bigEndian_eq, bigEndian_eq, BigEndian.write_drop 12 20, List.take_of_length_le (by rw [BigEndian.write_length]),
      leftPadded, BigEndian.write_length, show (2 : Nat) ^ 160 = 256 ^ 20 by decide, BigEndian.write_add fits 12,
      BigEndian.write_mod]
  refine (refines_alloc _ h).after_ok fun bytes h₁ _ holds => ?_
  have sliced := reslice_refines holds 12 (show 32 ≤ (bigEndian 32 digest).length by rw [bigEndian_eq, BigEndian.write_length])
  rw [slice, if_pos ⟨by decide, by rw [bigEndian_eq, BigEndian.write_length]⟩] at sliced
  refine sliced.after_ok fun address h₂ _ holds => ?_
  rw [← padded]
  exact leftPadded_refines holds (.inr (by decide))

theorem recoverPadded_after (holds : Holds h s bytes) (long : 128 ≤ bytes.length) :
    ∃ output h', (recoverPadded s).after h = (.ok output, h') ∧ h'.contents output = CuteEVM.ecrecoverRun bytes ∧
      (¬Recovers bytes ∧ h' = h ∨
        Recovers bytes ∧
        ∃ h₁, (128 < s.cap ∧ h₁ = h.write s.array (s.offset + 128) [recoveryId bytes] ∨ s.cap = 128 ∧ Extends h h₁) ∧
          Extends h₁ h') := by
  have length := holds.length
  have room := holds.1.len
  have whole := rightPadded_whole long
  unfold recoverPadded CuteEVM.ecrecoverRun Recovers recoveryId
  rw [after_bind_ok (bytesAt_after holds (by decide) (by omega)), after_bind_ok (bytesAt_after holds (by decide) (by omega)),
    after_bind_ok (index_after holds (by omega)), after_bind_ok (bytesAt_after holds (by decide) (by omega))]
  simp only [whole, Nat.reduceSub]
  by_cases recovers : allZero ((bytes.drop 32).take 31) = true ∧
      validateSignatureValues (bytes.getD 63 0 - 27) (setBytes ((bytes.drop 64).take 32)) (setBytes ((bytes.drop 96).take 32)) =
        true
  · have passed : ¬(!allZero ((bytes.drop 32).take 31) ||
        !validateSignatureValues (bytes.getD 63 0 - 27) (setBytes ((bytes.drop 64).take 32))
          (setBytes ((bytes.drop 96).take 32))) = true := by
      rw [recovers.1, recovers.2]
      decide
    rw [if_neg passed, if_neg passed]
    obtain ⟨signature, h₁, appended, signed, effect⟩ := append_after holds long (bytes.getD 63 0 - 27)
    rw [after_bind_ok (after_reslice (Nat.zero_le 32) (by omega) _), after_bind_ok (after_reslice (by decide) (by omega) _),
      after_bind_ok appended, after_bind_ok (after_read _ h₁), after_bind_ok (after_read _ h₁), hash_after holds long effect,
        signed,
      List.drop_zero]
    cases Crypto.ecrecover (bytes.take 32) ((bytes.drop 64).take 64 ++ [bytes.getD 63 0 - 27]) with
    | none => exact ⟨nilSlice, h₁, rfl, List.take_zero, .inr ⟨recovers, h₁, effect, .refl h₁⟩⟩
    | some pubKey =>
      obtain ⟨output, h', done, kept, holds'⟩ := (address_refines (keccak256 pubKey.tail).toNat h₁).after_eq
      exact ⟨output, h', done, holds'.2, .inr ⟨recovers, h₁, effect, kept⟩⟩
  · have failed : (!allZero ((bytes.drop 32).take 31) ||
        !validateSignatureValues (bytes.getD 63 0 - 27) (setBytes ((bytes.drop 64).take 32))
          (setBytes ((bytes.drop 96).take 32))) = true := by
      rw [← Bool.not_and, Bool.not_eq_true', Bool.and_eq_false_iff]
      simpa only [not_and_or, Bool.not_eq_true] using recovers
    rw [if_pos failed, if_pos failed]
    exact ⟨nilSlice, h, rfl, List.take_zero, .inl ⟨recovers, rfl⟩⟩

theorem ecrecoverRun_after (holds : Holds h s bytes) :
    ∃ output h', (ecrecoverRun s).after h = (.ok output, h') ∧ h'.contents output = CuteEVM.ecrecoverRun bytes ∧
      (¬Recovers bytes → h'.contents s = bytes) ∧ (Recovers bytes → h'.contents s = bytes.set 128 (recoveryId bytes)) := by
  have length := holds.length
  have room := holds.1.len
  unfold ecrecoverRun
  by_cases long : 128 ≤ s.len
  · have whole : (rightPadBytes s 128).after h = (.ok s, h) := by rw [rightPadBytes, if_pos long, after_pure]
    obtain ⟨output, h', done, same, effect⟩ := recoverPadded_after holds (by omega)
    refine ⟨output, h', by rw [after_bind_ok whole, done], same, fun fails => ?_, fun recovers => ?_⟩
    · rcases effect with ⟨-, rfl⟩ | ⟨recovers, -⟩
      · exact holds.2
      · exact absurd recovers fails
    · rcases effect with ⟨fails, -⟩ | ⟨-, h₁, ⟨spare, rfl⟩ | ⟨tight, first⟩, kept⟩
      · exact absurd recovers fails
      · -- the byte behind the first 128 is in the array of the input
        have cap := holds.1.cap
        rw [kept.contents (fits_write holds.1 _ fun _ => by rw [List.length_singleton]; omega),
          contents_write_one holds.1 _ _ (fun _ => by omega), if_pos ⟨rfl, Nat.le_add_right _ _⟩, Nat.add_sub_cancel_left, holds.2]
      · rw [(first.trans kept).contents holds.1, holds.2, List.set_eq_of_length_le (by omega)]
  · have padded : (rightPadded bytes 128).length = 128 := by
      rw [rightPadded, List.length_append, List.length_replicate]
      omega
    have twice := rightPadded_whole padded.ge
    have fresh := refines_alloc (ε := Panic) (rightPadded bytes 128) h
    obtain ⟨output, h', done, same, effect⟩ := recoverPadded_after fresh.agrees padded.ge
    have kept : Extends h h' := by
      rcases effect with ⟨-, rfl⟩ | ⟨-, h₁, ⟨spare, -⟩ | ⟨-, first⟩, kept⟩
      · exact fresh.kept
      · exact absurd spare (by simp [padded])
      · exact fresh.kept.trans (first.trans kept)
    refine ⟨output, h', ?_, ?_, ?_, ?_⟩
    · rw [after_bind_ok (rightPadBytes_fresh holds (by omega) (by decide))]
      exact done
    · rw [same, CuteEVM.ecrecoverRun, twice]
      rfl
    · intro _
      rw [kept.contents holds.1, holds.2]
    · intro _
      rw [kept.contents holds.1, holds.2, List.set_eq_of_length_le (by omega)]

def Outcome (answers : Answers) (h : Heap UInt8) (outcome : Except Err Slice × Contract)
    (outcome' : Except Err Bytes × Contract) : Prop :=
  Result answers h outcome.1 outcome'.1 ∧ outcome.2 = outcome'.2

theorem runPrecompiledContract_refines (answers : Answers) (holds : Holds h s bytes) {p : Precompiled} (other : p ≠ .ecrecover)
    (contract : Contract) :
    Refines (Outcome answers)
      (runPrecompiledContract answers p s contract) h (CuteEVM.runPrecompiledContract p bytes contract) := by
  refine (requiredGas_refines holds p).bind fun gas _ h₁ kept same => ?_
  obtain rfl := same
  rcases contract.useGas gas with ⟨_ | _, contract⟩
  · exact .pure ⟨rfl, rfl⟩
  · refine (run_refines answers (holds.mono kept) other).bind fun result result' h₂ _ same => ?_
    exact .pure ⟨same, rfl⟩

theorem runPrecompiledContract_ecrecover (answers : Answers) (holds : Holds h s bytes) (contract : Contract) :
    ∃ outcome outcome' h', (runPrecompiledContract answers .ecrecover s contract).after h = (.ok outcome, h') ∧
      CuteEVM.runPrecompiledContract .ecrecover bytes contract = .ok outcome' ∧ Outcome answers h' outcome outcome' ∧
      (¬(EcrecoverGas ≤ contract.gas ∧ Recovers bytes) → h'.contents s = bytes) ∧
      (EcrecoverGas ≤ contract.gas ∧ Recovers bytes → h'.contents s = bytes.set 128 (recoveryId bytes)) := by
  have priced : (requiredGas s .ecrecover).after h = (.ok EcrecoverGas, h) := rfl
  have priced' : Precompiled.requiredGas bytes .ecrecover = .ok EcrecoverGas := rfl
  unfold runPrecompiledContract CuteEVM.runPrecompiledContract Contract.useGas
  rw [after_bind_ok priced, priced', ok_bind]
  by_cases poor : contract.gas < EcrecoverGas
  · rw [if_pos poor]
    exact ⟨_, _, h, rfl, rfl, ⟨rfl, rfl⟩, fun _ => holds.2, fun paid => absurd poor (Nat.not_lt_of_le paid.1)⟩
  · obtain ⟨output, h', done, same, fails, recovers⟩ := ecrecoverRun_after holds
    have ran : (run answers s .ecrecover).after h = (.ok (.ok output), h') := by
      rw [run, after_bind_ok done, after_pure]
    rw [if_neg poor]
    refine ⟨_, _, h', after_bind_ok ran, rfl, ⟨.inl same, rfl⟩, fun unpaid => ?_, fun both => recovers both.2⟩
    exact fails fun recovers => unpaid ⟨Nat.le_of_not_lt poor, recovers⟩

end Runs

end OnSlices

end CuteEVM
