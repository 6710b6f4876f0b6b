import CuteEVM.VM.GetHash

set_option autoImplicit false

-- The closure of `core.GetHashFn` is a function of the number it is asked about: the map it keeps only saves it the
-- walk.

namespace CuteEVM

open GetHash

-- `ancestor` follows the parent links from `ref`, so the header above block `n` is found if all those above it are. The
-- numbers of blocks are those that can be asked of the chain, and `fuel` bounds the rounds of the loop.
theorem getHash_answers (ref : Header) (chain : ChainContext) (linked : Linked chain) (small : ref.number < 2 ^ 64) :
    ∃ hashOf : Nat → Hash,
      (∀ fuel > ref.number, ∀ ns : List Nat, (∀ n ∈ ns, n < 2 ^ 64) → queries ref chain fuel none ns = some (ns.map hashOf)) ∧
      (∀ n < ref.number, ∀ header, ancestor ref chain (ref.number - (n + 1)) = some header →
        header.number = n + 1 ∧ hashOf n = header.parentHash) ∧
      (∀ n < ref.number, ancestor ref chain (ref.number - (n + 1)) = none → hashOf n = 0) ∧
      ∀ n, ref.number ≤ n → n < 2 ^ 64 - 1 → hashOf n = 0 := by
  refine ⟨answer ref chain, fun fuel enough ns bounded => queries_answer linked small enough bounded (sound_new linked small), ?_,
    ?_, ?_⟩
  · intro n below header found
    have number := ancestor_number linked small found
    refine ⟨by omega, ?_⟩
    rw [answer_of_lt small below, found]
    rfl
  · intro n below missing
    rw [answer_of_lt small below, missing]
    rfl
  · intro n above bounded
    exact answer_of_ge above bounded

-- Two blocks of a chain whose older ones are not there.
def sampleChain : ChainContext where
  getHeader hash number :=
    if hash = 0xb ∧ number = 2 then some ⟨0xa, 2⟩
    else if hash = 0xa ∧ number = 1 then some ⟨0x9, 1⟩
    else none

theorem sampleChain_linked : Linked sampleChain := by
  constructor
  · intro hash number header found
    simp only [sampleChain] at found
    split at found
    · next asked =>
      obtain rfl := Option.some.inj found
      exact asked.2.symm
    · split at found
      · next asked =>
        obtain rfl := Option.some.inj found
        exact asked.2.symm
      · cases found
  · intro header _
    simp [sampleChain]

-- The walk for block 0 fills the map from which the later answers come.
theorem getHash_answers_sample : queries ⟨0xb, 3⟩ sampleChain 4 none [5, 0, 2, 1, 5] = some [0, 0x9, 0xb, 0xa, 0] := by
  obtain ⟨hashOf, answered, known, -, later⟩ := getHash_answers ⟨0xb, 3⟩ sampleChain sampleChain_linked (by decide)
  have first : hashOf 0 = 0x9 := (known 0 (by decide) ⟨0x9, 1⟩ (by decide)).2
  have second : hashOf 1 = 0xa := (known 1 (by decide) ⟨0xa, 2⟩ (by decide)).2
  have third : hashOf 2 = 0xb := (known 2 (by decide) ⟨0xb, 3⟩ (by decide)).2
  have beyond : hashOf 5 = 0 := later 5 (by decide) (by decide)
  rw [answered 4 (by decide) _ (by decide)]
  simp only [List.map_cons, List.map_nil, first, second, third, beyond]

end CuteEVM
