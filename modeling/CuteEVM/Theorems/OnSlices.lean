import CuteEVM.Proofs.OnSlices

set_option autoImplicit false

-- The caller's bytes stay as they are, unless `ecrecover` appends the recovery id to a part of a long input.

namespace CuteEVM

namespace OnSlices

open Slices

theorem set_eq_self_iff {α : Type} (l : List α) (i : Nat) (a : α) : l.set i a = l ↔ ¬∃ b, l[i]? = some b ∧ b ≠ a := by
  constructor
  · rintro same ⟨b, there, other⟩
    obtain ⟨inside, -⟩ := List.getElem?_eq_some_iff.mp there
    have written : (l.set i a)[i]? = some a := List.getElem?_set_self inside
    rw [same, there] at written
    exact other (Option.some.inj written)
  · intro none
    by_cases inside : i < l.length
    · have here : l[i] = a := by
        by_contra other
        exact none ⟨l[i], List.getElem?_eq_getElem inside, other⟩
      rw [← here, List.set_getElem_self]
    · exact List.set_eq_of_length_le (Nat.le_of_not_lt inside)

section Inputs

variable [Crypto]

-- A call of `ecrecover` that is paid for, passes the checks and has another byte than the recovery id behind the first 128.
def Overwrites (p : Precompiled) (bytes : Bytes) (contract : Contract) : Prop :=
  p = .ecrecover ∧ EcrecoverGas ≤ contract.gas ∧ Recovers bytes ∧ ∃ byte, bytes[128]? = some byte ∧ byte ≠ recoveryId bytes

-- The slices of the caller and of the package are any that fit their arrays, with any room behind them.
theorem input_kept_iff (answers : Answers) (p : Precompiled) (input : Slice) (contract : Contract) (h : Heap UInt8)
    (fits : input.Fits h) :
    ((runPrecompiledContract answers p input contract).after h).2.contents input = h.contents input ↔
      ¬Overwrites p (h.contents input) contract := by
  have holds : Holds h input (h.contents input) := ⟨fits, rfl⟩
  by_cases recover : p = .ecrecover
  · subst recover
    obtain ⟨outcome, outcome', h', done, -, -, unpaid, paid⟩ := runPrecompiledContract_ecrecover answers holds contract
    rw [done]
    by_cases both : EcrecoverGas ≤ contract.gas ∧ Recovers (h.contents input)
    · rw [paid both, set_eq_self_iff]
      exact ⟨fun same overwrites => same overwrites.2.2.2, fun kept other => kept ⟨rfl, both.1, both.2, other⟩⟩
    · exact ⟨fun _ overwrites => both ⟨overwrites.2.1, overwrites.2.2.1⟩, fun _ => unpaid both⟩
  · have kept := (runPrecompiledContract_refines answers holds recover contract).kept
    exact ⟨fun _ overwrites => recover overwrites.1, fun _ => kept.contents fits⟩

end Inputs

-- A signature whose `r` is not the abscissa of a point, with one byte after it.
def longInput : Bytes := bigEndian 32 0 ++ bigEndian 32 27 ++ bigEndian 32 5 ++ bigEndian 32 1 ++ [7]

def sampleContract : Contract := Contract.newContract (.accountRef 1) 1 0 3000

def sampleAnswers : Answers := ⟨⟨1, 0, 32, 32⟩, ⟨2, 0, 32, 32⟩⟩

def sampleHeap (bytes : Bytes) : Heap UInt8 := [bytes, bigEndian 32 1, bigEndian 32 0]

theorem input_overwritten : ((@runPrecompiledContract Crypto.sample sampleAnswers .ecrecover ⟨0, 0, 129, 129⟩ sampleContract).after
    (sampleHeap longInput)).2.contents ⟨0, 0, 129, 129⟩ ≠ (sampleHeap longInput).contents ⟨0, 0, 129, 129⟩ := by
  decide +kernel

theorem input_kept_iff_sample :
    ((@runPrecompiledContract Crypto.sample sampleAnswers .ecrecover ⟨0, 0, 128, 129⟩ sampleContract).after
    (sampleHeap longInput)).2.contents ⟨0, 0, 128, 129⟩ = (sampleHeap longInput).contents ⟨0, 0, 128, 129⟩ := by
  refine (@input_kept_iff Crypto.sample sampleAnswers .ecrecover ⟨0, 0, 128, 129⟩ sampleContract (sampleHeap longInput) ?_).mpr ?_
  · exact ⟨by decide, by decide, by decide +kernel⟩
  · rintro ⟨-, -, -, byte, there, -⟩
    have length : ((sampleHeap longInput).contents ⟨0, 0, 128, 129⟩).length = 128 := by decide +kernel
    rw [List.getElem?_eq_none (by omega)] at there
    cases there

end OnSlices

end CuteEVM
