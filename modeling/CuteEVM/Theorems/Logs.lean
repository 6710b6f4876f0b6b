import Mathlib.Algebra.BigOperators.Group.Finset.Piecewise
import CuteEVM.State.Logs

set_option autoImplicit false

-- Whatever is called on a state, the logs it keeps are numbered from zero on, in the order in which they were added.

namespace CuteEVM

theorem sum_of_length (held : List Log) (hashes : Finset Hash) (covered : ∀ log ∈ held, log.txHash ∈ hashes) :
    ∑ h ∈ hashes, (Emission.of held h).length = held.length := by
  induction held with
  | nil => exact Finset.sum_const_zero
  | cons log held ih =>
    have one : ∀ h, (Emission.of (log :: held) h).length = (if log.txHash = h then 1 else 0) + (Emission.of held h).length := by
      intro h
      by_cases same : log.txHash = h
      · simp [Emission.of, same, Nat.add_comm]
      · simp [Emission.of, same]
    calc ∑ h ∈ hashes, (Emission.of (log :: held) h).length
        = ∑ h ∈ hashes, (if log.txHash = h then 1 else 0) + ∑ h ∈ hashes, (Emission.of held h).length := by
          rw [← Finset.sum_add_distrib]
          exact Finset.sum_congr rfl fun h _ => one h
      _ = 1 + held.length := by
          rw [ih fun log' member => covered log' (List.mem_cons_of_mem _ member), Finset.sum_ite_eq,
            if_pos (covered log List.mem_cons_self)]
      _ = (log :: held).length := Nat.add_comm 1 held.length

section Numbers

variable [Crypto]

-- The sequence holds the logs that were added and not undone, in their order. They are in memory, so there are fewer
-- than `2 ^ 64` of them.
theorem logs_numbered (trie : Address → Option Account) (codes : Hash → Option Bytes) (ops : List Op) (s : StateDB)
    (run : Op.applyAll ops (StateDB.new trie codes) = .ok s) (fits : (Emission.after ops).held.length < 2 ^ 64) :
    (∀ h, s.logs h = (Emission.after ops).held.filter fun log => log.txHash = h) ∧
    (Emission.after ops).held.map (·.index) = List.range s.logSize ∧
    ∀ hashes : Finset Hash, (∀ h, s.logs h ≠ [] → h ∈ hashes) → ∑ h ∈ hashes, (s.logs h).length = s.logSize := by
  obtain ⟨base, tracks⟩ := Emission.tracks_run (Emission.tracks_new trie codes) (new_valid trie codes) run
  have logs : s.logs = Emission.of (Emission.after ops).held := congrArg LogBook.logs tracks.book
  have logSize : s.logSize = (Emission.after ops).held.length :=
    (congrArg LogBook.logSize tracks.book).trans (Nat.mod_eq_of_lt fits)
  refine ⟨fun h => congrFun logs h, ?_, fun hashes covered => ?_⟩
  · calc (Emission.after ops).held.map (·.index)
        = (List.range (Emission.after ops).held.length).map (· % 2 ^ 64) := tracks.numbered
      _ = List.range (Emission.after ops).held.length := by
          refine (List.map_congr_left fun index member => ?_).trans (List.map_id _)
          exact Nat.mod_eq_of_lt (Nat.lt_trans (List.mem_range.mp member) fits)
      _ = List.range s.logSize := by rw [logSize]
  · rw [logs, logSize]
    refine sum_of_length _ hashes fun log member => covered _ ?_
    rw [logs]
    exact List.ne_nil_of_mem (List.mem_filter.mpr ⟨member, decide_eq_true rfl⟩)

end Numbers

def emptyLog : Log := { address := 1, topics := [], data := [], blockNumber := 1 }

-- Two transactions. The second log of the first one is undone, and so is the first one of the second.
def logCalls : List Op :=
  [.prepare 7 1 0, .addLog emptyLog, .snapshot, .addLog emptyLog, .revertToSnapshot 0, .finalise true,
    .prepare 8 1 1, .snapshot, .addLog emptyLog, .revertToSnapshot 1, .addLog emptyLog]

theorem logs_numbered_sample : ∃ s, @Op.applyAll Crypto.sample logCalls (StateDB.new (fun _ => none) fun _ => none) = .ok s ∧
    s.logSize = 2 ∧ (s.logs 7).map (·.index) = [0] ∧ (s.logs 8).map (·.index) = [1] := by
  have finishes : (@Op.applyAll Crypto.sample logCalls (StateDB.new (fun _ => none) fun _ => none)).isOk = true := by
    decide +kernel
  cases run : @Op.applyAll Crypto.sample logCalls (StateDB.new (fun _ => none) fun _ => none) with
  | error panicked =>
    rw [run] at finishes
    cases finishes
  | ok s =>
    obtain ⟨logs, indices, -⟩ := @logs_numbered Crypto.sample _ _ logCalls s run (by decide +kernel)
    have logSize := congrArg List.length indices
    rw [List.length_range] at logSize
    refine ⟨s, rfl, logSize.symm.trans (by decide +kernel), ?_, ?_⟩
    · rw [logs]
      decide +kernel
    · rw [logs]
      decide +kernel

end CuteEVM
