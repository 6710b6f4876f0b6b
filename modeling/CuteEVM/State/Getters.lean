import CuteEVM.State.Evolves

set_option autoImplicit false

-- Every getter shows a part of the world and leaves the world as it is.

namespace CuteEVM

variable [Crypto]

-- What the public getters return, for every argument.
structure Observation where
  exist : Address → Bool
  empty : Address → Bool
  balance : Address → Int
  nonce : Address → Nat
  code : Address → Bytes
  codeSize : Address → Nat
  codeHash : Address → Hash
  storage : Address → Hash → Hash
  committed : Address → Hash → Hash
  suicided : Address → Bool
  refund : Nat
  logs : Hash → List Log
  preimages : Hash → Option Bytes

def StateDB.observe (s : StateDB) : Observation where
  exist := fun a => (s.exist a).1
  empty := fun a => (s.empty a).1
  balance := fun a => (s.getBalance a).1
  nonce := fun a => (s.getNonce a).1
  code := fun a => (s.getCode a).1
  codeSize := fun a => (s.getCodeSize a).1
  codeHash := fun a => (s.getCodeHash a).1
  storage := fun a key => (s.getState a key).1
  committed := fun a key => (s.getCommittedState a key).1
  suicided := fun a => (s.hasSuicided a).1
  refund := s.getRefund
  logs := s.getLogs
  preimages := s.preimages

def AccountView.codeSize (codes : Hash → Option Bytes) (view : AccountView) : Nat :=
  if view.code ≠ [] then view.code.length else ((codes view.codeHash).getD []).length

def World.observe (codes : Hash → Option Bytes) (world : World) : Observation where
  exist := fun a => (world.accounts a).isSome
  empty := fun a => (world.accounts a).elim true (·.empty)
  balance := fun a => (world.accounts a).elim 0 (·.balance)
  nonce := fun a => (world.accounts a).elim 0 (·.nonce)
  code := fun a => (world.accounts a).elim [] (·.code)
  codeSize := fun a => (world.accounts a).elim 0 (·.codeSize codes)
  codeHash := fun a => (world.accounts a).elim 0 (·.codeHash)
  storage := fun a key => (world.accounts a).elim 0 (·.storage key)
  committed := fun a key => (world.accounts a).elim 0 (·.committed key)
  suicided := fun a => (world.accounts a).elim false (·.suicided)
  refund := world.refund
  logs := world.logs
  preimages := world.preimages

theorem StateObject.codeSize_view (codes : Hash → Option Bytes) (o : StateObject) :
    (o.view codes).codeSize codes =
      if o.code ≠ [] then o.code.length else ((codes o.data.codeHash).getD []).length := by
  by_cases cached : o.code = []
  · by_cases empty : o.data.codeHash = emptyCodeHash
    · simp [AccountView.codeSize, view, resolveCode, cached, empty]
    · by_cases stored : (codes o.data.codeHash).getD [] = [] <;>
        simp [AccountView.codeSize, view, resolveCode, cached, empty, stored]
  · simp [AccountView.codeSize, view, resolveCode, cached]

omit [Crypto] in
theorem StateDB.load_codes (s : StateDB) (a : Address) : (s.load a).codes = s.codes := by
  rcases s.load_eq a with same | ⟨data, _, _, loaded⟩
  · rw [same]
  · rw [loaded]
    rfl

theorem observe_world (s : StateDB) : s.observe = s.world.observe s.codes := by
  simp only [StateDB.observe, World.observe, Observation.mk.injEq, StateDB.world]
  refine ⟨?_, ?_, ?_, ?_, ?_, ?_, ?_, ?_, ?_, ?_, rfl, rfl, trivial⟩ <;> funext a
  · simp [StateDB.exist, StateDB.getStateObject_eq]
  · cases found : s.lookup a <;> simp [StateDB.empty, StateDB.getStateObject_eq, found, StateObject.view_empty]
  · cases found : s.lookup a <;> simp [StateDB.getBalance, StateDB.getStateObject_eq, found, StateObject.view]
  · cases found : s.lookup a <;> simp [StateDB.getNonce, StateDB.getStateObject_eq, found, StateObject.view]
  · cases found : s.lookup a <;>
      simp [StateDB.getCode, StateDB.getStateObject_eq, found, s.load_codes, StateObject.loadCode_code,
        StateObject.view]
  · cases found : s.lookup a with
    | none => simp [StateDB.getCodeSize, StateDB.getStateObject_eq, found]
    | some o =>
      simp only [StateDB.getCodeSize, StateDB.getStateObject_eq, found, s.load_codes, Option.map_some, Option.elim,
        StateObject.codeSize_view]
      split <;> rfl
  · cases found : s.lookup a <;> simp [StateDB.getCodeHash, StateDB.getStateObject_eq, found, StateObject.view]
  · funext key
    cases found : s.lookup a <;>
      simp [StateDB.getState, StateDB.getStateObject_eq, found, StateObject.getState_value s.codes]
  · funext key
    cases found : s.lookup a <;>
      simp [StateDB.getCommittedState, StateDB.getStateObject_eq, found,
        StateObject.getCommittedState_value s.codes]
  · cases found : s.lookup a <;> simp [StateDB.hasSuicided, StateDB.getStateObject_eq, found, StateObject.view]

theorem observe_congr {s s' : StateDB} (world : s'.world = s.world) (codes : s'.codes = s.codes) :
    s'.observe = s.observe := by
  rw [observe_world, observe_world, world, codes]

theorem Reads.observe {s s' : StateDB} (reads : Reads s s') : s'.observe = s.observe :=
  observe_congr reads.world reads.codes

section Reads

variable {s : StateDB}

theorem StateDB.getStateObject_reads (valid : Valid s) (a : Address) : Reads s (s.getStateObject a).2 := by
  rw [s.getStateObject_eq]
  exact .load valid a

theorem StateDB.exist_reads (valid : Valid s) (a : Address) : Reads s (s.exist a).2 :=
  getStateObject_reads valid a

theorem StateDB.empty_reads (valid : Valid s) (a : Address) : Reads s (s.empty a).2 := by
  have loaded := Reads.load valid a
  cases found : s.lookup a <;> simpa [empty, s.getStateObject_eq, found] using loaded

theorem StateDB.getBalance_reads (valid : Valid s) (a : Address) : Reads s (s.getBalance a).2 := by
  have loaded := Reads.load valid a
  cases found : s.lookup a <;> simpa [getBalance, s.getStateObject_eq, found] using loaded

theorem StateDB.getNonce_reads (valid : Valid s) (a : Address) : Reads s (s.getNonce a).2 := by
  have loaded := Reads.load valid a
  cases found : s.lookup a <;> simpa [getNonce, s.getStateObject_eq, found] using loaded

theorem StateDB.getCodeSize_reads (valid : Valid s) (a : Address) : Reads s (s.getCodeSize a).2 := by
  have loaded := Reads.load valid a
  cases found : s.lookup a with
  | none => simpa [getCodeSize, s.getStateObject_eq, found] using loaded
  | some o =>
    simp only [getCodeSize, s.getStateObject_eq, found]
    split <;> exact loaded

theorem StateDB.getCodeHash_reads (valid : Valid s) (a : Address) : Reads s (s.getCodeHash a).2 := by
  have loaded := Reads.load valid a
  cases found : s.lookup a <;> simpa [getCodeHash, s.getStateObject_eq, found] using loaded

theorem StateDB.hasSuicided_reads (valid : Valid s) (a : Address) : Reads s (s.hasSuicided a).2 := by
  have loaded := Reads.load valid a
  cases found : s.lookup a <;> simpa [hasSuicided, s.getStateObject_eq, found] using loaded

theorem Reads.load_cache (valid : Valid s) {a : Address} {o o' : StateObject} (found : s.lookup a = some o)
    (cached : StateObject.Cached s.codes o o') : Reads s ((s.load a).setStateObject o') := by
  have loaded := Reads.load valid a
  have present := (valid.kept.objects.address_of_lookup found).2.1
  refine loaded.trans (.cache loaded.valid (StateDB.lookup_of_live (StateDB.live_load found) present) ?_)
  rw [s.load_codes]
  exact cached

theorem StateDB.getCode_reads (valid : Valid s) (a : Address) : Reads s (s.getCode a).2 := by
  cases found : s.lookup a with
  | none => simpa [getCode, s.getStateObject_eq, found] using Reads.load valid a
  | some o =>
    simp only [getCode, s.getStateObject_eq, found, s.load_codes]
    exact .load_cache valid found (o.loadCode_cached s.codes)

theorem StateDB.getState_reads (valid : Valid s) (a : Address) (key : Hash) : Reads s (s.getState a key).2 := by
  cases found : s.lookup a with
  | none => simpa [getState, s.getStateObject_eq, found] using Reads.load valid a
  | some o =>
    simp only [getState, s.getStateObject_eq, found]
    exact .load_cache valid found (o.getState_cached s.codes key)

theorem StateDB.getCommittedState_reads (valid : Valid s) (a : Address) (key : Hash) :
    Reads s (s.getCommittedState a key).2 := by
  cases found : s.lookup a with
  | none => simpa [getCommittedState, s.getStateObject_eq, found] using Reads.load valid a
  | some o =>
    simp only [getCommittedState, s.getStateObject_eq, found]
    exact .load_cache valid found (o.getCommittedState_cached s.codes key)

end Reads

end CuteEVM
