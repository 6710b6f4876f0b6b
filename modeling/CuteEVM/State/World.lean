import CuteEVM.State.StateDB

set_option autoImplicit false

-- The world of a state is what its getters can see, whatever part of it is cached in live objects.

namespace CuteEVM

section Maps

variable {V : Type}

theorem lookup_insert_eq (a b : Address) (value : V) (table : AList fun _ : Address => V) :
    (table.insert b value).lookup a = if a = b then some value else table.lookup a := by
  by_cases same : a = b
  · subst same
    simp only [AList.lookup_insert, if_true]
  · simp only [AList.lookup_insert_ne same, same, if_false]

theorem lookup_erase_eq (a b : Address) (table : AList fun _ : Address => V) :
    (table.erase b).lookup a = if a = b then none else table.lookup a := by
  by_cases same : a = b
  · subst same
    simp only [AList.lookup_erase, if_true]
  · simp only [AList.lookup_erase_ne same, same, if_false]

end Maps

def resolveCode [Crypto] (codes : Hash → Option Bytes) (code : Bytes) (codeHash : Hash) : Bytes :=
  if code ≠ [] then code
  else if codeHash = emptyCodeHash then []
  else (codes codeHash).getD []

theorem resolveCode_resolved [Crypto] (codes : Hash → Option Bytes) (code : Bytes) (codeHash : Hash) :
    resolveCode codes (resolveCode codes code codeHash) codeHash = resolveCode codes code codeHash := by
  by_cases cached : code = []
  · by_cases empty : codeHash = emptyCodeHash
    · simp [resolveCode, cached, empty]
    · by_cases stored : (codes codeHash).getD [] = [] <;> simp [resolveCode, cached, empty, stored]
  · simp [resolveCode, cached]

structure AccountView where
  nonce : Nat
  balance : Int
  codeHash : Hash
  code : Bytes
  storage : Hash → Hash
  committed : Hash → Hash
  suicided : Bool

def AccountView.empty [Crypto] (view : AccountView) : Bool :=
  view.nonce == 0 && view.balance == 0 && view.codeHash == emptyCodeHash

namespace StateObject

def view [Crypto] (codes : Hash → Option Bytes) (o : StateObject) : AccountView where
  nonce := o.data.nonce
  balance := o.data.balance
  codeHash := o.data.codeHash
  code := resolveCode codes o.code o.data.codeHash
  storage := fun key => (o.dirtyStorage key).getD ((o.originStorage key).getD (o.getTrie key))
  committed := fun key => (o.originStorage key).getD (o.getTrie key)
  suicided := o.suicided

theorem view_empty [Crypto] (codes : Hash → Option Bytes) (o : StateObject) :
    (o.view codes).empty = o.empty := rfl

theorem loadCode_code [Crypto] (codes : Hash → Option Bytes) (o : StateObject) :
    (o.loadCode codes).1 = resolveCode codes o.code o.data.codeHash := by
  unfold loadCode resolveCode
  split
  · rfl
  · split <;> rfl

theorem getCommittedState_value [Crypto] (codes : Hash → Option Bytes) (o : StateObject) (key : Hash) :
    (o.getCommittedState key).1 = (o.view codes).committed key := by
  simp only [getCommittedState, view]
  cases o.originStorage key <;> rfl

theorem getState_value [Crypto] (codes : Hash → Option Bytes) (o : StateObject) (key : Hash) :
    (o.getState key).1 = (o.view codes).storage key := by
  simp only [getState, view]
  cases o.dirtyStorage key with
  | none => exact o.getCommittedState_value codes key
  | some value => rfl

-- The caches of an object agree with its storage trie, and a slot is loaded before it is written.
structure Sound (o : StateObject) : Prop where
  origin : ∀ key value, o.originStorage key = some value → value = o.getTrie key
  dirty : ∀ key, (o.dirtyStorage key).isSome → (o.originStorage key).isSome

theorem newObject_sound (address : Address) (data : Account) : (newObject address data).Sound where
  origin := by simp [newObject]
  dirty := by simp [newObject]

def keys (o : StateObject) : Set Hash := fun key => (o.originStorage key).isSome

structure Cached [Crypto] (codes : Hash → Option Bytes) (o o' : StateObject) : Prop where
  address : o'.address = o.address
  deleted : o'.deleted = o.deleted
  dirtyStorage : o'.dirtyStorage = o.dirtyStorage
  data : o'.data = o.data
  keys : o.keys ⊆ o'.keys
  view : o'.view codes = o.view codes
  sound : o.Sound → o'.Sound

theorem Cached.refl [Crypto] (codes : Hash → Option Bytes) (o : StateObject) : Cached codes o o :=
  ⟨rfl, rfl, rfl, rfl, subset_rfl, rfl, id⟩

theorem loadCode_cached [Crypto] (codes : Hash → Option Bytes) (o : StateObject) :
    Cached codes o (o.loadCode codes).2 := by
  unfold loadCode
  split
  · exact Cached.refl codes o
  · next absent =>
      split
      · exact Cached.refl codes o
      · next stored =>
          have empty : o.code = [] := by simpa using absent
          refine ⟨rfl, rfl, rfl, rfl, subset_rfl, ?_, fun sound => ⟨sound.origin, sound.dirty⟩⟩
          have resolved := resolveCode_resolved codes o.code o.data.codeHash
          simp only [resolveCode, empty, ne_eq, not_true_eq_false, if_false, stored] at resolved
          simp only [view, resolveCode, empty, ne_eq, not_true_eq_false, if_false, stored, AccountView.mk.injEq,
            true_and]
          exact ⟨resolved, rfl, rfl, trivial⟩

theorem getCommittedState_cached [Crypto] (codes : Hash → Option Bytes) (o : StateObject) (key : Hash) :
    Cached codes o (o.getCommittedState key).2 := by
  unfold getCommittedState
  cases loaded : o.originStorage key with
  | some value => exact Cached.refl codes o
  | none =>
    have origin : ∀ k, (Function.update o.originStorage key (some (o.getTrie key)) k).getD (o.getTrie k) =
        (o.originStorage k).getD (o.getTrie k) := by
      intro k
      by_cases same : k = key
      · subst same
        simp [loaded]
      · simp [same]
    refine ⟨rfl, rfl, rfl, rfl, ?_, ?_, ?_⟩
    · intro k present
      by_cases same : k = key
      · subst same
        show (Function.update o.originStorage k (some (o.getTrie k)) k).isSome = true
        simp
      · show (Function.update o.originStorage key (some (o.getTrie key)) k).isSome = true
        rw [Function.update_of_ne same]
        exact present
    · simp only [view, AccountView.mk.injEq, true_and]
      exact ⟨funext fun k => congrArg _ (origin k), funext origin, trivial⟩
    · intro sound
      refine ⟨?_, ?_⟩
      · intro k value present
        by_cases same : k = key
        · subst same
          simpa [getTrie, eq_comm] using present
        · exact sound.origin k value (by simpa [same] using present)
      · intro k dirty
        by_cases same : k = key
        · subst same
          simp
        · simpa [same] using sound.dirty k dirty

theorem getState_cached [Crypto] (codes : Hash → Option Bytes) (o : StateObject) (key : Hash) :
    Cached codes o (o.getState key).2 := by
  unfold getState
  cases o.dirtyStorage key with
  | some value => exact Cached.refl codes o
  | none => exact o.getCommittedState_cached codes key

end StateObject

namespace StateDB

variable {s : StateDB} {a : Address} {o : StateObject}

def live (s : StateDB) (a : Address) : Option StateObject := s.stateObjects.lookup a

def lookup (s : StateDB) (a : Address) : Option StateObject :=
  match s.live a with
  | some o => if o.deleted then none else some o
  | none => (s.trie a).map (newObject a)

theorem present_of_lookup (found : s.lookup a = some o) : o.deleted = false := by
  unfold lookup at found
  cases live : s.live a <;> cases stored : s.trie a <;> grind [newObject]

theorem lookup_of_live (live : s.live a = some o)
    (present : o.deleted = false) : s.lookup a = some o := by
  simp [lookup, live, present]

theorem lookup_of_deleted (live : s.live a = some o)
    (deleted : o.deleted = true) : s.lookup a = none := by
  simp [lookup, live, deleted]

theorem lookup_of_absent (absent : s.live a = none) :
    s.lookup a = (s.trie a).map (newObject a) := by
  simp [lookup, absent]

@[simp] theorem live_setStateObject (s : StateDB) (o : StateObject) (a : Address) :
    (s.setStateObject o).live a = if a = o.address then some o else s.live a :=
  lookup_insert_eq a o.address o s.stateObjects

@[simp] theorem live_append (s : StateDB) (entry : JournalEntry) (a : Address) :
    (s.append entry).live a = s.live a := rfl

theorem lookup_congr {s s' : StateDB} (live : s'.live a = s.live a) (trie : s'.trie = s.trie) :
    s'.lookup a = s.lookup a := by
  simp only [lookup, live, trie]

theorem lookup_setStateObject (s : StateDB) (o : StateObject) (a : Address) (present : o.deleted = false) :
    (s.setStateObject o).lookup a = if a = o.address then some o else s.lookup a := by
  by_cases same : a = o.address
  · rw [if_pos same]
    exact lookup_of_live (by rw [live_setStateObject, if_pos same]) present
  · rw [if_neg same]
    exact lookup_congr (by rw [live_setStateObject, if_neg same]) rfl

def load (s : StateDB) (a : Address) : StateDB := (s.getStateObject a).2

theorem getStateObject_eq (s : StateDB) (a : Address) : s.getStateObject a = (s.lookup a, s.load a) := by
  refine Prod.ext ?_ rfl
  simp only [getStateObject, lookup, live]
  cases s.stateObjects.lookup a with
  | some o => cases deleted : o.deleted <;> simp [deleted]
  | none => cases s.trie a <;> rfl

theorem live_load (found : s.lookup a = some o) :
    (s.load a).live a = some o := by
  unfold load getStateObject
  cases live : s.stateObjects.lookup a with
  | some obj =>
    cases deleted : obj.deleted with
    | true => simp [lookup_of_deleted (s := s) live deleted] at found
    | false =>
      have same := lookup_of_live (s := s) live deleted
      rw [found] at same
      simp only [deleted, Bool.false_eq_true, if_false, same]
      exact live
  | none =>
    rw [lookup_of_absent (s := s) live] at found
    cases stored : s.trie a with
    | none => simp [stored] at found
    | some data =>
      simp only [stored, Option.map_some, Option.some.injEq] at found
      simp [← found, newObject]

theorem load_eq (s : StateDB) (a : Address) :
    s.load a = s ∨ ∃ data, s.live a = none ∧ s.trie a = some data ∧
      s.load a = s.setStateObject (newObject a data) := by
  unfold load getStateObject live
  cases s.stateObjects.lookup a with
  | some obj => cases deleted : obj.deleted <;> simp [deleted]
  | none => cases s.trie a <;> simp

def balances (s : StateDB) (a : Address) : Int := (s.lookup a).elim 0 (·.data.balance)

end StateDB

-- All that the getters show, and which accounts wait to be written to the trie.
structure World where
  accounts : Address → Option AccountView
  pending : Address → Bool
  refund : Nat
  logs : Hash → List Log
  logSize : Nat
  preimages : Hash → Option Bytes

namespace World

def setAccount (world : World) (a : Address) (view : AccountView) : World :=
  { world with accounts := Function.update world.accounts a (some view) }

@[simp] theorem accounts_setAccount (world : World) (a : Address) (view : AccountView) :
    (world.setAccount a view).accounts a = some view := Function.update_self ..

@[simp] theorem setAccount_setAccount (world : World) (a : Address) (first second : AccountView) :
    (world.setAccount a first).setAccount a second = world.setAccount a second := by
  simp only [setAccount, Function.update_idem]

theorem setAccount_self {world : World} {view : AccountView} {a : Address} (found : world.accounts a = some view) :
    world.setAccount a view = world := by
  simp only [setAccount, ← found, Function.update_eq_self]

end World

section Undo

variable [Crypto]

def StateDB.world (s : StateDB) : World where
  accounts := fun a => (s.lookup a).map (·.view s.codes)
  pending := fun a => s.stateObjectsDirty a && (s.lookup a).isSome
  refund := s.refund
  logs := s.logs
  logSize := s.logSize
  preimages := s.preimages

namespace JournalEntry

def undoView (codes : Hash → Option Bytes) : JournalEntry → AccountView → AccountView
  | .suicideChange _ prev prevbalance, view => { view with suicided := prev, balance := prevbalance }
  | .balanceChange _ prev, view => { view with balance := prev }
  | .nonceChange _ prev, view => { view with nonce := prev }
  | .storageChange _ key prevalue, view => { view with storage := Function.update view.storage key prevalue }
  | .codeChange _ prevcode prevhash, view =>
    { view with code := resolveCode codes prevcode prevhash, codeHash := prevhash }
  | _, view => view

def undoWorld (trie : Address → Option Account) (codes : Hash → Option Bytes) (entry : JournalEntry)
    (world : World) : World :=
  match entry with
  | .createObjectChange a =>
    -- the account is read from the trie again, if the trie has one
    { world with
      accounts := Function.update world.accounts a ((trie a).map fun data => (newObject a data).view codes)
      pending := Function.update world.pending a false }
  | .resetObjectChange prev => world.setAccount prev.address (prev.view codes)
  | .refundChange prev => { world with refund := prev }
  | .addLogChange txhash =>
    { world with
      logs := Function.update world.logs txhash (world.logs txhash).dropLast
      logSize := (world.logSize + (2 ^ 64 - 1)) % 2 ^ 64 }
  | .addPreimageChange hash => { world with preimages := Function.update world.preimages hash none }
  | .touchChange _ => world
  | entry =>
    match entry.dirtied with
    | some a =>
      { world with accounts := Function.update world.accounts a ((world.accounts a).map (entry.undoView codes)) }
    | none => world

end JournalEntry

end Undo

def JournalEntry.undoBalance (trie : Address → Option Account) (entry : JournalEntry)
    (balances : Address → Int) : Address → Int :=
  match entry with
  | .createObjectChange a => Function.update balances a ((trie a).elim 0 (·.balance))
  | .resetObjectChange prev => Function.update balances prev.address prev.data.balance
  | .suicideChange a _ prevbalance => Function.update balances a prevbalance
  | .balanceChange a prev => Function.update balances a prev
  | _ => balances

end CuteEVM
