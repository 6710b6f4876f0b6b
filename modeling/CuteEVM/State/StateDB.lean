import CuteEVM.State.StateObject
import CuteEVM.Shared.UndoLog
import Mathlib.Data.List.AList

set_option autoImplicit false

namespace CuteEVM

structure Log where
  address : Address
  topics : List Hash
  data : Bytes
  blockNumber : Nat
  txHash : Hash := 0
  txIndex : Nat := 0
  blockHash : Hash := 0
  index : Nat := 0
  deriving DecidableEq, Repr

inductive JournalEntry where
  | createObjectChange (account : Address)
  | resetObjectChange (prev : StateObject)
  | suicideChange (account : Address) (prev : Bool) (prevbalance : Int)
  | balanceChange (account : Address) (prev : Int)
  | nonceChange (account : Address) (prev : Nat)
  | storageChange (account : Address) (key prevalue : Hash)
  | codeChange (account : Address) (prevcode : Bytes) (prevhash : Hash)
  | refundChange (prev : Nat)
  | addLogChange (txhash : Hash)
  | addPreimageChange (hash : Hash)
  | touchChange (account : Address)

def JournalEntry.dirtied : JournalEntry → Option Address
  | .createObjectChange account => some account
  | .resetObjectChange _ => none
  | .suicideChange account _ _ => some account
  | .balanceChange account _ => some account
  | .nonceChange account _ => some account
  | .storageChange account _ _ => some account
  | .codeChange account _ _ => some account
  | .refundChange _ => none
  | .addLogChange _ => none
  | .addPreimageChange _ => none
  | .touchChange account => some account

abbrev Dirties := AList fun _ : Address => Int

structure Journal where
  entries : List JournalEntry := []
  dirties : Dirties := ∅

namespace Journal

def dirty (j : Journal) (addr : Address) : Journal :=
  { j with dirties := j.dirties.insert addr ((j.dirties.lookup addr).getD 0 + 1) }

def append (j : Journal) (entry : JournalEntry) : Journal :=
  let j := { j with entries := entry :: j.entries }
  match entry.dirtied with
  | some addr => j.dirty addr
  | none => j

-- What `revert` does to the dirty count of an undone entry.
def undirty (j : Journal) (entry : JournalEntry) : Journal :=
  match entry.dirtied with
  | some addr =>
    let count := (j.dirties.lookup addr).getD 0 - 1
    if count = 0 then { j with dirties := j.dirties.erase addr }
    else { j with dirties := j.dirties.insert addr count }
  | none => j

end Journal

structure Revision where
  id : Nat
  journalIndex : Nat
  deriving DecidableEq, Repr

structure AddressSet where
  addrs : List Address := []

namespace AddressSet

def mem (set : AddressSet) (addr : Address) : Bool := set.addrs.contains addr

instance : CoeFun AddressSet fun _ => Address → Bool := ⟨mem⟩

def insert (set : AddressSet) (addr : Address) : AddressSet := ⟨set.addrs.insert addr⟩

def erase (set : AddressSet) (addr : Address) : AddressSet := ⟨set.addrs.filter (· ≠ addr)⟩

@[simp] theorem mem_empty (addr : Address) : AddressSet.mem {} addr = false := rfl

@[simp] theorem mem_insert (set : AddressSet) (addr other : Address) :
    set.insert addr other = (decide (other = addr) || set other) := by
  simp only [mem, insert, List.contains_eq_mem, List.mem_insert_iff, Bool.decide_or]

@[simp] theorem mem_erase (set : AddressSet) (addr other : Address) :
    set.erase addr other = (!decide (other = addr) && set other) := by
  simp [mem, erase, Bool.and_comm]

theorem insert_ite (set : AddressSet) (addr other : Address) :
    set.insert addr other = if other = addr then true else set other := by
  by_cases same : other = addr <;> simp [same]

theorem erase_ite (set : AddressSet) (addr other : Address) :
    set.erase addr other = if other = addr then false else set other := by
  by_cases same : other = addr <;> simp [same]

theorem mem_foldl_insert (set : AddressSet) (addrs : List Address) (other : Address) :
    addrs.foldl insert set other = (addrs.contains other || set other) := by
  induction addrs generalizing set with
  | nil => simp
  | cons first rest ih => rw [List.foldl_cons, ih, mem_insert, List.contains_cons, ← Bool.or_assoc,
      Bool.or_comm (rest.contains other), beq_eq_decide]

end AddressSet

-- The account trie and the code store of the database are maps.
structure StateDB where
  trie : Address → Option Account
  codes : Hash → Option Bytes
  stateObjects : AList fun _ : Address => StateObject := ∅
  stateObjectsDirty : AddressSet := {}
  refund : Nat := 0
  thash : Hash := 0
  bhash : Hash := 0
  txIndex : Nat := 0
  logs : Hash → List Log := fun _ => []
  logSize : Nat := 0
  preimages : Hash → Option Bytes := fun _ => none
  journal : Journal := {}
  validRevisions : List Revision := []
  nextRevisionId : Nat := 0

namespace StateDB

-- `New`, over the contents of the trie at the given root.
def new (trie : Address → Option Account) (codes : Hash → Option Bytes) : StateDB where
  trie := trie
  codes := codes

def append (s : StateDB) (entry : JournalEntry) : StateDB :=
  { s with journal := s.journal.append entry }

def setStateObject (s : StateDB) (object : StateObject) : StateDB :=
  { s with stateObjects := s.stateObjects.insert object.address object }

def getStateObject (s : StateDB) (addr : Address) : Option StateObject × StateDB :=
  match s.stateObjects.lookup addr with
  | some obj => if obj.deleted then (none, s) else (some obj, s)
  | none =>
    match s.trie addr with
    | none => (none, s)
    | some data =>
      let obj := newObject addr data
      (some obj, s.setStateObject obj)

section Getters

variable [Crypto]

def exist (s : StateDB) (addr : Address) : Bool × StateDB :=
  let (obj, s) := s.getStateObject addr
  (obj.isSome, s)

def empty (s : StateDB) (addr : Address) : Bool × StateDB :=
  match s.getStateObject addr with
  | (some obj, s) => (obj.empty, s)
  | (none, s) => (true, s)

def getBalance (s : StateDB) (addr : Address) : Int × StateDB :=
  match s.getStateObject addr with
  | (some obj, s) => (obj.data.balance, s)
  | (none, s) => (0, s)

def getNonce (s : StateDB) (addr : Address) : Nat × StateDB :=
  match s.getStateObject addr with
  | (some obj, s) => (obj.data.nonce, s)
  | (none, s) => (0, s)

def getCode (s : StateDB) (addr : Address) : Bytes × StateDB :=
  match s.getStateObject addr with
  | (some obj, s) =>
    let (code, obj) := obj.loadCode s.codes
    (code, s.setStateObject obj)
  | (none, s) => ([], s)

def getCodeSize (s : StateDB) (addr : Address) : Nat × StateDB :=
  match s.getStateObject addr with
  | (some obj, s) =>
    if obj.code ≠ [] then (obj.code.length, s)
    else (((s.codes obj.data.codeHash).getD []).length, s)
  | (none, s) => (0, s)

def getCodeHash (s : StateDB) (addr : Address) : Hash × StateDB :=
  match s.getStateObject addr with
  | (some obj, s) => (obj.data.codeHash, s)
  | (none, s) => (0, s)

def getState (s : StateDB) (addr : Address) (key : Hash) : Hash × StateDB :=
  match s.getStateObject addr with
  | (some obj, s) =>
    let (value, obj) := obj.getState key
    (value, s.setStateObject obj)
  | (none, s) => (0, s)

def getCommittedState (s : StateDB) (addr : Address) (key : Hash) : Hash × StateDB :=
  match s.getStateObject addr with
  | (some obj, s) =>
    let (value, obj) := obj.getCommittedState key
    (value, s.setStateObject obj)
  | (none, s) => (0, s)

def hasSuicided (s : StateDB) (addr : Address) : Bool × StateDB :=
  match s.getStateObject addr with
  | (some obj, s) => (obj.suicided, s)
  | (none, s) => (false, s)

def getRefund (s : StateDB) : Nat := s.refund

def getLogs (s : StateDB) (hash : Hash) : List Log := s.logs hash

end Getters

section Setters

variable [Crypto]

def createObject (s : StateDB) (addr : Address) : StateObject × Option StateObject × StateDB :=
  let (prev, s) := s.getStateObject addr
  let newobj := (newObject addr Account.zero).setNonce 0
  let s := match prev with
    | none => s.append (.createObjectChange addr)
    | some obj => s.append (.resetObjectChange obj)
  (newobj, prev, s.setStateObject newobj)

def getOrNewStateObject (s : StateDB) (addr : Address) : StateObject × StateDB :=
  match s.getStateObject addr with
  | (some obj, s) => (obj, s)
  | (none, s) =>
    let (obj, _, s) := s.createObject addr
    (obj, s)

def createAccount (s : StateDB) (addr : Address) : StateDB :=
  match s.createObject addr with
  | (newObj, some prev, s) => s.setStateObject (newObj.setBalance prev.data.balance)
  | (_, none, s) => s

def touch (s : StateDB) (obj : StateObject) : StateDB :=
  let s := s.append (.touchChange obj.address)
  if obj.address = ripemd then { s with journal := s.journal.dirty obj.address } else s

def setObjectBalance (s : StateDB) (obj : StateObject) (amount : Int) : StateDB :=
  (s.append (.balanceChange obj.address obj.data.balance)).setStateObject (obj.setBalance amount)

def addBalance (s : StateDB) (addr : Address) (amount : Int) : StateDB :=
  let (obj, s) := s.getOrNewStateObject addr
  if amount = 0 then
    if obj.empty then s.touch obj else s
  else s.setObjectBalance obj (obj.data.balance + amount)

def subBalance (s : StateDB) (addr : Address) (amount : Int) : StateDB :=
  let (obj, s) := s.getOrNewStateObject addr
  if amount = 0 then s
  else s.setObjectBalance obj (obj.data.balance - amount)

def setBalance (s : StateDB) (addr : Address) (amount : Int) : StateDB :=
  let (obj, s) := s.getOrNewStateObject addr
  s.setObjectBalance obj amount

def setNonce (s : StateDB) (addr : Address) (nonce : Nat) : StateDB :=
  let (obj, s) := s.getOrNewStateObject addr
  (s.append (.nonceChange addr obj.data.nonce)).setStateObject (obj.setNonce nonce)

def setCode (s : StateDB) (addr : Address) (code : Bytes) : StateDB :=
  let (obj, s) := s.getOrNewStateObject addr
  let (prevcode, obj) := obj.loadCode s.codes
  (s.append (.codeChange addr prevcode obj.data.codeHash)).setStateObject (obj.setCode (keccak256 code) code)

def setState (s : StateDB) (addr : Address) (key value : Hash) : StateDB :=
  let (obj, s) := s.getOrNewStateObject addr
  let (prev, obj) := obj.getState key
  let s := s.setStateObject obj
  if prev = value then s
  else (s.append (.storageChange addr key prev)).setStateObject (obj.setState key value)

def suicide (s : StateDB) (addr : Address) : Bool × StateDB :=
  match s.getStateObject addr with
  | (none, s) => (false, s)
  | (some obj, s) =>
    let s := s.append (.suicideChange addr obj.suicided obj.data.balance)
    (true, s.setStateObject (obj.markSuicided.setBalance 0))

end Setters

def addRefund (s : StateDB) (gas : Nat) : StateDB :=
  { s.append (.refundChange s.refund) with refund := (s.refund + gas) % 2 ^ 64 }

def subRefund (s : StateDB) (gas : Nat) : Except Panic StateDB :=
  if s.refund < gas then .error .refundBelowZero
  else .ok { s.append (.refundChange s.refund) with refund := s.refund - gas }

def addLog (s : StateDB) (log : Log) : StateDB :=
  let log := { log with txHash := s.thash, blockHash := s.bhash, txIndex := s.txIndex, index := s.logSize }
  { s.append (.addLogChange s.thash) with
    logs := Function.update s.logs s.thash (s.logs s.thash ++ [log])
    logSize := (s.logSize + 1) % 2 ^ 64 }

def addPreimage (s : StateDB) (hash : Hash) (preimage : Bytes) : StateDB :=
  match s.preimages hash with
  | some _ => s
  | none =>
    { s.append (.addPreimageChange hash) with
      preimages := Function.update s.preimages hash (some preimage) }

def prepare (s : StateDB) (thash bhash : Hash) (ti : Nat) : StateDB :=
  { s with thash := thash, bhash := bhash, txIndex := ti }

end StateDB

section Revert

def StateDB.modifyObject (s : StateDB) (addr : Address) (change : StateObject → StateObject) :
    Except Panic StateDB :=
  match s.getStateObject addr with
  | (some obj, s) => .ok (s.setStateObject (change obj))
  | (none, _) => .error (.nilStateObject addr)

def JournalEntry.revert (s : StateDB) : JournalEntry → Except Panic StateDB
  | .createObjectChange account =>
    .ok { s with
      stateObjects := s.stateObjects.erase account
      stateObjectsDirty := s.stateObjectsDirty.erase account }
  | .resetObjectChange prev => .ok (s.setStateObject prev)
  | .suicideChange account prev prevbalance =>
    match s.getStateObject account with
    | (some obj, s) => .ok (s.setStateObject ({ obj with suicided := prev }.setBalance prevbalance))
    | (none, s) => .ok s
  | .balanceChange account prev => s.modifyObject account (·.setBalance prev)
  | .nonceChange account prev => s.modifyObject account (·.setNonce prev)
  | .storageChange account key prevalue => s.modifyObject account (·.setState key prevalue)
  | .codeChange account prevcode prevhash => s.modifyObject account (·.setCode prevhash prevcode)
  | .refundChange prev => .ok { s with refund := prev }
  | .addLogChange txhash =>
    -- `logs[:len(logs)-1]` is out of range when there is no log
    if s.logs txhash = [] then .error .sliceBounds
    else .ok { s with
      logs := Function.update s.logs txhash (s.logs txhash).dropLast
      logSize := (s.logSize + (2 ^ 64 - 1)) % 2 ^ 64 }
  | .addPreimageChange hash => .ok { s with preimages := Function.update s.preimages hash none }
  | .touchChange _ => .ok s

def JournalEntry.undo (entry : JournalEntry) (s : StateDB) : Except Panic StateDB :=
  match entry.revert s with
  | .ok s => .ok { s with journal := s.journal.undirty entry }
  | .error fault => .error fault

def StateDB.revertJournal (s : StateDB) (snapshot : Nat) : Except Panic StateDB :=
  match UndoLog.rewind JournalEntry.undo snapshot s.journal.entries s with
  | .ok (entries, s) => .ok { s with journal.entries := entries }
  | .error fault => .error fault

end Revert

namespace StateDB

def snapshot (s : StateDB) : Nat × StateDB :=
  (s.nextRevisionId, { s with
    nextRevisionId := s.nextRevisionId + 1
    validRevisions := s.validRevisions ++ [⟨s.nextRevisionId, s.journal.entries.length⟩] })

-- The revisions are in the order of their ids, so `sort.Search` finds the first one that fits.
def revertToSnapshot (s : StateDB) (revid : Nat) : Except Panic StateDB :=
  let idx := s.validRevisions.findIdx fun revision => decide (revid ≤ revision.id)
  match s.validRevisions[idx]? with
  | none => .error (.revisionId revid)
  | some revision =>
    if revision.id ≠ revid then .error (.revisionId revid)
    else
      match s.revertJournal revision.journalIndex with
      | .ok s => .ok { s with validRevisions := s.validRevisions.take idx }
      | .error fault => .error fault

section Commit

variable [Crypto]

-- A negative balance cannot be encoded: where `EncodeToBytes` fails and the method panics, it is written here all the same.
def updateStateObject (s : StateDB) (obj : StateObject) : StateDB :=
  { s with trie := Function.update s.trie obj.address (some obj.data) }

def deleteStateObject (s : StateDB) (obj : StateObject) : StateDB :=
  let s := s.setStateObject { obj with deleted := true }
  { s with trie := Function.update s.trie obj.address none }

def clearJournalAndRefund (s : StateDB) : StateDB :=
  { s with journal := {}, validRevisions := [], refund := 0 }

def finaliseObject (deleteEmptyObjects : Bool) (s : StateDB) (addr : Address) : StateDB :=
  match s.stateObjects.lookup addr with
  | none => s
  | some obj =>
    let s :=
      if obj.suicided || (deleteEmptyObjects && obj.empty) then s.deleteStateObject obj
      else (s.setStateObject obj.updateRoot).updateStateObject obj.updateRoot
    { s with stateObjectsDirty := s.stateObjectsDirty.insert addr }

def finalise (s : StateDB) (deleteEmptyObjects : Bool) : StateDB :=
  (s.journal.dirties.keys.foldl (finaliseObject deleteEmptyObjects) s).clearJournalAndRefund

def commitCode (s : StateDB) (obj : StateObject) : StateObject × StateDB :=
  if obj.code ≠ [] ∧ obj.dirtyCode then
    ({ obj with dirtyCode := false },
      { s with codes := Function.update s.codes obj.data.codeHash (some obj.code) })
  else (obj, s)

def commitObject (deleteEmptyObjects : Bool) (s : StateDB) (addr : Address) : StateDB :=
  match s.stateObjects.lookup addr with
  | none => s
  | some obj =>
    let isDirty := s.stateObjectsDirty addr
    let s :=
      if obj.suicided || (isDirty && deleteEmptyObjects && obj.empty) then s.deleteStateObject obj
      else if isDirty then
        let (obj, s) := s.commitCode obj
        (s.setStateObject obj.commitTrie).updateStateObject obj.commitTrie
      else s
    { s with stateObjectsDirty := s.stateObjectsDirty.erase addr }

def markDirties (s : StateDB) : StateDB :=
  { s with stateObjectsDirty := s.journal.dirties.keys.foldl AddressSet.insert s.stateObjectsDirty }

-- `Commit`: the contents of the tries and the code store after it are those of the result.
def commit (s : StateDB) (deleteEmptyObjects : Bool) : StateDB :=
  (s.stateObjects.keys.foldl (commitObject deleteEmptyObjects) s.markDirties).clearJournalAndRefund

-- `Reset`, over the contents of the trie at the given root.
def reset (s : StateDB) (trie : Address → Option Account) : StateDB :=
  { StateDB.new trie s.codes with nextRevisionId := s.nextRevisionId }

end Commit

section Copy

def copyObject (state : StateDB) (addr : Address) (object : StateObject) : StateDB :=
  { state with
    stateObjects := state.stateObjects.insert addr object.deepCopy
    stateObjectsDirty := state.stateObjectsDirty.insert addr }

def copyMarked (s state : StateDB) (addr : Address) : StateDB :=
  match s.stateObjects.lookup addr with
  | some object => state.copyObject addr object
  | none => state

def copyDirty (s : StateDB) : List Address → StateDB → Except Panic StateDB
  | [], state => .ok state
  | addr :: rest, state =>
    match state.stateObjects.lookup addr with
    | some _ => s.copyDirty rest state
    | none =>
      match s.stateObjects.lookup addr with
      | some object => s.copyDirty rest (state.copyObject addr object)
      | none => .error (.nilStateObject addr)

-- `Copy`; the copy has no revisions, and the transaction it prepared is not taken over.
def copy (s : StateDB) : Except Panic StateDB :=
  let state := { StateDB.new s.trie s.codes with
    refund := s.refund, logs := s.logs, logSize := s.logSize, preimages := s.preimages }
  s.copyDirty s.stateObjectsDirty.addrs (s.journal.dirties.keys.foldl s.copyMarked state)

end Copy

end StateDB

end CuteEVM
