import CuteEVM.State.Types

set_option autoImplicit false

namespace CuteEVM

abbrev StorageTrie := Hash → Hash

abbrev Storage := Hash → Option Hash

-- `Account`; the merkle root of the storage trie stands for the contents it commits to.
structure Account where
  nonce : Nat
  balance : Int
  root : StorageTrie
  codeHash : Hash

def Account.zero [Crypto] : Account where
  nonce := 0
  balance := 0
  root := fun _ => 0
  codeHash := emptyCodeHash

-- `stateObject`; a nil slice and an empty one are both `[]`.
structure StateObject where
  address : Address
  data : Account
  trie : Option StorageTrie
  code : Bytes
  originStorage : Storage
  dirtyStorage : Storage
  dirtyCode : Bool
  suicided : Bool
  deleted : Bool

def newObject (address : Address) (data : Account) : StateObject where
  address := address
  data := data
  trie := none
  code := []
  originStorage := fun _ => none
  dirtyStorage := fun _ => none
  dirtyCode := false
  suicided := false
  deleted := false

namespace StateObject

def empty [Crypto] (s : StateObject) : Bool :=
  s.data.nonce == 0 && s.data.balance == 0 && s.data.codeHash == emptyCodeHash

def markSuicided (s : StateObject) : StateObject :=
  { s with suicided := true }

def getTrie (s : StateObject) : StorageTrie :=
  s.trie.getD s.data.root

def getCommittedState (s : StateObject) (key : Hash) : Hash × StateObject :=
  match s.originStorage key with
  | some value => (value, s)
  | none =>
    let value := s.getTrie key
    (value, { s with
      trie := some s.getTrie
      originStorage := Function.update s.originStorage key (some value) })

def getState (s : StateObject) (key : Hash) : Hash × StateObject :=
  match s.dirtyStorage key with
  | some value => (value, s)
  | none => s.getCommittedState key

def setState (s : StateObject) (key value : Hash) : StateObject :=
  { s with dirtyStorage := Function.update s.dirtyStorage key (some value) }

-- The value that `updateTrie` writes for a slot, if it is dirty and not back at its origin.
def changed (s : StateObject) (key : Hash) : Option Hash :=
  match s.dirtyStorage key with
  | none => none
  | some value => if value = (s.originStorage key).getD 0 then none else some value

-- The loop of `updateTrie` treats every dirty slot on its own, so it is written slot by slot.
def updateTrie (s : StateObject) : StateObject :=
  { s with
    trie := some fun key => (s.changed key).getD (s.getTrie key)
    originStorage := fun key => (s.changed key).or (s.originStorage key)
    dirtyStorage := fun _ => none }

def updateRoot (s : StateObject) : StateObject :=
  let s := s.updateTrie
  { s with data.root := s.getTrie }

-- With a trie that behaves as a map, committing it never fails. The error of a code that was not found is left out.
def commitTrie (s : StateObject) : StateObject :=
  let s := s.updateTrie
  { s with data.root := s.getTrie }

def setBalance (s : StateObject) (amount : Int) : StateObject :=
  { s with data.balance := amount }

def setNonce (s : StateObject) (nonce : Nat) : StateObject :=
  { s with data.nonce := nonce }

def setCode (s : StateObject) (codeHash : Hash) (code : Bytes) : StateObject :=
  { s with code := code, data.codeHash := codeHash, dirtyCode := true }

def loadCode [Crypto] (codes : Hash → Option Bytes) (s : StateObject) : Bytes × StateObject :=
  if s.code ≠ [] then (s.code, s)
  else if s.data.codeHash = emptyCodeHash then ([], s)
  else
    let code := (codes s.data.codeHash).getD []
    (code, { s with code := code })

def deepCopy (s : StateObject) : StateObject :=
  { newObject s.address s.data with
    trie := s.trie
    code := s.code
    dirtyStorage := s.dirtyStorage
    originStorage := s.originStorage
    suicided := s.suicided
    dirtyCode := s.dirtyCode
    deleted := s.deleted }

@[simp] theorem deepCopy_eq (s : StateObject) : s.deepCopy = s := rfl

end StateObject

end CuteEVM
