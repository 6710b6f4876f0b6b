import Mathlib.Data.List.AList
import CuteEVM.Trie.Node

set_option autoImplicit false

namespace CuteEVM.Trie

/-! The node cache in front of the disk (`trie/database.go`), made by `NewDatabase`. -/

-- A `rawNode`, or a collapsed trie node.
inductive Stored where
  | blob (b : Bytes)
  | node (n : RawNode)

abbrev Children := AList fun _ : Hash => UInt16

structure CachedNode where
  node : Stored
  size : UInt16 := 0
  parents : UInt32 := 0
  -- The external children, or none for a nil map.
  children : Option Children := none
  flushPrev : Hash := 0
  flushNext : Hash := 0

def cachedNodeSize : Nat := 96

def cachedNodeChildrenSize : Nat := 48

def childSize : Nat := 32 + 2

def dropChild (child : Hash) (children : Children) : Children :=
  let count := (children.lookup child).getD 0
  if count > 0 then if count - 1 = 0 then children.erase child else children.insert child (count - 1) else children

-- What the external children of an entry are counted with when it is flushed.
def CachedNode.childrenSize (n : CachedNode) : Nat :=
  n.children.elim 0 fun children => cachedNodeChildrenSize + children.keys.length * childSize

inductive DbFault where
  | nilEntry
  | encode
  -- More rounds or nested calls than there are entries.
  | depth
  deriving DecidableEq

def CachedNode.rlp (n : CachedNode) : Except DbFault Bytes :=
  match n.node with
  | .blob b => .ok b
  | .node .nil => .error .encode
  | .node node =>
    match encodeToBytes node.item with
    | some blob => .ok blob
    | none => .error .encode

def CachedNode.obj (n : CachedNode) (hash : Hash) : Option Node :=
  match n.node with
  | .blob b => mustDecodeNode hash b
  | .node node => expandNode (some hash) node

-- The order in which `range` goes through the keys of a map. It need not be the same one the next time.
class RangeOrder where
  keys : Nat → List Hash → List Hash
  perm : ∀ time hashes, (keys time hashes).Perm hashes

def CachedNode.implicit (n : CachedNode) : List Hash :=
  match n.node with
  | .blob _ => []
  | .node node => gatherChildren node

def CachedNode.external (n : CachedNode) : List Hash := n.children.elim [] AList.keys

def CachedNode.childs [RangeOrder] (time : Nat) (n : CachedNode) : List Hash := RangeOrder.keys time n.external ++ n.implicit

/-! ## Batches (`ethdb`) -/

abbrev Disk := Bytes → Option Bytes

structure Batch where
  writes : List (Bytes × Bytes) := []
  size : Nat := 0

def idealBatchSize : Nat := 100 * 1024

def Batch.put (b : Batch) (key value : Bytes) : Batch := { writes := b.writes ++ [(key, value)], size := b.size + value.length }

def Batch.write (b : Batch) (disk : Disk) : Disk :=
  b.writes.foldl (fun disk (key, value) => Function.update disk key (some value)) disk

/-! ## The cache -/

structure Database where
  diskdb : Disk
  dirties : AList fun _ : Hash => CachedNode
  oldest : Hash := 0
  newest : Hash := 0
  preimages : AList fun _ : Hash => Bytes
  dirtiesSize : Int := 0
  childrenSize : Int := 0
  preimagesSize : Int := 0
  -- How often a map of children has been gone through.
  ranged : Nat := 0

-- The entry of the zero hash is the meta root, which holds the references to roots.
def newDatabase (diskdb : Disk) : Database where
  diskdb := diskdb
  dirties := AList.singleton 0 { node := .node .nil, children := some ∅ }
  preimages := ∅

namespace Database

def entry (db : Database) (hash : Hash) : Except DbFault CachedNode :=
  match db.dirties.lookup hash with
  | some node => .ok node
  | none => .error .nilEntry

-- From the cache or the disk, and none if it panics.
def node (db : Database) (hash : Hash) : Option (Option Node) :=
  match db.dirties.lookup hash with
  | some dirty => (dirty.obj hash).map some
  | none =>
    match db.diskdb (hashBytes hash) with
    | none => some none
    | some enc => (mustDecodeNode hash enc).map some

def setEntry (db : Database) (hash : Hash) (node : CachedNode) : Database := { db with dirties := db.dirties.insert hash node }

def modify (db : Database) (hash : Hash) (change : CachedNode → CachedNode) : Except DbFault Database := do
  let node ← db.entry hash
  pure (db.setEntry hash (change node))

-- A child that is not cached has no entry to count its parents in.
def addParent (db : Database) (child : Hash) : Database :=
  match db.dirties.lookup child with
  | some node => db.setEntry child { node with parents := node.parents + 1 }
  | none => db

def enlist (db : Database) (hash : Hash) : Except DbFault Database :=
  if db.oldest = 0 then pure { db with oldest := hash, newest := hash }
  else do
    let db ← db.modify db.newest fun n => { n with flushNext := hash }
    pure { db with newest := hash }

def insert (db : Database) (hash : Hash) (blob : Bytes) (node : Stored) : Except DbFault Database :=
  if (db.dirties.lookup hash).isSome then pure db
  else do
    let entry : CachedNode := { node := node, size := UInt16.ofNat blob.length, flushPrev := db.newest }
    let db ← ((entry.implicit.foldl addParent db).setEntry hash entry).enlist hash
    -- `HashLength` is an untyped constant: the sum has the type of the size
    pure { db with dirtiesSize := db.dirtiesSize + ((32 + entry.size : UInt16).toNat : Int) }

def insertBlob (db : Database) (hash : Hash) (blob : Bytes) : Except DbFault Database := db.insert hash blob (.blob blob)

-- The call of `insert` in `hasher.store`, with the encoding of the node that it is for.
def insertNode (db : Database) (hash : Hash) (n : Node) : Except DbFault Database :=
  match encodeToBytes n.item, simplifyNode n with
  | some blob, some node => db.insert hash blob (.node node)
  | _, _ => .error .encode

def insertPreimage (db : Database) (hash : Hash) (preimage : Bytes) : Database :=
  if (db.preimages.lookup hash).isSome then db
  else { db with preimages := db.preimages.insert hash preimage, preimagesSize := db.preimagesSize + (32 + preimage.length : Nat) }

-- The end of `reference`, with a map that is there.
def link (db : Database) (child parent : Hash) : Except DbFault Database := do
  let db ← db.modify child fun n => { n with parents := n.parents + 1 }
  let node ← db.entry parent
  let children := node.children.getD ∅
  let count := (children.lookup child).getD 0 + 1
  let db := db.setEntry parent { node with children := some (children.insert child count) }
  pure (if count = 1 then { db with childrenSize := db.childrenSize + childSize } else db)

def reference (db : Database) (child parent : Hash) : Except DbFault Database :=
  match db.dirties.lookup child with
  | none => pure db
  | some _ => do
    let node ← db.entry parent
    match node.children with
    | none =>
      let db := db.setEntry parent { node with children := some ∅ }
      { db with childrenSize := db.childrenSize + cachedNodeChildrenSize }.link child parent
    | some children =>
      if (children.lookup child).isSome ∧ parent ≠ 0 then pure db else db.link child parent

def unlink (db : Database) (child parent : Hash) : Except DbFault Database := do
  let node ← db.entry parent
  let count := ((node.children.getD ∅).lookup child).getD 0
  let db := db.setEntry parent { node with children := node.children.map (dropChild child) }
  pure (if count > 0 ∧ count - 1 = 0 then { db with childrenSize := db.childrenSize - childSize } else db)

def unlist (db : Database) (hash : Hash) (node : CachedNode) : Except DbFault Database :=
  if hash = db.oldest then
    { db with oldest := node.flushNext }.modify node.flushNext fun n => { n with flushPrev := 0 }
  else if hash = db.newest then
    { db with newest := node.flushPrev }.modify node.flushPrev fun n => { n with flushNext := 0 }
  else do
    let db ← db.modify node.flushPrev fun n => { n with flushNext := node.flushNext }
    db.modify node.flushNext fun n => { n with flushPrev := node.flushPrev }

def childs [RangeOrder] (db : Database) (node : CachedNode) : List Hash × Database :=
  (node.childs db.ranged, { db with ranged := db.ranged + 1 })

-- The private `dereference`, with calls nested at most so deep.
def dereferenceFrom [RangeOrder] : Nat → Hash → Hash → Database → Except DbFault Database
  | 0, _, _, _ => .error .depth
  | depth + 1, child, parent, db => do
    let db ← db.unlink child parent
    match db.dirties.lookup child with
    | none => pure db
    | some node =>
      let node := if node.parents > 0 then { node with parents := node.parents - 1 } else node
      let db := db.setEntry child node
      if node.parents = 0 then do
        let db ← db.unlist child node
        let (hashes, db) := db.childs node
        let db ← hashes.foldlM (fun db hash => dereferenceFrom depth hash child db) db
        -- the program holds a pointer, through which it sees what the calls did to the entry
        let node := (db.dirties.lookup child).getD node
        let db := { db with dirties := db.dirties.erase child, dirtiesSize := db.dirtiesSize - (32 + node.size.toNat : Nat) }
        pure (if node.children.isSome then { db with childrenSize := db.childrenSize - cachedNodeChildrenSize } else db)
      else pure db

def dereference [RangeOrder] (db : Database) (root : Hash) : Except DbFault Database :=
  if root = 0 then pure db else dereferenceFrom (db.dirties.keys.length + 1) root 0 db

/-! ## Flushing -/

def secureKeyPrefix : Bytes := [0x73, 0x65, 0x63, 0x75, 0x72, 0x65, 0x2d, 0x6b, 0x65, 0x79, 0x2d]

def secureKey (hash : Hash) : Bytes := secureKeyPrefix ++ hashBytes hash

def putPreimages (db : Database) : Batch × Disk :=
  db.preimages.entries.foldl
    (fun (batch, disk) preimage =>
      let batch := batch.put (secureKey preimage.1) preimage.2
      if batch.size > idealBatchSize then ({}, batch.write disk) else (batch, disk))
    ({}, db.diskdb)

def consumption (db : Database) : Except DbFault Int := do
  let root ← db.entry 0
  pure (db.dirtiesSize + ((db.dirties.keys.length - 1) * cachedNodeSize : Nat) +
      db.childrenSize - (root.external.length * childSize : Nat))

def size (db : Database) : Except DbFault (Int × Int) := do
  let consumption ← db.consumption
  pure (consumption, db.preimagesSize)

def capWrite (db : Database) (limit : Int) : Nat → Int → Hash → Batch × Disk → Except DbFault (Hash × Batch × Disk)
  | 0, _, _, _ => .error .depth
  | rounds + 1, size, oldest, (batch, disk) =>
    if size > limit ∧ oldest ≠ 0 then do
      let node ← db.entry oldest
      let blob ← node.rlp
      let batch := batch.put (hashBytes oldest) blob
      let written := if batch.size ≥ idealBatchSize then ({}, batch.write disk) else (batch, disk)
      capWrite db limit rounds (size - (32 + node.size.toNat + cachedNodeSize : Nat) - node.childrenSize) node.flushNext written
    else pure (oldest, batch, disk)

def capClear (upto : Hash) : Nat → Database → Except DbFault Database
  | 0, _ => .error .depth
  | rounds + 1, db =>
    if db.oldest ≠ upto then do
      let node ← db.entry db.oldest
      capClear upto rounds
        { db with
          dirties := db.dirties.erase db.oldest
          oldest := node.flushNext
          dirtiesSize := db.dirtiesSize - (32 + node.size.toNat : Nat)
          childrenSize := db.childrenSize - node.childrenSize }
    else pure db

def cap (db : Database) (limit : Int) : Except DbFault Database := do
  let size ← db.consumption
  let flushPreimages : Bool := db.preimagesSize > 4 * 1024 * 1024
  let rounds := db.dirties.keys.length + 1
  let (oldest, batch, disk) ← db.capWrite limit rounds size db.oldest (if flushPreimages then db.putPreimages else ({}, db.diskdb))
  let db := { db with diskdb := batch.write disk }
  let db := if flushPreimages then { db with preimages := ∅, preimagesSize := 0 } else db
  let db ← capClear oldest rounds db
  if db.oldest ≠ 0 then db.modify db.oldest fun n => { n with flushPrev := 0 } else pure db

-- `cleaner.Put`: a node that is on disk leaves the cache. The children are taken off the size of the nodes.
def uncache (db : Database) (key : Bytes) : Except DbFault Database :=
  let hash := bytesToHash key
  match db.dirties.lookup hash with
  | none => pure db
  | some node => do
    let db ← db.unlist hash node
    pure
      { db with
        dirties := db.dirties.erase hash
        dirtiesSize := db.dirtiesSize - (32 + node.size.toNat : Nat) - node.childrenSize }

def replay (db : Database) (batch : Batch) : Except DbFault Database := batch.writes.foldlM (fun db (key, _) => db.uncache key) db

-- The private `commit`, with calls nested at most so deep.
def commitFrom [RangeOrder] : Nat → Hash → Database × Batch → Except DbFault (Database × Batch)
  | 0, _, _ => .error .depth
  | depth + 1, hash, (db, batch) =>
    match db.dirties.lookup hash with
    | none => pure (db, batch)
    | some node => do
      let (hashes, db) := db.childs node
      let (db, batch) ← hashes.foldlM (fun state child => commitFrom depth child state) (db, batch)
      let blob ← node.rlp
      let batch := batch.put (hashBytes hash) blob
      if batch.size ≥ idealBatchSize then do
        let db ← { db with diskdb := batch.write db.diskdb }.replay batch
        pure (db, {})
      else pure (db, batch)

def commit [RangeOrder] (db : Database) (node : Hash) : Except DbFault Database := do
  let (batch, disk) := db.putPreimages
  let (db, batch) ← commitFrom (db.dirties.keys.length + 1) node ({ db with diskdb := batch.write disk }, {})
  let db ← { db with diskdb := batch.write db.diskdb }.replay batch
  pure { db with preimages := ∅, preimagesSize := 0 }

end Database

/-! ## Runs -/

inductive DbCall where
  | insertBlob (hash : Hash) (blob : Bytes)
  | insertNode (hash : Hash) (n : Node)
  | insertPreimage (hash : Hash) (preimage : Bytes)
  | reference (child parent : Hash)
  | dereference (root : Hash)
  | cap (limit : Int)
  | commit (node : Hash)

def Database.call [RangeOrder] (db : Database) : DbCall → Except DbFault Database
  | .insertBlob hash blob => db.insertBlob hash blob
  | .insertNode hash n => db.insertNode hash n
  | .insertPreimage hash preimage => pure (db.insertPreimage hash preimage)
  | .reference child parent => db.reference child parent
  | .dereference root => db.dereference root
  | .cap limit => db.cap limit
  | .commit node => db.commit node

end CuteEVM.Trie
