import CuteEVM.Shared.Totals
import CuteEVM.Trie.FlushList

set_option autoImplicit false

namespace CuteEVM.Trie

open Totals

def CachedNode.blobLength (n : CachedNode) : Nat :=
  match n.node with
  | .blob b => b.length
  | .node node => (Rlp.encode node.item).length

-- The parts of an entry in the two sizes of the cache. The meta root has no blob, and its map is not counted.
def blobPart (h : Hash) (n : CachedNode) : Int := if h = 0 then 0 else 32 + n.blobLength

def childrenPart (h : Hash) (n : CachedNode) : Int := (if h = 0 ∨ n.children.isNone then 0 else 48) + 34 * n.external.length

-- Every reference is counted at least once, and just once outside of the meta root.
def Counted (h : Hash) (children : Children) : Prop := ∀ c k, children.lookup c = some k → 0 < k ∧ (h ≠ 0 → k = 1)

/-! ## One reference less -/

section Drop

variable {children : Children} {h child : Hash}

theorem dropChild_none (absent : children.lookup child = none) : dropChild child children = children := by
  rw [dropChild, absent]
  rfl

theorem dropChild_one (once : children.lookup child = some 1) : dropChild child children = children.erase child := by
  rw [dropChild, once]
  rfl

theorem dropChild_more {k : UInt16} (often : children.lookup child = some k) (some : 0 < k) (more : k - 1 ≠ 0) :
    dropChild child children = children.insert child (k - 1) := by
  rw [dropChild, often]
  simp only [Option.getD_some]
  rw [if_pos some, if_neg more]

theorem Counted.cases (counted : Counted h children) (child : Hash) :
    (children.lookup child = none ∧ dropChild child children = children) ∨
    (children.lookup child = some 1 ∧ dropChild child children = children.erase child) ∨
    ∃ k, h = 0 ∧ children.lookup child = some k ∧ 0 < k ∧ k - 1 ≠ 0 ∧ dropChild child children =
      children.insert child (k - 1) := by
  cases lookup : children.lookup child with
  | none => exact .inl ⟨rfl, dropChild_none lookup⟩
  | some k =>
    obtain ⟨some, once⟩ := counted child k lookup
    by_cases last : k - 1 = 0
    · have one : k = 1 := by
        have := UInt16.sub_add_cancel k 1
        rw [last] at this
        exact this.symm
      subst one
      exact .inr (.inl ⟨rfl, dropChild_one lookup⟩)
    · refine .inr (.inr ⟨k, ?_, rfl, some, last, dropChild_more lookup some last⟩)
      by_contra notRoot
      exact last (by rw [once notRoot]; rfl)

theorem Counted.drop (counted : Counted h children) (child : Hash) : Counted h (dropChild child children) := by
  intro c k found
  rcases counted.cases child with ⟨-, same⟩ | ⟨-, erased⟩ | ⟨count, isRoot, lookup, -, more, inserted⟩
  · rw [same] at found
    exact counted c k found
  · rw [erased] at found
    by_cases same : c = child
    · rw [same, AList.lookup_erase] at found
      cases found
    · rw [AList.lookup_erase_ne same] at found
      exact counted c k found
  · rw [inserted] at found
    by_cases same : c = child
    · rw [same, AList.lookup_insert] at found
      cases found
      exact ⟨UInt16.pos_iff_ne_zero.mpr more, fun notRoot => absurd isRoot notRoot⟩
    · rw [AList.lookup_insert_ne same] at found
      exact counted c k found

-- Outside of the meta root the reference is gone.
theorem Counted.mem_drop (counted : Counted h children) (notRoot : h ≠ 0) (c : Hash) :
    c ∈ dropChild child children ↔ c ∈ children ∧ c ≠ child := by
  rcases counted.cases child with ⟨absent, same⟩ | ⟨-, erased⟩ | ⟨_, isRoot, -⟩
  · rw [same]
    exact ⟨fun inside => ⟨inside, fun same => AList.lookup_eq_none.mp absent (same ▸ inside)⟩, fun inside => inside.1⟩
  · rw [erased, AList.mem_erase, and_comm]
  · exact absurd isRoot notRoot

def dropAll (gone : List Hash) (children : Children) : Children :=
  gone.foldl (fun children child => dropChild child children) children

theorem Counted.dropAll_empty {gone : List Hash} (counted : Counted h children) (notRoot : h ≠ 0)
    (all : ∀ c ∈ children, c ∈ gone) :
    (dropAll gone children).keys = [] := by
  induction gone generalizing children with
  | nil => exact List.eq_nil_iff_forall_not_mem.mpr fun c inside => List.not_mem_nil (all c (AList.mem_keys.mpr inside))
  | cons child gone ih =>
    refine ih (counted.drop child) fun c inside => ?_
    obtain ⟨cached, other⟩ := (counted.mem_drop notRoot c).mp inside
    exact (List.mem_cons.mp (all c cached)).resolve_left other

theorem keys_length_erase (inside : child ∈ children) : (children.erase child).keys.length + 1 = children.keys.length := by
  rw [AList.keys_erase, List.length_erase_of_mem (AList.mem_keys.mp inside)]
  have := List.length_pos_of_mem (AList.mem_keys.mp inside)
  omega

theorem keys_length_insert (inside : child ∈ children) (k : UInt16) :
    (children.insert child k).keys.length = children.keys.length := by
  rw [AList.keys_insert, List.length_cons, ← keys_length_erase inside, AList.keys_erase]

end Drop

namespace Database

variable {db db' : Database} {h x child parent : Hash} {node n : CachedNode}

structure Sized (db : Database) : Prop where
  blobs : db.dirtiesSize = total blobPart db.dirties
  maps : db.childrenSize = total childrenPart db.dirties
  fits : ∀ h node, db.dirties.lookup h = some node → h ≠ 0 → node.size.toNat = node.blobLength
  counted : ∀ h node children, db.dirties.lookup h = some node → node.children = some children → Counted h children
  root : ∀ node, db.dirties.lookup 0 = some node → node.children ≠ none
  preimages : 0 ≤ db.preimagesSize

theorem blobPart_congr {n' : CachedNode} (holds : n'.node = n.node) : blobPart h n' = blobPart h n := by
  rw [blobPart, blobPart, CachedNode.blobLength, CachedNode.blobLength, holds]

theorem childrenPart_congr {n' : CachedNode} (children : n'.children = n.children) : childrenPart h n' = childrenPart h n := by
  rw [childrenPart, childrenPart, CachedNode.external, CachedNode.external, children]

theorem Sized.same (sized : Sized db) (same : SameContents db db') (blobs : db'.dirtiesSize = db.dirtiesSize)
    (maps : db'.childrenSize = db.childrenSize) (preimages : 0 ≤ db.preimagesSize → 0 ≤ db'.preimagesSize) : Sized db' where
  blobs := by
    rw [blobs, sized.blobs]
    refine (total_congr (fun _ => same.mem) fun h => ?_).symm
    cases found : db'.dirties.lookup h with
    | none => rw [AList.lookup_eq_none.mpr fun inside => AList.lookup_eq_none.mp found (same.mem.mpr inside)]
    | some n' =>
      obtain ⟨n, found, holds, -⟩ := same.lookup found
      rw [found]
      exact blobPart_congr holds
  maps := by
    rw [maps, sized.maps]
    refine (total_congr (fun _ => same.mem) fun h => ?_).symm
    cases found : db'.dirties.lookup h with
    | none => rw [AList.lookup_eq_none.mpr fun inside => AList.lookup_eq_none.mp found (same.mem.mpr inside)]
    | some n' =>
      obtain ⟨n, found, -, -, children⟩ := same.lookup found
      rw [found]
      exact childrenPart_congr children
  fits h n' found notRoot := by
    obtain ⟨n, found, holds, size, -⟩ := same.lookup found
    rw [size, sized.fits h n found notRoot, CachedNode.blobLength, CachedNode.blobLength, holds]
  counted h n' children found isMap := by
    obtain ⟨n, found, -, -, sameMap⟩ := same.lookup found
    exact sized.counted h n children found (sameMap ▸ isMap)
  root n' found := by
    obtain ⟨n, found, -, -, sameMap⟩ := same.lookup found
    exact sameMap ▸ sized.root n found
  preimages := preimages sized.preimages

theorem Sized.setChildren (sized : Sized db) (found : db.dirties.lookup h = some node) {children : Option Children} {size : Int}
    (counted : ∀ cs, children = some cs → Counted h cs) (isMap : h = 0 → children ≠ none)
    (moved : size = db.childrenSize - childrenPart h node + childrenPart h { node with children := children }) :
    Sized { db.setEntry h { node with children := children } with childrenSize := size } where
  blobs := by
    have kept : blobPart h { node with children := children } = blobPart h node := blobPart_congr rfl
    rw [setEntry, total_insert, found, Option.elim_some, kept, sized.blobs]
    omega
  maps := by
    rw [setEntry, total_insert, found, Option.elim_some, moved, sized.maps]
  fits a n lookup notRoot := by
    rw [show AList.lookup a _ = _ from lookup_setEntry db h a _] at lookup
    split at lookup
    next same =>
      cases lookup
      exact sized.fits h node found (same ▸ notRoot)
    next => exact sized.fits a n lookup notRoot
  counted a n cs lookup isMap := by
    rw [show AList.lookup a _ = _ from lookup_setEntry db h a _] at lookup
    split at lookup
    next same =>
      cases lookup
      exact same ▸ counted cs isMap
    next => exact sized.counted a n cs lookup isMap
  root n lookup := by
    rw [show AList.lookup (0 : Hash) _ = _ from lookup_setEntry db h 0 _] at lookup
    split at lookup
    next same =>
      cases lookup
      exact isMap same.symm
    next => exact sized.root n lookup
  preimages := sized.preimages

theorem childrenPart_eq (notRoot : h ≠ 0) : childrenPart h node = node.childrenSize := by
  rw [childrenPart, CachedNode.childrenSize, CachedNode.external]
  cases node.children with
  | none => simp
  | some cs =>
    have counts : ¬(h = 0 ∨ (some cs).isNone = true) := fun none => none.elim notRoot nofun
    rw [if_neg counts, Option.elim_some, Option.elim_some, cachedNodeChildrenSize, childSize]
    omega

theorem Sized.remove (sized : Sized db) (found : db.dirties.lookup x = some node) (notRoot : x ≠ 0)
    (erased : db'.dirties = db.dirties.erase x)
    (blobs : db'.dirtiesSize = db.dirtiesSize - (32 + node.size.toNat : Nat))
    (maps : db'.childrenSize = db.childrenSize - node.childrenSize)
    (preimages : db'.preimagesSize = db.preimagesSize) : Sized db' := by
  have kept : ∀ h n, db'.dirties.lookup h = some n → db.dirties.lookup h = some n := by
    intro h n lookup
    rw [erased, lookup_erase] at lookup
    split at lookup
    · cases lookup
    · exact lookup
  refine ⟨?_, ?_, fun h n lookup => sized.fits h n (kept h n lookup), fun h n cs lookup => sized.counted h n cs (kept h n lookup),
    fun n lookup => sized.root n (kept 0 n lookup), preimages ▸ sized.preimages⟩
  · rw [erased, total_erase, found, Option.elim_some, blobPart, if_neg notRoot, ← sized.blobs, blobs,
      sized.fits x node found notRoot]
    omega
  · rw [erased, total_erase, found, Option.elim_some, childrenPart_eq notRoot, ← sized.maps, maps]

theorem childrenPart_some {children : Children} (isMap : node.children = some children) :
    childrenPart h node = (if h = 0 then 0 else 48) + 34 * children.keys.length := by
  rw [childrenPart, CachedNode.external, isMap]
  simp

theorem Sized.unlink (sized : Sized db) (found : db.dirties.lookup parent = some node)
    (called : db.unlink child parent = .ok db') : Sized db' := by
  rw [Database.unlink, entry, found] at called
  cases called
  cases isMap : node.children with
  | none =>
    have same : childrenPart parent { node with children := none } = childrenPart parent node := childrenPart_congr isMap.symm
    rw [if_neg (by rw [Option.getD_none, AList.lookup_empty]; decide)]
    exact @Sized.setChildren db parent node sized found none db.childrenSize (by rintro _ ⟨⟩)
      (fun isRoot => absurd isMap (sized.root node (isRoot ▸ found)))
      (by rw [same]; omega)
  | some cs =>
    have counted := sized.counted parent node cs found isMap
    have old : childrenPart parent node = (if parent = 0 then 0 else 48) + 34 * cs.keys.length := childrenPart_some isMap
    have new : childrenPart parent { node with children := some (dropChild child cs) } =
        (if parent = 0 then 0 else 48) + 34 * (dropChild child cs).keys.length := childrenPart_some rfl
    have dropped (size : Int) (moved : size = db.childrenSize - 34 * cs.keys.length + 34 * (dropChild child cs).keys.length) :=
      @Sized.setChildren db parent node sized found (some (dropChild child cs)) size (fun _ isMap => Option.some.inj isMap ▸
        counted.drop child)
        (by rintro - ⟨⟩) (by rw [old, new]; omega)
    rw [Option.getD_some, Option.map_some]
    rcases counted.cases child with ⟨absent, same⟩ | ⟨once, erased⟩ | ⟨k, -, lookup, -, more, inserted⟩
    · rw [absent, if_neg (by decide)]
      exact dropped db.childrenSize (by rw [same]; omega)
    · rw [once, if_pos (by decide)]
      refine dropped (db.childrenSize - childSize) ?_
      have := keys_length_erase (AList.lookup_isSome.mp (by rw [once]; rfl : (cs.lookup child).isSome))
      rw [erased, childSize]
      omega
    · rw [lookup, if_neg (fun last => more last.2)]
      refine dropped db.childrenSize ?_
      rw [inserted, keys_length_insert (AList.lookup_isSome.mp (by rw [lookup]; rfl : (cs.lookup child).isSome))]
      omega

theorem Sized.add (sized : Sized db) (fresh : db.dirties.lookup h = none) (notRoot : h ≠ 0) (noMap : node.children = none)
    (fits : node.size.toNat = node.blobLength) (blobs : db'.dirtiesSize = db.dirtiesSize + (32 + node.blobLength : Nat))
    (maps : db'.childrenSize = db.childrenSize) (added : db'.dirties = (db.setEntry h node).dirties)
    (preimages : db'.preimagesSize = db.preimagesSize) :
    Sized db' where
  blobs := by
    rw [blobs, added, setEntry, total_insert, fresh, Option.elim_none, blobPart, if_neg notRoot, sized.blobs]
    omega
  maps := by
    have nothing : childrenPart h node = 0 := by rw [childrenPart, CachedNode.external, noMap]; simp
    rw [maps, added, setEntry, total_insert, fresh, Option.elim_none, nothing, sized.maps]
    omega
  fits a n lookup := by
    rw [added, lookup_setEntry] at lookup
    split at lookup
    · cases lookup
      exact fun _ => fits
    · exact sized.fits a n lookup
  counted a n cs lookup isMap := by
    rw [added, lookup_setEntry] at lookup
    split at lookup
    · cases lookup
      rw [noMap] at isMap
      cases isMap
    · exact sized.counted a n cs lookup isMap
  root n lookup := by
    rw [added, lookup_setEntry, if_neg notRoot.symm] at lookup
    exact sized.root n lookup
  preimages := preimages ▸ sized.preimages

-- The count of a reference that is made outside of the meta root is new.
theorem Sized.link (sized : Sized db) (found : db.dirties.lookup parent = some node) {cs : Children}
    (isMap : node.children = some cs)
    {count : UInt16} (isCount : count = (cs.lookup child).getD 0 + 1) (fits : ((cs.lookup child).getD 0).toNat + 1 < 2 ^ 16)
    (once : parent ≠ 0 → cs.lookup child = none) :
    Sized { db.setEntry parent { node with children := some (cs.insert child count) } with
      childrenSize := db.childrenSize + if count = 1 then (childSize : Int) else 0 } := by
  have counted := sized.counted parent node cs found isMap
  have value : count.toNat = ((cs.lookup child).getD 0).toNat + 1 := by
    rw [isCount, UInt16.toNat_add, UInt16.toNat_one, Nat.mod_eq_of_lt fits]
  refine sized.setChildren found (fun _ same => Option.some.inj same ▸ fun c k lookup => ?_) nofun ?_
  · by_cases same : c = child
    · rw [same, AList.lookup_insert] at lookup
      cases lookup
      refine ⟨UInt16.lt_iff_toNat_lt.mpr (by rw [value]; exact Nat.succ_pos _), fun notRoot => ?_⟩
      rw [isCount, once notRoot]
      rfl
    · rw [AList.lookup_insert_ne same] at lookup
      exact counted c k lookup
  · have old : childrenPart parent node = (if parent = 0 then 0 else 48) + 34 * cs.keys.length := childrenPart_some isMap
    have new : childrenPart parent { node with children := some (cs.insert child count) } =
        (if parent = 0 then 0 else 48) + 34 * (cs.insert child count).keys.length := childrenPart_some rfl
    rw [old, new]
    cases lookup : cs.lookup child with
    | none =>
      have one : count = 1 := by rw [isCount, lookup]; rfl
      rw [if_pos one, AList.keys_insert, List.length_cons,
        List.erase_of_not_mem (fun inside => AList.lookup_eq_none.mp lookup (AList.mem_keys.mpr inside)), childSize]
      omega
    | some k =>
      have more : count ≠ 1 := by
        rintro rfl
        rw [lookup, Option.getD_some] at value
        have := UInt16.lt_iff_toNat_lt.mp (counted child k lookup).1
        simp only [UInt16.toNat_zero, UInt16.toNat_one] at this value
        omega
      rw [if_neg more, keys_length_insert (AList.lookup_isSome.mp (by rw [lookup]; rfl : (cs.lookup child).isSome))]
      omega

-- An entry whose children have all been dereferenced has an empty map left, if it has one.
theorem Sized.dropped {hashes : List Hash} {n' : CachedNode} (sized : Sized db) (found : db.dirties.lookup h = some n)
    (notRoot : h ≠ 0) (all : ∀ c ∈ n.external, c ∈ hashes) (left : n'.children = n.children.map (dropAll hashes)) :
    n'.childrenSize = if n'.children.isSome then cachedNodeChildrenSize else 0 := by
  rw [CachedNode.childrenSize, left]
  cases isMap : n.children with
  | none => rfl
  | some cs =>
    have empty :=
      @Counted.dropAll_empty cs h hashes (sized.counted h n cs found isMap) notRoot fun c inside =>
        all c (by rw [CachedNode.external, isMap]; exact inside)
    simp [empty]

end Database

end CuteEVM.Trie
