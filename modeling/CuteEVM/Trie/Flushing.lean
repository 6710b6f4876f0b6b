import CuteEVM.Rlp.Writing
import CuteEVM.Trie.Releasing

set_option autoImplicit false

namespace CuteEVM.Trie

open LinkedList
open Relation (TransGen)

variable {below : Hash → Hash → Prop} {child parent hash h : Hash} {order : List Hash}

theorem bytesToHash_hashBytes (h : Hash) : bytesToHash (hashBytes h) = h := by
  rw [bytesToHash, hashBytes, setBytes_eq, bigEndian_eq, BigEndian.read_write (by have := h.isLt; omega)]
  exact BitVec.eq_of_toNat_eq (by rw [BitVec.toNat_ofNat, Nat.mod_eq_of_lt h.isLt])

namespace Database

variable {db db' : Database} {node : CachedNode}

/-! ## Inserting -/

theorem addParent_spec (ready : Ready below db [] order) (child : Hash) :
    Ready below (db.addParent child) [] order ∧ SameContents db (db.addParent child) ∧ (db.addParent child).newest = db.newest ∧
      (Sized db → Sized (db.addParent child)) := by
  unfold addParent
  split
  next node found =>
    have same := sameContents_setEntry found (n := { node with parents := node.parents + 1 }) rfl rfl rfl
    exact ⟨@Ready.setEntry below 0 child [] order [] db node ready found _ db.childrenSize rfl rfl rfl (same.shrinks 0), same, rfl,
      fun sized => sized.same same rfl rfl id⟩
  next => exact ⟨ready, SameContents.refl db, rfl, id⟩

theorem addParents_spec (hashes : List Hash) (ready : Ready below db [] order) :
    Ready below (hashes.foldl addParent db) [] order ∧ SameContents db (hashes.foldl addParent db) ∧
      (hashes.foldl addParent db).newest = db.newest ∧ (Sized db → Sized (hashes.foldl addParent db)) := by
  induction hashes generalizing db with
  | nil => exact ⟨ready, SameContents.refl db, rfl, id⟩
  | cons c hashes ih =>
    obtain ⟨ready₁, same₁, newest₁, sized₁⟩ := addParent_spec ready c
    obtain ⟨ready₂, same₂, newest₂, sized₂⟩ := ih ready₁
    exact ⟨ready₂, same₁.trans same₂, newest₂.trans newest₁, fun sized => sized₂ (sized₁ sized)⟩

theorem Ready.enter (ready : Ready below db [] order) (fresh : db.dirties.lookup hash = none)
    (under : ∀ c ∈ node.external ++ node.implicit, below c hash) : Ready below (db.setEntry hash node) [hash] order := by
  obtain ⟨root, atZero, empty⟩ := ready.listed.root
  have notRoot : hash ≠ 0 := by
    rintro rfl
    rw [atZero] at fresh
    cases fresh
  have kept : ∀ h, h ≠ hash → (db.setEntry hash node).dirties.lookup h = db.dirties.lookup h :=
    fun h other => by rw [lookup_setEntry, if_neg other]
  have absent : hash ∉ db.dirties := AList.lookup_eq_none.mp fresh
  have apart : ∀ h ∈ order, h ≠ hash := fun h inside same => absent (same ▸ ((ready.listed.covers h).mp inside).1)
  have mem : ∀ h, h ∈ (db.setEntry hash node).dirties ↔ h = hash ∨ h ∈ db.dirties := fun h => AList.mem_insert _
  refine ⟨⟨?_, fun h => ?_, root, (kept 0 notRoot.symm).trans atZero, empty⟩, fun h n found => ?_, fun q inside =>
    ?_, List.nodup_singleton hash⟩
  · refine ready.listed.linked.congr (fun a inside => ?_) fun a inside => ?_
    · rw [next, next, kept a (apart a inside)]
    · rw [prev, prev, kept a (apart a (List.mem_of_mem_tail inside))]
  · rw [ready.listed.covers, mem, List.mem_singleton]
    have isNew : h ∈ db.dirties → h ≠ hash := fun cached same => absent (same ▸ cached)
    tauto
  · rw [lookup_setEntry] at found
    split at found
    next same =>
      cases found
      exact ⟨fun _ => same ▸ under, fun isRoot => absurd (same.symm.trans isRoot) notRoot⟩
    next => exact ready.related h n found
  · rw [List.mem_singleton.mp inside]
    exact ⟨(mem hash).mpr (.inl rfl), notRoot⟩

theorem Ready.enlist (ready : Ready below db [hash] order) (found : db.dirties.lookup hash = some node) (last : node.flushNext = 0)
    (back : node.flushPrev = db.newest) :
    ∃ db', db.enlist hash = .ok db' ∧ Ready below db' [] (order ++ [hash]) ∧ SameContents db db' ∧
      db'.dirtiesSize = db.dirtiesSize ∧ db'.childrenSize = db.childrenSize ∧ db'.preimagesSize = db.preimagesSize := by
  have notRoot := (ready.held hash List.mem_cons_self).2
  have covers : ∀ h, h ∈ order ++ [hash] ↔ h ∈ db.dirties ∧ h ≠ 0 ∧ h ∉ ([] : List Hash) := by
    intro h
    have cached := (ready.held hash List.mem_cons_self).1
    rw [List.mem_append, ready.listed.covers, List.mem_singleton]
    by_cases same : h = hash
    · subst same
      simpa using ⟨cached, notRoot⟩
    · simp [same]
  rw [Database.enlist]
  split
  next empty =>
    obtain rfl := ready.listed.linked.eq_nil empty
    refine ⟨_, rfl, ⟨⟨?_, covers, ready.listed.root⟩, ready.related, nofun, List.nodup_nil⟩, SameContents.refl _, rfl, rfl, rfl⟩
    exact linked_singleton notRoot ((next_eq found).trans last)
  next some =>
    have nonempty : order ≠ [] := fun none => some (ready.listed.linked.starts.trans (by rw [none]; rfl))
    have newestIn := ready.listed.linked.last_mem nonempty
    have fresh : hash ∉ order := fun inside => ((ready.listed.covers hash).mp inside).2.2 List.mem_cons_self
    have other : hash ≠ db.newest := fun same => fresh (same ▸ newestIn)
    obtain ⟨end_, atEnd⟩ := ready.listed.cached newestIn
    have same := sameContents_setEntry atEnd (n := { end_ with flushNext := hash }) rfl rfl rfl
    have kept : ∀ a ∈ order, a ≠ db.newest → (db.setEntry db.newest { end_ with flushNext := hash }).next a = db.next a :=
      fun a _ earlier => by rw [next_setEntry, if_neg earlier]
    rw [modify_eq atEnd]
    refine ⟨{ db.setEntry db.newest { end_ with flushNext := hash } with newest := hash }, rfl,
      ⟨⟨?_, fun h => ?_, same.root ready.listed.root⟩, ready.related.shrinks (same.shrinks 0), nofun, List.nodup_nil⟩, same, rfl,
        rfl, rfl⟩
    · refine ready.listed.linked.append fresh notRoot nonempty kept ?_ ?_ (fun a _ => ?_) ?_
      · exact (next_setEntry ..).trans (if_pos rfl)
      · exact (next_setEntry ..).trans ((if_neg other).trans ((next_eq found).trans last))
      · exact prev_setEntry_same (n := { end_ with flushNext := hash }) atEnd rfl a
      · exact (prev_setEntry ..).trans ((if_neg other).trans ((prev_eq found).trans back))
    · rw [covers, ← same.mem]

theorem insert_spec (ready : Ready below db [] order) {blob : Bytes} {stored : Stored}
    (under : ∀ c ∈ CachedNode.implicit { node := stored }, below c hash) :
    ∃ db', db.insert hash blob stored = .ok db' ∧
      Ready below db' [] (order ++ if (db.dirties.lookup hash).isSome then [] else [hash]) ∧
      (CachedNode.blobLength { node := stored } = blob.length → blob.length + 32 < 2 ^ 16 → Sized db → Sized db') := by
  rw [Database.insert]
  split
  next => exact ⟨db, rfl, (List.append_nil order).symm ▸ ready, fun _ _ => id⟩
  next fresh =>
    obtain ⟨entry, isEntry⟩ : ∃ n : CachedNode, n = { node := stored, size := UInt16.ofNat blob.length, flushPrev := db.newest } :=
      ⟨_, rfl⟩
    obtain ⟨ready₁, same₁, newest₁, sized₁⟩ := addParents_spec entry.implicit ready
    have fresh₁ : (entry.implicit.foldl addParent db).dirties.lookup hash = none := by
      rw [AList.lookup_eq_none, same₁.mem, ← AList.lookup_isSome]
      exact fresh
    have ready₂ := @Ready.enter below hash order _ entry ready₁ fresh₁ (by rw [isEntry]; exact under)
    have back : entry.flushPrev = db.newest := by rw [isEntry]
    obtain ⟨db₃, enlisted, ready₃, same₃, blobs₃, maps₃, preimages₃⟩ :=
      ready₂.enlist ((lookup_setEntry ..).trans (if_pos rfl)) (by rw [isEntry]) (back.trans newest₁.symm)
    simp only [← isEntry]
    rw [enlisted]
    refine ⟨_, rfl, ready₃.of_eq rfl rfl rfl, fun sameLength fits sized => ?_⟩
    have notRoot := (ready₂.held hash List.mem_cons_self).2
    have size : entry.size.toNat = blob.length := by
      rw [isEntry]
      exact UInt16.toNat_ofNat_of_lt' (Nat.lt_of_le_of_lt (Nat.le_add_right ..) fits)
    have length : entry.blobLength = blob.length := by
      rw [isEntry]
      exact sameLength
    have sum : (32 + UInt16.ofNat blob.length).toNat = 32 + entry.blobLength := by
      have size : (UInt16.ofNat blob.length).toNat = blob.length := by rwa [isEntry] at size
      rw [UInt16.toNat_add, size, length]
      exact Nat.mod_eq_of_lt (by rw [Nat.add_comm]; exact fits)
    -- counted before the list is touched, or after
    have counted : Sized { (entry.implicit.foldl addParent db).setEntry hash entry with
        dirtiesSize := (entry.implicit.foldl addParent db).dirtiesSize + (32 + entry.blobLength : Nat) } :=
      (sized₁ sized).add fresh₁ notRoot (by rw [isEntry]) (size.trans length.symm) rfl rfl rfl rfl
    refine counted.same same₃ ?_ maps₃ fun nonneg => preimages₃ ▸ nonneg
    simp only [sum, blobs₃]
    rfl

/-! ## References -/

theorem Ready.setChildren (ready : Ready below db [] order) (found : db.dirties.lookup h = some node) (children : Option Children)
    (size : Int)
    (inner : h ≠ 0 → ∀ c ∈ children.elim [] AList.keys, below c h) (outer : h = 0 → ∀ c ∈ children.elim [] AList.keys, c ≠ 0) :
    Ready below { db.setEntry h { node with children := children } with childrenSize := size } [] order := by
  have listed := ready.listed.setEntry found (n := { node with children := children }) rfl rfl rfl
  refine ⟨⟨listed.linked, listed.covers, listed.root⟩, fun a n lookup => ?_, nofun, List.nodup_nil⟩
  have lookup : (db.setEntry h { node with children := children }).dirties.lookup a = some n := lookup
  rw [lookup_setEntry] at lookup
  split at lookup
  next same =>
    cases lookup
    subst same
    refine ⟨fun notRoot c inside => ?_, outer⟩
    rcases List.mem_append.mp inside with inside | inside
    · exact inner notRoot c inside
    · exact (ready.related a node found).1 notRoot c (List.mem_append_right _ inside)
  next => exact ready.related a n lookup

-- A reference is made along the relation, or by the meta root.
def Allowed (below : Hash → Hash → Prop) (db : Database) (child parent : Hash) : Prop :=
  (parent = 0 ∧ child ≠ 0) ∨ (parent ∈ db.dirties ∧ parent ≠ 0 ∧ below child parent)

theorem Allowed.cached (allowed : Allowed below db child parent) (ready : Ready below db [] order) :
    ∃ node, db.dirties.lookup parent = some node := by
  rcases allowed with ⟨rfl, -⟩ | ⟨cached, -⟩
  · obtain ⟨root, atZero, -⟩ := ready.listed.root
    exact ⟨root, atZero⟩
  · exact mem_dirties.mp cached

-- The counter of a reference does not overflow, and outside of the meta root it is new.
def Countable (db : Database) (child parent : Hash) : Prop :=
  ∀ node cs, db.dirties.lookup parent = some node → node.children = some cs →
    ((cs.lookup child).getD 0).toNat + 1 < 2 ^ 16 ∧ (parent ≠ 0 → cs.lookup child = none)

theorem Ready.link (ready : Ready below db [] order) (allowed : Allowed below db child parent) (cached : child ∈ db.dirties) :
    ∃ db', db.link child parent = .ok db' ∧ Ready below db' [] order ∧
      ((∀ node, db.dirties.lookup parent = some node → node.children ≠ none) → Countable db child parent → Sized db →
        Sized db') := by
  obtain ⟨node, found⟩ := mem_dirties.mp cached
  have same := sameContents_setEntry found (n := { node with parents := node.parents + 1 }) rfl rfl rfl
  have ready₁ : Ready below (db.setEntry child { node with parents := node.parents + 1 }) [] order :=
    @Ready.setEntry below 0 child [] order [] db node ready found _ db.childrenSize rfl rfl rfl (same.shrinks 0)
  have allowed₁ : Allowed below (db.setEntry child { node with parents := node.parents + 1 }) child parent := by
    rw [Allowed, same.mem]
    exact allowed
  obtain ⟨p, atParent⟩ := allowed₁.cached ready₁
  -- the keys are the old ones and the child
  have keys : ∀ (count : UInt16) (c : Hash), c ∈ ((p.children.getD ∅).insert child count).keys → c = child ∨ c ∈ p.external := by
    intro count c inside
    rcases (AList.mem_insert _).mp (AList.mem_keys.mpr inside) with same | inside
    · exact .inl same
    · right
      cases some : p.children with
      | none => rw [some] at inside; exact absurd inside (AList.notMem_empty c)
      | some cs => rw [some] at inside; rw [CachedNode.external, some]; exact inside
  obtain ⟨inner, outer⟩ := ready₁.related parent p atParent
  have linked (count : UInt16) (size : Int) := ready₁.setChildren atParent (some ((p.children.getD ∅).insert child count)) size
    (fun notRoot c inside => by
      rcases keys count c inside with rfl | inside
      · exact allowed.elim (fun isRoot => absurd isRoot.1 notRoot) fun along => along.2.2
      · exact inner notRoot c (List.mem_append_left _ inside))
    (fun isRoot c inside => by
      rcases keys count c inside with rfl | inside
      · exact allowed.elim (fun isRoot => isRoot.2) fun along => absurd isRoot along.2.1
      · exact outer isRoot c inside)
  rw [Database.link, modify_eq found]
  simp only [bind, Except.bind]
  rw [entry, atParent]
  refine ⟨_, rfl, ?_, fun isMap countable sized => ?_⟩
  · split
    · exact linked _ _
    · exact linked _ _
  · obtain ⟨p₀, atParent₀, -, -, sameMap⟩ := same.lookup atParent
    obtain ⟨cs, map⟩ := Option.ne_none_iff_exists'.mp (isMap p₀ atParent₀)
    obtain ⟨fits, once⟩ := countable p₀ cs atParent₀ map
    have counted := (sized.same same rfl rfl id).link atParent (sameMap.trans map) rfl fits once
    rw [sameMap, map, Option.getD_some]
    split
    next isNew => rwa [if_pos isNew] at counted
    next old => rwa [if_neg old, Int.add_zero] at counted

theorem reference_spec (ready : Ready below db [] order) (allowed : Allowed below db child parent) :
    ∃ db', db.reference child parent = .ok db' ∧ Ready below db' [] order ∧
      ((parent = 0 → Countable db child parent) → Sized db → Sized db') := by
  rw [Database.reference]
  cases found : db.dirties.lookup child with
  | none => exact ⟨db, rfl, ready, fun _ => id⟩
  | some node =>
    have cached : child ∈ db.dirties := mem_dirties.mpr ⟨node, found⟩
    obtain ⟨p, atParent⟩ := allowed.cached ready
    simp only [bind, Except.bind]
    rw [entry, atParent]
    simp only
    cases children : p.children with
    | none =>
      obtain ⟨db₁, isDb₁⟩ : ∃ db₁ : Database, db₁ = { db.setEntry parent { p with children := some ∅ } with
        childrenSize := db.childrenSize + cachedNodeChildrenSize } := ⟨_, rfl⟩
      have ready₁ : Ready below db₁ [] order := by
        rw [isDb₁]
        exact ready.setChildren atParent (some ∅) (db.childrenSize + cachedNodeChildrenSize) (by rintro - _ ⟨⟩) (by rintro - _ ⟨⟩)
      have there (h : Hash) : h ∈ db₁.dirties ↔ h ∈ db.dirties := by
        rw [isDb₁]
        exact mem_setEntry atParent _ h
      have atParent₁ : db₁.dirties.lookup parent = some { p with children := some ∅ } := by
        rw [isDb₁]
        exact (lookup_setEntry ..).trans (if_pos rfl)
      obtain ⟨db', linked, ready', sized'⟩ :=
        ready₁.link (allowed.imp_right fun along => ⟨(there parent).mpr along.1, along.2⟩) ((there child).mpr cached)
      refine ⟨db', isDb₁ ▸ linked, ready', fun _ sized => sized' ?_ ?_ ?_⟩
      · intro n lookup
        obtain rfl := Option.some.inj (atParent₁.symm.trans lookup)
        rintro ⟨⟩
      · intro n cs lookup isMap
        obtain rfl := Option.some.inj (atParent₁.symm.trans lookup)
        obtain rfl := Option.some.inj isMap
        rw [AList.lookup_empty]
        exact ⟨by decide, fun _ => rfl⟩
      · have notRoot : parent ≠ 0 := fun isRoot => sized.root p (isRoot ▸ atParent) children
        have old : childrenPart parent p = 0 := by rw [childrenPart, CachedNode.external, children]; simp
        have new : childrenPart parent { p with children := some ∅ } = 48 := by rw [childrenPart_some rfl, if_neg notRoot]; rfl
        rw [isDb₁]
        refine sized.setChildren atParent (fun _ same => Option.some.inj same ▸ fun c k lookup => ?_) (by rintro - ⟨⟩) ?_
        · rw [AList.lookup_empty] at lookup
          cases lookup
        · rw [old, new, cachedNodeChildrenSize]
          omega
    | some cs =>
      simp only
      split
      next => exact ⟨db, rfl, ready, fun _ => id⟩
      next notTwice =>
        obtain ⟨db', linked, ready', sized'⟩ := ready.link allowed cached
        refine ⟨db', linked, ready', fun countable sized => sized' ?_ (fun n cs' lookup isMap => ?_) sized⟩
        · intro n lookup
          obtain rfl := Option.some.inj (atParent.symm.trans lookup)
          rw [children]
          rintro ⟨⟩
        · by_cases isRoot : parent = 0
          · exact countable isRoot n cs' lookup isMap
          · obtain rfl := Option.some.inj (atParent.symm.trans lookup)
            obtain rfl := Option.some.inj (children.symm.trans isMap)
            have absent : cs.lookup child = none := Option.not_isSome_iff_eq_none.mp fun present => notTwice ⟨present, isRoot⟩
            rw [absent]
            exact ⟨by decide, fun _ => rfl⟩

/-! ## Flushing -/

theorem rlp_cases (node : CachedNode) : node.rlp = .error .encode ∨ ∃ blob, node.rlp = .ok blob := by
  unfold CachedNode.rlp
  split
  · exact .inr ⟨_, rfl⟩
  · exact .inl rfl
  · split
    · exact .inr ⟨_, rfl⟩
    · exact .inl rfl

def Unmapped (gone : Hash → Prop) (db : Database) : Prop :=
  ∀ h node, gone h → db.dirties.lookup h = some node → node.children = none

-- The children of the entries in question are again in question.
def Closed (gone : Hash → Prop) (db : Database) : Prop :=
  ∀ h node, gone h → db.dirties.lookup h = some node → ∀ c ∈ node.external ++ node.implicit, gone c

-- Entries that are on disk have left the cache. What is counted wrongly are the maps of those in `gone`.
structure Flushes (below : Hash → Hash → Prop) (gone : Hash → Prop) (db : Database) (order : List Hash)
    (db' : Database) (order' : List Hash) : Prop where
  ready : Ready below db' [] order'
  sublist : order'.Sublist order
  shrinks : Shrinks db db' 0 []
  sized : Sized db → Unmapped gone db → Sized db'

variable {gone : Hash → Prop}

theorem Shrinks.children (shrinks : Shrinks db db' 0 []) (found : db'.dirties.lookup h = some node) :
    ∃ n, db.dirties.lookup h = some n ∧ n.node = node.node ∧ n.children = node.children := by
  obtain ⟨n, before, holds, -, children⟩ := shrinks h node found
  refine ⟨n, before, holds.symm, children.symm ▸ ?_⟩
  cases n.children with
  | none => split <;> rfl
  | some cs => split <;> rfl

theorem Unmapped.shrinks (unmapped : Unmapped gone db) (shrinks : Shrinks db db' 0 []) : Unmapped gone db' := by
  intro h node isGone found
  obtain ⟨n, before, -, children⟩ := shrinks.children found
  exact children ▸ unmapped h n isGone before

theorem Closed.shrinks (closed : Closed gone db) (shrinks : Shrinks db db' 0 []) : Closed gone db' := by
  intro h node isGone found c inside
  obtain ⟨n, before, holds, children⟩ := shrinks.children found
  refine closed h n isGone before c ?_
  rwa [CachedNode.external, CachedNode.implicit, holds, children]

theorem Ready.flushes (ready : Ready below db [] order) (dirties : db'.dirties = db.dirties) (oldest : db'.oldest = db.oldest)
    (newest : db'.newest = db.newest) (blobs : db'.dirtiesSize = db.dirtiesSize) (maps : db'.childrenSize = db.childrenSize)
    (preimages : 0 ≤ db.preimagesSize → 0 ≤ db'.preimagesSize) : Flushes below gone db order db' order where
  ready := ready.of_eq dirties oldest newest
  sublist := List.Sublist.refl order
  shrinks := (sameContents_of_eq dirties).shrinks 0
  sized sized _ := sized.same (sameContents_of_eq dirties) blobs maps preimages

theorem Flushes.trans {db'' : Database} {order' order'' : List Hash} (first : Flushes below gone db order db' order')
    (second : Flushes below gone db' order' db'' order'') : Flushes below gone db order db'' order'' where
  ready := second.ready
  sublist := second.sublist.trans first.sublist
  shrinks := first.shrinks.trans second.shrinks
  sized sized unmapped := second.sized (first.sized sized unmapped) (unmapped.shrinks first.shrinks)

/-! ## Committing -/

theorem Ready.uncache (ready : Ready below db [] order) (notRoot : hash ≠ 0) (isGone : gone hash) :
    ∃ db', db.uncache (hashBytes hash) = .ok db' ∧ Flushes below gone db order db' (order.erase hash) := by
  rw [Database.uncache, bytesToHash_hashBytes]
  cases found : db.dirties.lookup hash with
  | none =>
    have absent : hash ∉ order := fun inside => AList.lookup_eq_none.mp found ((ready.listed.covers hash).mp inside).1
    exact ⟨db, rfl, (List.erase_of_not_mem absent).symm ▸ ready.flushes rfl rfl rfl rfl rfl id⟩
  | some node =>
    have inside : hash ∈ order := (ready.listed.covers hash).mpr ⟨mem_dirties.mpr ⟨node, found⟩, notRoot, List.not_mem_nil⟩
    obtain ⟨db₁, unlisted, ready₁, same, sized₁⟩ := ready.unlist inside found
    simp only [bind, Except.bind]
    rw [unlisted]
    refine ⟨_, rfl, ready₁.forget rfl rfl rfl, List.erase_sublist,
      (same.shrinks 0).forget ((SameContents.refl db₁).shrinks hash) rfl, fun sized unmapped => ?_⟩
    -- what is taken off for a map is taken off the wrong size
    have noMap := unmapped hash node isGone found
    obtain ⟨node₁, found₁⟩ := mem_dirties.mp (same.mem.mpr (mem_dirties.mpr ⟨node, found⟩))
    obtain ⟨n, again, -, size, children⟩ := same.lookup found₁
    obtain rfl : node = n := Option.some.inj (found.symm.trans again)
    have none : node.childrenSize = 0 := by rw [CachedNode.childrenSize, noMap]; rfl
    have none₁ : node₁.childrenSize = 0 := by rw [CachedNode.childrenSize, children, noMap]; rfl
    refine (sized₁ sized).remove found₁ notRoot rfl ?_ ?_ rfl
    · simp only [none, size]
      omega
    · simp only [none₁]
      omega

-- The keys of a batch of nodes.
def Queued (gone : Hash → Prop) (batch : Batch) : Prop :=
  ∀ write ∈ batch.writes, ∃ hash, hash ≠ 0 ∧ gone hash ∧ write.1 = hashBytes hash

theorem Queued.put {batch : Batch} (queued : Queued gone batch) (notRoot : hash ≠ 0) (isGone : gone hash) (blob : Bytes) :
    Queued gone (batch.put (hashBytes hash) blob) := by
  intro write inside
  rcases List.mem_append.mp inside with inside | inside
  · exact queued write inside
  · exact ⟨hash, notRoot, isGone, by rw [List.mem_singleton.mp inside]⟩

theorem Ready.replay {batch : Batch} (ready : Ready below db [] order) (queued : Queued gone batch) :
    ∃ db' order', db.replay batch = .ok db' ∧ Flushes below gone db order db' order' := by
  obtain ⟨writes, size⟩ := batch
  rw [Database.replay]
  induction writes generalizing db order with
  | nil => exact ⟨db, order, rfl, ready.flushes rfl rfl rfl rfl rfl id⟩
  | cons write writes ih =>
    obtain ⟨hash, notRoot, isGone, isKey⟩ := queued write List.mem_cons_self
    obtain ⟨db₁, uncached, flushes₁⟩ := ready.uncache notRoot isGone
    obtain ⟨db₂, order₂, replayed, flushes₂⟩ := ih flushes₁.ready fun write inside => queued write (List.mem_cons_of_mem _ inside)
    refine ⟨db₂, order₂, ?_, flushes₁.trans flushes₂⟩
    simp only at replayed ⊢
    rw [List.foldlM_cons]
    simp only [isKey, bind, Except.bind]
    rw [uncached]
    exact replayed

-- What a commit comes to: the entry itself, and the children of what it comes to.
inductive Reaches (db : Database) (hash : Hash) : Hash → Prop where
  | root : Reaches db hash hash
  | child {h c : Hash} {node : CachedNode} (reaches : Reaches db hash h) (found : db.dirties.lookup h = some node)
      (isChild : c ∈ node.external ++ node.implicit) : Reaches db hash c

theorem reaches_closed : Closed (Reaches db hash) db := fun _ _ reaches found _ isChild => reaches.child found isChild

section Commit

variable [RangeOrder]

def Committed (below : Hash → Hash → Prop) (gone : Hash → Prop) (db : Database) (order : List Hash)
    (result : Except DbFault (Database × Batch)) : Prop :=
  result = .error .encode ∨
    ∃ db' batch' order', result = .ok (db', batch') ∧ Flushes below gone db order db' order' ∧ Queued gone batch'

def Commits (below : Hash → Hash → Prop) (gone : Hash → Prop) (depth : Nat) : Prop :=
  ∀ {hash db batch order} {path known : List Hash}, Ready below db [] order → Closed gone db → Queued gone batch →
    hash ≠ 0 ∧ gone hash → (∀ q ∈ path, TransGen below hash q) → path.Nodup →
    path ⊆ known → (∀ h ∈ db.dirties, h ≠ 0 → h ∈ known) → known.length < depth + path.length →
    Committed below gone db order (commitFrom depth hash (db, batch))

theorem Commits.loop {depth : Nat} (commits : Commits below gone depth) {batch : Batch} {path known : List Hash}
    (hashes : List Hash) (ready : Ready below db [] order) (closed : Closed gone db) (queued : Queued gone batch)
    (under : ∀ c ∈ hashes, (c ≠ 0 ∧ gone c) ∧ ∀ q ∈ path, TransGen below c q) (distinct : path.Nodup)
    (inside : path ⊆ known) (cached : ∀ h ∈ db.dirties, h ≠ 0 → h ∈ known) (deep : known.length < depth + path.length) :
    Committed below gone db order (hashes.foldlM (fun state child => commitFrom depth child state) (db, batch)) := by
  induction hashes generalizing db batch order with
  | nil => exact .inr ⟨db, batch, order, rfl, ready.flushes rfl rfl rfl rfl rfl id, queued⟩
  | cons c hashes ih =>
    have here := under c List.mem_cons_self
    rw [List.foldlM_cons]
    rcases commits ready closed queued here.1 here.2 distinct inside cached deep with
      failed | ⟨db₁, batch₁, order₁, called, flushes₁, queued₁⟩
    · left
      rw [failed]
      rfl
    · rw [called]
      rcases ih flushes₁.ready (closed.shrinks flushes₁.shrinks) queued₁ (fun c inside => under c (List.mem_cons_of_mem _ inside))
          (fun h inside => cached h (flushes₁.shrinks.mem inside)) with
        failed | ⟨db₂, batch₂, order₂, looped, flushes₂, queued₂⟩
      · exact .inl failed
      · exact .inr ⟨db₂, batch₂, order₂, looped, flushes₁.trans flushes₂, queued₂⟩

theorem commitFrom_spec (acyclic : Acyclic below) (depth : Nat) : Commits below gone depth := by
  induction depth with
  | zero =>
    intro hash db batch order path known _ _ _ _ _ distinct inside _ deep
    have := (distinct.subperm inside).length_le
    omega
  | succ depth ih =>
    intro hash db batch order path known ready closed queued ⟨notRoot, isGone⟩ under distinct inside cached deep
    rw [commitFrom]
    cases found : db.dirties.lookup hash with
    | none => exact .inr ⟨db, batch, order, rfl, ready.flushes rfl rfl rfl rfl rfl id, queued⟩
    | some node =>
      have isNew : hash ∉ path := fun again => acyclic.loopless hash (under hash again)
      have children : ∀ c ∈ node.childs db.ranged, (c ≠ 0 ∧ gone c) ∧ ∀ q ∈ hash :: path, TransGen below c q := by
        intro c isChild
        have isChild := (mem_childs node).mp isChild
        have beneath := (ready.related hash node found).1 notRoot c isChild
        refine ⟨⟨fun isRoot => acyclic.root hash (isRoot ▸ beneath), closed hash node isGone found c isChild⟩, fun q above => ?_⟩
        rcases List.mem_cons.mp above with rfl | above
        · exact .single beneath
        · exact .head beneath (under q above)
      have flushes₁ : Flushes below gone db order { db with ranged := db.ranged + 1 } order := ready.flushes rfl rfl rfl rfl rfl id
      have known₁ : hash :: path ⊆ known := List.cons_subset.mpr ⟨cached hash (mem_dirties.mpr ⟨node, found⟩) notRoot, inside⟩
      have deep₁ : known.length < depth + (hash :: path).length := by
        rw [List.length_cons]
        omega
      simp only [childs, bind, Except.bind]
      rcases Commits.loop ih (node.childs db.ranged) flushes₁.ready (closed.shrinks flushes₁.shrinks) queued children
          (List.nodup_cons.mpr ⟨isNew, distinct⟩) known₁ cached deep₁ with
        failed | ⟨db₂, batch₂, order₂, looped, flushes₂, queued₂⟩
      · left
        rw [failed]
      · rw [looped]
        rcases rlp_cases node with noCode | ⟨blob, code⟩
        · left
          simp only [noCode]
        · right
          have queued₃ := queued₂.put notRoot isGone blob
          simp only [code]
          split
          · have onDisk : Flushes below gone db₂ order₂
                { db₂ with diskdb := (batch₂.put (hashBytes hash) blob).write db₂.diskdb } order₂ :=
              flushes₂.ready.flushes rfl rfl rfl rfl rfl id
            obtain ⟨db₃, order₃, replayed, flushes₃⟩ := onDisk.ready.replay queued₃
            rw [replayed]
            exact ⟨db₃, {}, order₃, rfl, flushes₁.trans (flushes₂.trans (onDisk.trans flushes₃)), by rintro _ ⟨⟩⟩
          · exact ⟨db₂, _, order₂, rfl, flushes₁.trans flushes₂, queued₃⟩

theorem commit_spec (acyclic : Acyclic below) (ready : Ready below db [] order) (hash : Hash) :
    db.commit hash = .error .encode ∨
      ∃ db' order', db.commit hash = .ok db' ∧ Flushes below (Reaches db hash) db order db' order' := by
  obtain ⟨root, atZero, empty⟩ := ready.listed.root
  have rootIn : (0 : Hash) ∈ db.dirties.keys := AList.mem_keys.mp (mem_dirties.mpr ⟨root, atZero⟩)
  have cached : ∀ h ∈ db.dirties, h ≠ 0 → h ∈ db.dirties.keys.erase 0 := fun h inside notRoot =>
    (db.dirties.keys_nodup.mem_erase_iff).mpr ⟨notRoot, AList.mem_keys.mp inside⟩
  have fewer : (db.dirties.keys.erase 0).length + 1 = db.dirties.keys.length := by
    rw [List.length_erase_of_mem rootIn]
    have := List.length_pos_of_mem rootIn
    omega
  rw [Database.commit]
  simp only [bind, Except.bind]
  obtain ⟨disk, isDisk⟩ : ∃ disk, disk = db.putPreimages.1.write db.putPreimages.2 := ⟨_, rfl⟩
  rw [← isDisk]
  by_cases isRoot : hash = 0
  · -- the meta root has no encoding, whatever it refers to
    left
    subst isRoot
    have ready₁ : Ready below { db with diskdb := disk, ranged := db.ranged + 1 } [] order := ready.of_eq rfl rfl rfl
    have children : ∀ c ∈ root.childs db.ranged, (c ≠ 0 ∧ True) ∧ ∀ q ∈ ([] : List Hash), TransGen below c q := by
      intro c isChild
      refine ⟨⟨(ready.related 0 root atZero).2 rfl c ?_, trivial⟩, by rintro _ ⟨⟩⟩
      have noNode : root.implicit = [] := by rw [CachedNode.implicit, empty]; rfl
      have external := (mem_childs root).mp isChild
      rwa [noNode, List.append_nil] at external
    have noCode : root.rlp = .error .encode := by rw [CachedNode.rlp, empty]
    rw [commitFrom]
    simp only [atZero, childs, bind, Except.bind]
    rcases Commits.loop (commitFrom_spec acyclic db.dirties.keys.length) (root.childs db.ranged) ready₁
        (fun _ _ _ _ _ _ => trivial) (show Queued _ {} by rintro _ ⟨⟩) children List.nodup_nil
        (List.nil_subset _) cached (by rw [← fewer, List.length_nil]; omega) with failed | ⟨db₂, batch₂, -, looped, -⟩
    · rw [failed]
    · rw [looped]
      simp only [noCode]
  · have flushes₁ : Flushes below (Reaches db hash) db order { db with diskdb := disk } order :=
      ready.flushes rfl rfl rfl rfl rfl id
    rcases commitFrom_spec acyclic (db.dirties.keys.length + 1) flushes₁.ready
        (reaches_closed.shrinks flushes₁.shrinks) (show Queued _ {} by rintro _ ⟨⟩) ⟨isRoot, .root⟩
        (show ∀ q ∈ ([] : List Hash), TransGen below hash q by rintro _ ⟨⟩) List.nodup_nil
        (List.nil_subset _) cached (by rw [← fewer, List.length_nil]; omega) with
          failed | ⟨db₂, batch₂, order₂, called, flushes₂, queued₂⟩
    · left
      rw [failed]
    · right
      rw [called]
      have onDisk : Flushes below (Reaches db hash) db₂ order₂ { db₂ with diskdb := batch₂.write db₂.diskdb } order₂ :=
        flushes₂.ready.flushes rfl rfl rfl rfl rfl id
      obtain ⟨db₃, order₃, replayed, flushes₃⟩ := onDisk.ready.replay queued₂
      simp only [replayed]
      exact ⟨_, order₃, rfl, flushes₁.trans (flushes₂.trans (onDisk.trans
        (flushes₃.trans (flushes₃.ready.flushes rfl rfl rfl rfl rfl fun _ => le_rfl))))⟩

end Commit

/-! ## Capping -/

theorem capWrite_spec {before rest : List Hash} (ready : Ready below db [] (before ++ rest)) (limit : Int) {rounds : Nat}
    (enough : rest.length < rounds) (size : Int) (state : Batch × Disk) :
    db.capWrite limit rounds size (rest.headD 0) state = .error .encode ∨
      ∃ flushed kept written, rest = flushed ++ kept ∧ db.capWrite limit rounds size (rest.headD 0) state =
      .ok (kept.headD 0, written) := by
  induction rest generalizing before rounds size state with
  | nil =>
    obtain ⟨rounds, rfl⟩ := Nat.exists_eq_succ_of_ne_zero (Nat.ne_of_gt enough)
    refine .inr ⟨[], [], state, rfl, ?_⟩
    rw [capWrite, if_neg (fun more => more.2 rfl)]
    rfl
  | cons x rest ih =>
    obtain ⟨rounds, rfl⟩ := Nat.exists_eq_succ_of_ne_zero (Nat.ne_of_gt (Nat.zero_lt_of_lt enough))
    rw [capWrite]
    split
    next =>
      obtain ⟨node, found⟩ := ready.listed.cached (show x ∈ before ++ x :: rest by simp)
      have following : node.flushNext = rest.headD 0 := (next_eq found).symm.trans ready.listed.linked.at.1
      simp only [List.headD_cons, bind, Except.bind]
      rw [entry, found]
      rcases rlp_cases node with noCode | ⟨blob, code⟩
      · left
        simp only [noCode]
      · simp only [code, following]
        rcases @ih (before ++ [x]) (by rwa [List.append_assoc, List.singleton_append]) rounds (by simpa using enough) _ _ with
          failed | ⟨flushed, kept, written, split, wrote⟩
        · exact .inl failed
        · exact .inr ⟨x :: flushed, kept, written, by rw [split, List.cons_append], wrote⟩
    next => exact .inr ⟨[], x :: rest, state, rfl, rfl⟩

theorem Ready.dropFirst (ready : Ready below db [] (h :: order)) (found : db.dirties.lookup h = some node) :
    Flushes below gone db (h :: order)
      { db with
        dirties := db.dirties.erase h, oldest := db.next h, dirtiesSize := db.dirtiesSize - (32 + node.size.toNat : Nat),
        childrenSize := db.childrenSize - node.childrenSize } order := by
  obtain ⟨cached, notRoot, -⟩ := (ready.listed.covers h).mp List.mem_cons_self
  have atFirst := ready.listed.linked.first_eq.symm
  have linked := ready.listed.linked.remove_first List.mem_cons_self atFirst (fun _ _ => rfl) (fun _ _ _ => rfl)
  rw [List.erase_cons_head] at linked
  have fresh := (List.nodup_cons.mp ready.listed.linked.nodup).1
  have covers : ∀ a, a ∈ order ↔ a ∈ db.dirties ∧ a ≠ 0 ∧ a ∉ [h] := by
    intro a
    have here := ready.listed.covers a
    rw [List.mem_cons] at here
    rw [List.mem_singleton]
    by_cases same : a = h
    · subst same
      exact ⟨fun inside => absurd inside fresh, fun rest => absurd rfl rest.2.2⟩
    · simpa [same] using here
  have busy : Ready below { db with oldest := db.next h } [h] order :=
    ⟨⟨linked, covers, ready.listed.root⟩, ready.related, List.forall_mem_singleton.mpr ⟨cached, notRoot⟩, List.nodup_singleton h⟩
  exact ⟨busy.forget rfl rfl rfl, List.sublist_cons_self h order,
    ((SameContents.refl db).shrinks 0).forget ((SameContents.refl db).shrinks h) rfl,
    fun sized _ => sized.remove found notRoot rfl rfl rfl rfl⟩

theorem capClear_spec {flushed kept : List Hash} (ready : Ready below db [] (flushed ++ kept)) {rounds : Nat}
    (enough : flushed.length < rounds) :
    ∃ db', capClear (kept.headD 0) rounds db = .ok db' ∧ Flushes below gone db (flushed ++ kept) db' kept := by
  induction flushed generalizing db rounds with
  | nil =>
    obtain ⟨rounds, rfl⟩ := Nat.exists_eq_succ_of_ne_zero (Nat.ne_of_gt enough)
    have reached : db.oldest = kept.headD 0 := ready.listed.linked.starts
    rw [capClear, if_neg (not_not.mpr reached)]
    exact ⟨db, rfl, ready.flushes rfl rfl rfl rfl rfl id⟩
  | cons x flushed ih =>
    obtain ⟨rounds, rfl⟩ := Nat.exists_eq_succ_of_ne_zero (Nat.ne_of_gt (Nat.zero_lt_of_lt enough))
    have atFirst : db.oldest = x := ready.listed.linked.first_eq
    have more : db.oldest ≠ kept.headD 0 := by
      rw [atFirst]
      cases kept with
      | nil => exact ((ready.listed.covers x).mp List.mem_cons_self).2.1
      | cons k kept =>
        rintro rfl
        exact (List.nodup_cons.mp ready.listed.linked.nodup).1 (by simp)
    obtain ⟨node, found⟩ := ready.listed.cached (show x ∈ x :: flushed ++ kept by simp)
    rw [capClear, if_pos more]
    simp only [bind, Except.bind]
    rw [entry, atFirst, found]
    simp only [← next_eq found]
    have flushes₁ : Flushes below gone db _ _ _ := Ready.dropFirst ready found
    obtain ⟨db', cleared, flushes₂⟩ := ih flushes₁.ready (Nat.lt_of_succ_lt_succ enough)
    exact ⟨db', cleared, flushes₁.trans flushes₂⟩

-- The link back from the oldest entry is free.
theorem Ready.endAtFirst (ready : Ready below db [] order) (found : db.dirties.lookup db.oldest = some node) :
    Flushes below gone db order (db.setEntry db.oldest { node with flushPrev := 0 }) order := by
  have same := sameContents_setEntry found (n := { node with flushPrev := 0 }) rfl rfl rfl
  have forth := next_setEntry_same (n := { node with flushPrev := 0 }) found rfl
  refine ⟨⟨⟨ready.listed.linked.congr (fun a _ => forth a) fun a inside => ?_, fun h => ?_, same.root ready.listed.root⟩,
    ready.related.shrinks (same.shrinks 0), nofun, List.nodup_nil⟩, List.Sublist.refl order, same.shrinks 0,
    fun sized _ => sized.same same rfl rfl id⟩
  · rw [prev_setEntry, if_neg]
    rintro rfl
    cases order with
    | nil => exact absurd inside List.not_mem_nil
    | cons k order => exact (List.nodup_cons.mp ready.listed.linked.nodup).1 (ready.listed.linked.first_eq ▸ inside)
  · rw [ready.listed.covers, ← same.mem]

theorem cap_spec (ready : Ready below db [] order) (limit : Int) :
    db.cap limit = .error .encode ∨ ∃ db' order', db.cap limit = .ok db' ∧ Flushes below gone db order db' order' := by
  obtain ⟨root, atZero, -⟩ := ready.listed.root
  have short : order.length < db.dirties.keys.length + 1 := by
    have subset : order ⊆ db.dirties.keys := fun h inside => AList.mem_keys.mp ((ready.listed.covers h).mp inside).1
    have := (ready.listed.linked.nodup.subperm subset).length_le
    omega
  rw [Database.cap, consumption]
  simp only [bind, Except.bind]
  rw [entry, atZero]
  simp only [pure, Except.pure]
  obtain ⟨size, isSize⟩ : ∃ size : Int, size = db.dirtiesSize + ((db.dirties.keys.length - 1) * cachedNodeSize : Nat) +
    db.childrenSize -
    (root.external.length * childSize : Nat) := ⟨_, rfl⟩
  obtain ⟨start, isStart⟩ : ∃ start, start = if decide (db.preimagesSize > 4 * 1024 * 1024) =
    true then db.putPreimages else ({}, db.diskdb) := ⟨_, rfl⟩
  rw [← isStart, ← isSize]
  have wrote := @capWrite_spec below db [] order ready limit _ short size start
  rw [← ready.listed.linked.starts] at wrote
  rcases wrote with failed | ⟨flushed, kept, ⟨batch, disk⟩, rfl, wrote⟩
  · left
    rw [failed]
  · right
    rw [wrote]
    obtain ⟨db₁, isDb₁⟩ : ∃ db₁ : Database, db₁ = if decide (db.preimagesSize > 4 * 1024 * 1024) = true then
        { db with diskdb := batch.write disk, preimages := ∅, preimagesSize := 0 } else { db with diskdb := batch.write disk } :=
          ⟨_, rfl⟩
    have flushes₁ : Flushes below gone db (flushed ++ kept) db₁ (flushed ++ kept) := by
      rw [isDb₁]
      split
      · exact ready.flushes rfl rfl rfl rfl rfl fun _ => le_rfl
      · exact ready.flushes rfl rfl rfl rfl rfl id
    have fits : flushed.length < db.dirties.keys.length + 1 := by
      rw [List.length_append] at short
      omega
    obtain ⟨db₂, cleared, flushes₂⟩ : ∃ db', _ ∧ Flushes below gone db₁ _ db' _ := capClear_spec flushes₁.ready fits
    simp only [← isDb₁, cleared]
    split
    next more =>
      obtain ⟨node, found⟩ := flushes₂.ready.listed.cached (flushes₂.ready.listed.linked.first_mem more)
      have flushes₃ : Flushes below gone db₂ _ _ _ := flushes₂.ready.endAtFirst found
      exact ⟨_, kept, modify_eq found _, flushes₁.trans (flushes₂.trans flushes₃)⟩
    next => exact ⟨db₂, kept, rfl, flushes₁.trans flushes₂⟩

/-! ## Runs -/

end Database

-- The children of an inserted node and of a reference are below their parents.
def DbCall.Follows (below : Hash → Hash → Prop) (db : Database) : DbCall → Prop
  | .insertNode hash n => ∀ node, simplifyNode n = some node → ∀ c ∈ gatherChildren node, below c hash
  | .reference child parent => Database.Allowed below db child parent
  | _ => True

-- The size of the entry that a call adds fits in its field, no counter overflows, and a commit comes to no entry that has a map.
def DbCall.Exact (db : Database) : DbCall → Prop
  | .insertBlob _ blob => blob.length + 32 < 2 ^ 16
  | .insertNode _ n => (Rlp.encode n.item).length + 32 < 2 ^ 16
  | .reference child parent => parent = 0 → Database.Countable db child parent
  | .commit node => Database.Unmapped (Database.Reaches db node) db
  | _ => True

def DbCall.arrivals (db : Database) : DbCall → List Hash
  | .insertBlob hash _ => if (db.dirties.lookup hash).isSome then [] else [hash]
  | .insertNode hash _ => if (db.dirties.lookup hash).isSome then [] else [hash]
  | _ => []

namespace Database

variable {db db' : Database}

def isDirty (db : Database) (h : Hash) : Bool := (db.dirties.lookup h).isSome

theorem Ready.eq_filter {full : List Hash} (ready : Ready below db' [] order) (sub : order.Sublist full) (distinct : full.Nodup)
    (proper : 0 ∉ full) : order = full.filter db'.isDirty := by
  have dirty : ∀ h ∈ order, db'.isDirty h = true := fun h inside => AList.lookup_isSome.mpr ((ready.listed.covers h).mp inside).1
  have within : order.Sublist (full.filter db'.isDirty) := by
    have filtered := sub.filter db'.isDirty
    rwa [List.filter_eq_self.mpr dirty] at filtered
  refine within.eq_of_length_le (((distinct.filter _).subperm fun h inside => ?_).length_le)
  obtain ⟨inFull, dirty⟩ := List.mem_filter.mp inside
  exact (ready.listed.covers h).mpr ⟨AList.lookup_isSome.mp dirty, fun isRoot => proper (isRoot ▸ inFull), List.not_mem_nil⟩

theorem Ready.new (below : Hash → Hash → Prop) (disk : Disk) : Ready below (newDatabase disk) [] [] := by
  have only : ∀ h, h ∈ (newDatabase disk).dirties ↔ h = 0 := fun h => List.mem_singleton
  refine ⟨⟨linked_nil _ _ _ _, fun h => ?_, ⟨_, AList.lookup_insert ∅, rfl⟩⟩, fun h node found => ?_, nofun, List.nodup_nil⟩
  · rw [only]
    simp
  · obtain rfl := (only h).mp (mem_dirties.mpr ⟨node, found⟩)
    obtain rfl : _ = node := Option.some.inj ((AList.lookup_insert ∅).symm.trans found)
    exact ⟨fun notRoot => absurd rfl notRoot, fun _ => nofun⟩

theorem insertNode_cases (n : Node) (db : Database) (hash : Hash) :
    db.insertNode hash n = .error .encode ∨
      ∃ blob node, simplifyNode n = some node ∧ encodeToBytes n.item = some blob ∧ db.insertNode hash n =
      db.insert hash blob (.node node) := by
  unfold insertNode
  split
  next blob node encoded simplified => exact .inr ⟨blob, node, simplified, encoded, rfl⟩
  next => exact .inl rfl

theorem dereference_spec [RangeOrder] (acyclic : Acyclic below) (ready : Ready below db [] order) (root : Hash) :
    ∃ db' order', db.dereference root = .ok db' ∧ Ready below db' [] order' ∧ order'.Sublist order ∧ (Sized db → Sized db') := by
  rw [dereference]
  split
  next => exact ⟨db, order, rfl, ready, List.Sublist.refl order, id⟩
  next notRoot =>
    obtain ⟨db', order', called, ready', sub, -, sized⟩ :=
      dereferenceFrom_spec acyclic (db.dirties.keys.length + 1) ready nofun notRoot (.inl rfl) (Nat.lt_succ_self _)
    exact ⟨db', order', called, ready', sub, sized⟩

theorem call_spec [RangeOrder] (acyclic : Acyclic below) (ready : Ready below db [] order) (call : DbCall)
    (follows : call.Follows below db) :
    db.call call = .error .encode ∨
      ∃ db', db.call call = .ok db' ∧ Ready below db' [] ((order ++ call.arrivals db).filter db'.isDirty) ∧
        (call.Exact db → Sized db → Sized db') := by
  have proper : 0 ∉ order := ready.listed.linked.proper
  have distinct : order.Nodup := ready.listed.linked.nodup
  have removed : ∀ {db' order'}, Ready below db' [] order' → order'.Sublist order →
      Ready below db' [] ((order ++ []).filter db'.isDirty) := by
    intro db' order' ready' sub
    rw [List.append_nil, ← ready'.eq_filter sub distinct proper]
    exact ready'
  have added : ∀ {hash blob stored}, (∀ c ∈ CachedNode.implicit { node := stored }, below c hash) →
    ∃ db', db.insert hash blob stored = .ok db' ∧
      Ready below db' [] ((order ++ if (db.dirties.lookup hash).isSome then [] else [hash]).filter db'.isDirty) ∧
      (CachedNode.blobLength { node := stored } = blob.length → blob.length + 32 < 2 ^ 16 → Sized db → Sized db') := by
    intro hash blob stored under
    obtain ⟨db', inserted, ready', sized'⟩ := @insert_spec below hash order db ready blob stored under
    refine ⟨db', inserted, ?_, sized'⟩
    rw [← ready'.eq_filter (List.Sublist.refl _) ready'.listed.linked.nodup ready'.listed.linked.proper]
    exact ready'
  cases call with
  | insertBlob hash blob =>
    obtain ⟨db', inserted, ready', sized'⟩ := @added hash blob (.blob blob) nofun
    exact .inr ⟨db', inserted, ready', sized' rfl⟩
  | insertNode hash n =>
    rcases insertNode_cases n db hash with failed | ⟨blob, node, simplified, encoded, inserts⟩
    · exact .inl failed
    · obtain ⟨db', inserted, ready', sized'⟩ := @added hash blob (.node node) (follows node simplified)
      refine .inr ⟨db', inserts.trans inserted, ready', fun exact sized => ?_⟩
      have fits : (Rlp.encode n.item).length + 32 < 2 ^ 16 := exact
      obtain rfl :=
        Option.some.inj
          (encoded.symm.trans (encodeToBytes_eq (Nat.lt_trans (Nat.lt_of_le_of_lt (Nat.le_add_right ..) fits) (by decide))))
      exact sized' (congrArg (fun item => (Rlp.encode item).length) (simplifyNode_item simplified)) fits sized
  | insertPreimage hash preimage =>
    have kept : (db.insertPreimage hash preimage).dirties = db.dirties ∧ (db.insertPreimage hash preimage).oldest = db.oldest ∧
        (db.insertPreimage hash preimage).newest = db.newest ∧ (Sized db → Sized (db.insertPreimage hash preimage)) := by
      unfold insertPreimage
      split
      · exact ⟨rfl, rfl, rfl, id⟩
      · exact ⟨rfl, rfl, rfl, fun sized => sized.same (sameContents_of_eq rfl) rfl rfl fun nonneg =>
          Int.add_nonneg nonneg (Int.natCast_nonneg _)⟩
    exact .inr ⟨_, rfl, removed (ready.of_eq kept.1 kept.2.1 kept.2.2.1) (List.Sublist.refl order), fun _ => kept.2.2.2⟩
  | reference child parent =>
    obtain ⟨db', called, ready', sized'⟩ := reference_spec ready follows
    exact .inr ⟨db', called, removed ready' (List.Sublist.refl order), sized'⟩
  | dereference root =>
    obtain ⟨db', order', called, ready', sub, sized'⟩ := dereference_spec acyclic ready root
    exact .inr ⟨db', called, removed ready' sub, fun _ => sized'⟩
  | cap limit =>
    have capped : _ ∨ ∃ db' order', _ ∧ Flushes below (fun _ => False) db order db' order' := cap_spec ready limit
    rcases capped with failed | ⟨db', order', called, flushes⟩
    · exact .inl failed
    · exact .inr ⟨db', called, removed flushes.ready flushes.sublist, fun _ sized => flushes.sized sized fun _ _ none => none.elim⟩
  | commit node =>
    rcases commit_spec acyclic ready node with failed | ⟨db', order', called, flushes⟩
    · exact .inl failed
    · exact .inr ⟨db', called, removed flushes.ready flushes.sublist, fun unmapped sized => flushes.sized sized unmapped⟩

end Database

theorem Database.Sized.new (disk : Disk) : (newDatabase disk).Sized := by
  have only : ∀ {h node}, (newDatabase disk).dirties.lookup h = some node → h = 0 ∧ node.children = some ∅ := by
    intro h node found
    obtain rfl : h = 0 := List.mem_singleton.mp (AList.mem_keys.mp (Database.mem_dirties.mpr ⟨node, found⟩))
    obtain rfl : _ = node := Option.some.inj ((AList.lookup_insert ∅).symm.trans found)
    exact ⟨rfl, rfl⟩
  refine ⟨rfl, rfl, fun h node found notRoot => absurd (only found).1 notRoot, fun h node children found isMap c k lookup => ?_,
    fun node found none => ?_, le_rfl⟩
  · rw [← Option.some.inj ((only found).2.symm.trans isMap), AList.lookup_empty] at lookup
    cases lookup
  · rw [(only found).2] at none
    cases none

-- A run from a new cache whose calls all meet a condition, with the hashes of the entries in the order of insertion.
inductive Inserted [RangeOrder] (below : Hash → Hash → Prop) (meets : Database → Database → DbCall → Prop) :
    Database → List Hash → Prop where
  | new (disk : Disk) : Inserted below meets (newDatabase disk) []
  | call {db db' : Database} {order : List Hash} {call : DbCall} (run : Inserted below meets db order)
    (follows : call.Follows below db)
      (called : db.call call = .ok db') (met : meets db db' call) :
        Inserted below meets db' ((order ++ call.arrivals db).filter db'.isDirty)

variable {meets : Database → Database → DbCall → Prop}

theorem Inserted.ready [RangeOrder] (acyclic : Acyclic below) {db : Database} (run : Inserted below meets db order) :
    db.Ready below [] order := by
  induction run with
  | new disk => exact Database.Ready.new below disk
  | call run follows called _ ih =>
    rcases Database.call_spec acyclic ih _ follows with failed | ⟨db', result, ready, -⟩
    · rw [called] at failed
      cases failed
    · rw [called] at result
      cases result
      exact ready

theorem Inserted.sized [RangeOrder] (acyclic : Acyclic below) {db : Database}
    (run : Inserted below (fun db _ call => call.Exact db) db order) :
    db.Sized := by
  induction run with
  | new disk => exact Database.Sized.new disk
  | call run follows called exact ih =>
    rcases Database.call_spec acyclic (run.ready acyclic) _ follows with failed | ⟨db', result, -, sized⟩
    · rw [called] at failed
      cases failed
    · rw [called] at result
      cases result
      exact sized exact ih

end CuteEVM.Trie
