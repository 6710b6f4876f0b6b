import CuteEVM.Shared.LinkedList
import CuteEVM.Trie.Database

set_option autoImplicit false

namespace CuteEVM.Trie

open LinkedList

namespace Database

variable {db db' : Database} {h x child parent : Hash} {node : CachedNode} {busy order : List Hash}

def next (db : Database) (h : Hash) : Hash := (db.dirties.lookup h).elim 0 CachedNode.flushNext

def prev (db : Database) (h : Hash) : Hash := (db.dirties.lookup h).elim 0 CachedNode.flushPrev

theorem lookup_setEntry (db : Database) (h a : Hash) (node : CachedNode) :
    (db.setEntry h node).dirties.lookup a = if a = h then some node else db.dirties.lookup a := by
  by_cases same : a = h
  · rw [if_pos same, same]
    exact AList.lookup_insert _
  · rw [if_neg same]
    exact AList.lookup_insert_ne same

theorem lookup_erase (dirties : AList fun _ : Hash => CachedNode) (h a : Hash) :
    (dirties.erase h).lookup a = if a = h then none else dirties.lookup a := by
  by_cases same : a = h
  · rw [if_pos same, same]
    exact AList.lookup_erase _ _
  · rw [if_neg same]
    exact AList.lookup_erase_ne same

theorem mem_dirties : h ∈ db.dirties ↔ ∃ node, db.dirties.lookup h = some node := by
  rw [← AList.lookup_isSome, Option.isSome_iff_exists]

theorem next_eq (found : db.dirties.lookup h = some node) : db.next h = node.flushNext := by rw [next, found]; rfl

theorem prev_eq (found : db.dirties.lookup h = some node) : db.prev h = node.flushPrev := by rw [prev, found]; rfl

theorem modify_eq (found : db.dirties.lookup h = some node) (change : CachedNode → CachedNode) :
    db.modify h change = .ok (db.setEntry h (change node)) := by
  rw [modify, entry, found]
  rfl

/-! ## Entries that keep what they hold -/

-- The same entries with the same contents. Their links and the numbers of their parents may differ.
def SameContents (db db' : Database) : Prop :=
  ∀ h, (db'.dirties.lookup h).map (fun n => (n.node, n.size, n.children)) =
    (db.dirties.lookup h).map (fun n => (n.node, n.size, n.children))

theorem SameContents.refl (db : Database) : SameContents db db := fun _ => rfl

theorem sameContents_of_eq (dirties : db'.dirties = db.dirties) : SameContents db db' := fun h => by rw [dirties]

theorem SameContents.trans {db'' : Database} (first : SameContents db db') (second : SameContents db' db'') :
    SameContents db db'' :=
  fun h => (second h).trans (first h)

theorem SameContents.lookup (same : SameContents db db') (found : db'.dirties.lookup h = some node) :
    ∃ n, db.dirties.lookup h = some n ∧ node.node = n.node ∧ node.size = n.size ∧ node.children = n.children := by
  have here := same h
  rw [found] at here
  cases old : db.dirties.lookup h with
  | none => rw [old] at here; cases here
  | some n =>
    rw [old] at here
    simp only [Option.map_some, Option.some.injEq, Prod.mk.injEq] at here
    exact ⟨n, rfl, here⟩

theorem SameContents.mem (same : SameContents db db') : h ∈ db'.dirties ↔ h ∈ db.dirties := by
  have here := congrArg Option.isSome (same h)
  simp only [Option.isSome_map] at here
  rw [← AList.lookup_isSome, ← AList.lookup_isSome, here]

theorem SameContents.root (same : SameContents db db') (root : ∃ node, db.dirties.lookup 0 = some node ∧ node.node = .node .nil) :
    ∃ node, db'.dirties.lookup 0 = some node ∧ node.node = .node .nil := by
  obtain ⟨root, atZero, empty⟩ := root
  obtain ⟨node, found⟩ := mem_dirties.mp (same.mem.mpr (mem_dirties.mpr ⟨root, atZero⟩))
  obtain ⟨old, atOld, holds, -⟩ := same.lookup found
  obtain rfl : root = old := Option.some.inj (atZero.symm.trans atOld)
  exact ⟨node, found, holds.trans empty⟩

theorem sameContents_setEntry (found : db.dirties.lookup h = some node) {n : CachedNode} (holds : n.node = node.node)
    (size : n.size = node.size) (children : n.children = node.children) : SameContents db (db.setEntry h n) := by
  intro a
  rw [lookup_setEntry]
  split
  next same => rw [same, found, Option.map_some, Option.map_some, holds, size, children]
  next => rfl

/-! ## The flush-list -/

-- The flush-list goes through all entries in this order, but for the meta root and the entries that are being removed.
structure Listed (db : Database) (busy order : List Hash) : Prop where
  linked : Linked 0 db.next db.prev db.oldest db.newest order
  covers : ∀ h, h ∈ order ↔ h ∈ db.dirties ∧ h ≠ 0 ∧ h ∉ busy
  root : ∃ node, db.dirties.lookup 0 = some node ∧ node.node = .node .nil

theorem Listed.cached (listed : Listed db busy order) (inside : h ∈ order) : ∃ node, db.dirties.lookup h = some node :=
  mem_dirties.mp ((listed.covers h).mp inside).1

theorem Listed.congr (listed : Listed db busy order) (oldest : db'.oldest = db.oldest) (newest : db'.newest = db.newest)
    (links : ∀ h ∈ order, db'.next h = db.next h ∧ db'.prev h = db.prev h) (mem : ∀ h, h ∈ db'.dirties ↔ h ∈ db.dirties)
    (root : ∃ node, db'.dirties.lookup 0 = some node ∧ node.node = .node .nil) : Listed db' busy order where
  linked := by
    rw [oldest, newest]
    exact listed.linked.congr (fun a inside => (links a inside).1) fun a inside => (links a (List.mem_of_mem_tail inside)).2
  covers h := by rw [mem, listed.covers]
  root := root

theorem next_setEntry (db : Database) (h a : Hash) (n : CachedNode) :
    (db.setEntry h n).next a = if a = h then n.flushNext else db.next a := by
  rw [next, lookup_setEntry]
  split <;> rfl

theorem prev_setEntry (db : Database) (h a : Hash) (n : CachedNode) :
    (db.setEntry h n).prev a = if a = h then n.flushPrev else db.prev a := by
  rw [prev, lookup_setEntry]
  split <;> rfl

theorem next_setEntry_same (found : db.dirties.lookup h = some node) {n : CachedNode} (same : n.flushNext = node.flushNext)
    (a : Hash) :
    (db.setEntry h n).next a = db.next a := by
  rw [next_setEntry]
  split
  next here => rw [here, next_eq found, same]
  next => rfl

theorem prev_setEntry_same (found : db.dirties.lookup h = some node) {n : CachedNode} (same : n.flushPrev = node.flushPrev)
    (a : Hash) :
    (db.setEntry h n).prev a = db.prev a := by
  rw [prev_setEntry]
  split
  next here => rw [here, prev_eq found, same]
  next => rfl

theorem mem_setEntry (found : db.dirties.lookup h = some node) (n : CachedNode) (a : Hash) :
    a ∈ (db.setEntry h n).dirties ↔ a ∈ db.dirties := by
  rw [mem_dirties, mem_dirties, lookup_setEntry]
  split
  next same => exact ⟨fun _ => ⟨node, same ▸ found⟩, fun _ => ⟨n, rfl⟩⟩
  next => rfl

theorem Listed.setEntry (listed : Listed db busy order) (found : db.dirties.lookup h = some node) {n : CachedNode}
    (holds : n.node = node.node)
    (forth : n.flushNext = node.flushNext) (back : n.flushPrev = node.flushPrev) : Listed (db.setEntry h n) busy order := by
  refine listed.congr rfl rfl (fun a _ => ⟨next_setEntry_same found forth a, prev_setEntry_same found back a⟩)
    (mem_setEntry found n) ?_
  · obtain ⟨root, atZero, empty⟩ := listed.root
    rw [lookup_setEntry]
    split
    next same =>
      obtain rfl : root = node := Option.some.inj ((same ▸ atZero).symm.trans found)
      exact ⟨n, rfl, holds.trans empty⟩
    next => exact ⟨root, atZero, empty⟩

-- The neighbours of an entry have entries: at an end of the list, that is the meta root.
theorem Listed.next_cached (listed : Listed db busy order) (inside : x ∈ order) :
    ∃ node, db.dirties.lookup (db.next x) = some node := by
  rcases listed.linked.next_cases inside with final | further
  · obtain ⟨root, atZero, -⟩ := listed.root
    exact ⟨root, final ▸ atZero⟩
  · exact listed.cached further

theorem Listed.last (listed : Listed db busy order) (inside : x ∈ order) : x = db.newest ↔ db.next x = 0 := by
  have final := List.getLast?_eq_getLast_of_ne_nil (List.ne_nil_of_mem inside)
  obtain ⟨isLast, ended⟩ := listed.linked.ends _ final
  refine ⟨fun same => same ▸ isLast ▸ ended, fun noNext => ?_⟩
  obtain ⟨before, rest, rfl⟩ := List.append_of_mem inside
  rw [listed.linked.at.1] at noNext
  cases rest with
  | nil => rw [isLast]; simp
  | cons b rest => exact absurd (show (0 : Hash) ∈ before ++ x :: b :: rest from noNext ▸ by simp) listed.linked.proper

-- The entry is still cached, but it is out of the list.
theorem Listed.without (listed : Listed db busy order) (same : SameContents db db')
    (linked : Linked 0 db'.next db'.prev db'.oldest db'.newest (order.erase x)) : Listed db' (x :: busy) (order.erase x) where
  linked := linked
  covers h := by
    rw [listed.linked.nodup.mem_erase_iff, listed.covers, same.mem, List.mem_cons]
    tauto
  root := same.root listed.root

theorem Listed.unlist (listed : Listed db busy order) (inside : x ∈ order) (found : db.dirties.lookup x = some node) :
    ∃ db', db.unlist x node = .ok db' ∧ Listed db' (x :: busy) (order.erase x) ∧ SameContents db db' ∧
      db'.dirtiesSize = db.dirtiesSize ∧ db'.childrenSize = db.childrenSize ∧ db'.preimagesSize = db.preimagesSize := by
  obtain ⟨after, atNext⟩ := listed.next_cached inside
  rw [Database.unlist, ← next_eq found, ← prev_eq found]
  split
  next oldest =>
    have atNext : ({ db with oldest := db.next x } : Database).dirties.lookup (db.next x) = some after := atNext
    have same := sameContents_setEntry atNext (n := { after with flushPrev := 0 }) rfl rfl rfl
    refine ⟨_, modify_eq atNext _, listed.without same (listed.linked.remove_first inside oldest (fun a _ => ?_) fun a _ other =>
      ?_), same, rfl, rfl, rfl⟩
    · exact next_setEntry_same (n := { after with flushPrev := 0 }) atNext rfl a
    · rw [prev_setEntry, if_neg other]
      rfl
  next later =>
    obtain ⟨before, atPrev⟩ := listed.cached (listed.linked.prev_mem inside later)
    split
    next newest =>
      have final := (listed.last inside).mp newest
      have atPrev : ({ db with newest := db.prev x } : Database).dirties.lookup (db.prev x) = some before := atPrev
      have same := sameContents_setEntry atPrev (n := { before with flushNext := 0 }) rfl rfl rfl
      refine ⟨_, modify_eq atPrev _, listed.without same ?_, same, rfl, rfl, rfl⟩
      refine listed.linked.remove_later inside later (fun a _ other => ?_) ?_ (fun a _ _ => ?_)
        (fun further => absurd final further) (if_pos final).symm
      · rw [next_setEntry, if_neg other]
        rfl
      · rw [next_setEntry, if_pos rfl, final]
      · exact prev_setEntry_same (n := { before with flushNext := 0 }) atPrev rfl a
    next notNewest =>
      have further : db.next x ≠ 0 := fun final => notNewest ((listed.last inside).mpr final)
      have sameFirst := sameContents_setEntry atPrev (n := { before with flushNext := db.next x }) rfl rfl rfl
      obtain ⟨after, atNext⟩ :=
        mem_dirties.mp ((mem_setEntry atPrev { before with flushNext := db.next x } _).mpr (mem_dirties.mpr ⟨after, atNext⟩))
      have sameSecond := sameContents_setEntry atNext (n := { after with flushPrev := db.prev x }) rfl rfl rfl
      have forth := next_setEntry_same (n := { after with flushPrev := db.prev x }) atNext rfl
      have back := prev_setEntry_same (n := { before with flushNext := db.next x }) atPrev rfl
      refine ⟨_, ?_, listed.without (sameFirst.trans sameSecond) ?_, sameFirst.trans sameSecond, rfl, rfl, rfl⟩
      · rw [modify_eq atPrev]
        exact modify_eq atNext _
      refine listed.linked.remove_later inside later (fun a _ other => ?_) ?_ (fun a _ other => ?_) (fun _ => ?_)
        (if_neg further).symm
      · rw [forth, next_setEntry, if_neg other]
      · rw [forth, next_setEntry, if_pos rfl]
      · rw [prev_setEntry, if_neg other, back]
      · rw [prev_setEntry, if_pos rfl]

end Database

end CuteEVM.Trie
