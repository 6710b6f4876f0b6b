import CuteEVM.Trie.Flushing

set_option autoImplicit false

namespace CuteEVM.Trie

/-! ## The flush-list -/

def Database.flushList (db : Database) : List Hash := LinkedList.walk 0 db.next db.dirties.keys.length db.oldest

-- In every run, the flush-list is the list of the entries in the order of their insertion, linked in both directions up
-- to the newest one, and the next call finds every entry that it follows a link to.
theorem flushList_in_order [RangeOrder] {below : Hash → Hash → Prop} (acyclic : Acyclic below) {db : Database} {order : List Hash}
    (run : Inserted below (fun _ _ _ => True) db order) :
    db.flushList = order ∧ order.Nodup ∧ (∀ h, h ∈ order ↔ h ∈ db.dirties ∧ h ≠ 0) ∧
      (order ≠ [] → order.getLast? = some db.newest) ∧
    (∀ h ∈ order, h ≠ db.oldest → db.prev h ∈ order ∧ db.next (db.prev h) = h) ∧
    (∀ h ∈ order, db.next h ≠ 0 → db.prev (db.next h) = h) ∧
    ∀ call : DbCall, call.Follows below db → (∃ db', db.call call = .ok db') ∨ db.call call = .error .encode := by
  have ready := run.ready acyclic
  have linked := ready.listed.linked
  have covers : ∀ h, h ∈ order ↔ h ∈ db.dirties ∧ h ≠ 0 := by simpa using ready.listed.covers
  refine ⟨?_, linked.nodup, covers, fun some => ?_, fun h inside later => ?_, fun h inside more => linked.prev_next inside more,
    fun call follows => ?_⟩
  · have subset : order ⊆ db.dirties.keys := fun h inside => AList.mem_keys.mp ((covers h).mp inside).1
    exact linked.walk_eq (linked.nodup.subperm subset).length_le
  · have final := List.getLast?_eq_getLast_of_ne_nil some
    rw [final, (linked.ends _ final).1]
  · exact ⟨linked.prev_mem inside later, linked.next_prev inside later⟩
  · rcases Database.call_spec acyclic ready call follows with failed | ⟨db', called, -⟩
    · exact .inr failed
    · exact .inl ⟨db', called⟩

abbrev RangeOrder.kept : RangeOrder := ⟨fun _ hashes => hashes, fun _ _ => List.Perm.refl _⟩

def invalidCodeHash : Hash := 0xbcc90f2d6dada5b18e155c17a1c0a55920aae94f39857d39d0d8ed07ae8f228b

-- The leaf of an account of address 1 with the code `fe`, and its hash.
def accountLeaf : Node :=
  .short (0x20 :: hashBytes 0x1468288056310c82aa4c01a7e12a10f8111a0560e72b700555479031b86c357d)
    (.value (0xf8 :: 0x44 :: 0x80 :: 0x80 :: 0xa0 :: hashBytes 0x56e81f171bcc55a6ff8345e692c0f86e5b48e01b996cadc001622fb5e363b421
      ++ 0xa0 :: hashBytes invalidCodeHash)) { dirty := true }

def accountLeafHash : Hash := 0x96b6799018dbb53598a6e0ba3ce6f68cb6440a8618f9181df563f5c52a9b3ef4

-- The code is below the account, and nothing else is.
def ofAccount (child parent : Hash) : Prop := child = invalidCodeHash ∧ parent = accountLeafHash

theorem ofAccount_acyclic : Acyclic ofAccount where
  loopless h loop := by
    obtain ⟨_, first, -⟩ := Relation.TransGen.head'_iff.mp loop
    obtain ⟨_, -, last⟩ := Relation.TransGen.tail'_iff.mp loop
    exact absurd (first.1.symm.trans last.2) (by decide)
  root h below := absurd below.1 (by decide)

theorem accountLeaf_follows (db : Database) : (DbCall.insertNode accountLeafHash accountLeaf).Follows ofAccount db := by
  intro node simplified
  cases simplified
  exact nofun

-- The cache that holds the account and its code.
def accountDb : Except DbFault Database :=
  [DbCall.insertBlob invalidCodeHash [0xfe], .insertNode accountLeafHash accountLeaf,
    .reference invalidCodeHash accountLeafHash].foldlM (@Database.call RangeOrder.kept) (newDatabase fun _ => none)

theorem account_inserted {meets : Database → Database → DbCall → Prop}
    (meet : ∀ db db' call, DbCall.Exact db call → meets db db' call) :
    ∃ db, accountDb = .ok db ∧ @Inserted RangeOrder.kept ofAccount meets db [invalidCodeHash, accountLeafHash] := by
  let order := RangeOrder.kept
  have coded := @Inserted.call _ ofAccount meets _ _ _ (.insertBlob invalidCodeHash [0xfe]) (.new fun _ => none) trivial rfl
    (meet _ _ _ (show 1 + 32 < 2 ^ 16 by decide))
  have stored := @Inserted.call _ ofAccount _ _ _ _ (.insertNode accountLeafHash accountLeaf) coded (accountLeaf_follows _) rfl
    (meet _ _ _ (show (Rlp.encode accountLeaf.item).length + 32 < 2 ^ 16 by decide +kernel))
  have referred := @Inserted.call _ ofAccount _ _ _ _ (.reference invalidCodeHash accountLeafHash) stored
    (.inr ⟨AList.lookup_isSome.mp (by decide), by decide, rfl, rfl⟩) rfl (meet _ _ _ fun isRoot => absurd isRoot (by decide))
  exact ⟨_, rfl, referred⟩

theorem flushList_in_order_account :
    ∃ db, @Inserted RangeOrder.kept ofAccount (fun _ _ _ => True) db [invalidCodeHash, accountLeafHash] ∧
    db.flushList = [invalidCodeHash, accountLeafHash] := by
  let order := RangeOrder.kept
  obtain ⟨db, -, inserted⟩ := account_inserted fun _ _ _ _ => trivial
  exact ⟨db, inserted, (flushList_in_order ofAccount_acyclic inserted).1⟩

/-! ## The sizes of the cache -/

-- In every run in which sizes and counters fit and a commit comes to no entry that has a map, the two sizes are those of the
-- entries, and `Size` reports nothing negative.
theorem sizes_exact [RangeOrder] {below : Hash → Hash → Prop} (acyclic : Acyclic below) {db : Database} {order : List Hash}
    (run : Inserted below (fun db _ call => call.Exact db) db order) :
    db.dirtiesSize = Totals.total blobPart db.dirties ∧ db.childrenSize = Totals.total childrenPart db.dirties ∧
    ((∀ h ∈ db.dirties, h = 0) → (∀ root, db.dirties.lookup 0 = some root → root.external = []) → db.dirtiesSize = 0 ∧
      db.childrenSize = 0) ∧ ∃ consumed preimages, db.size = .ok (consumed, preimages) ∧ 0 ≤ consumed ∧ 0 ≤ preimages := by
  have sized := run.sized acyclic
  obtain ⟨root, atZero, -⟩ := (run.ready acyclic).listed.root
  refine ⟨sized.blobs, sized.maps, fun only unreferenced => ?_, ?_⟩
  · have nothing (f : Hash → CachedNode → Int) (none : f 0 root = 0) : Totals.total f db.dirties = 0 := by
      refine Finset.sum_eq_zero fun h inside => ?_
      obtain rfl := only h (AList.mem_keys.mpr (List.mem_toFinset.mp inside))
      rw [atZero]
      exact none
    have noMap : childrenPart 0 root = 0 := by rw [childrenPart, unreferenced root atZero]; simp
    exact ⟨sized.blobs.trans (nothing blobPart rfl), sized.maps.trans (nothing childrenPart noMap)⟩
  · have blobs : 0 ≤ db.dirtiesSize := by
      rw [sized.blobs]
      refine Totals.total_nonneg (fun h n => ?_) db.dirties
      rw [blobPart]
      split <;> omega
    have maps : 34 * (root.external.length : Int) ≤ db.childrenSize := by
      have part := Totals.le_total (f := childrenPart) (fun h n => ?_) db.dirties 0
      · rw [atZero, Option.elim_some, childrenPart, if_pos (.inl rfl), Int.zero_add] at part
        rwa [sized.maps]
      · rw [childrenPart]
        split <;> omega
    rw [Database.size, Database.consumption, Database.entry, atZero]
    refine ⟨_, _, rfl, ?_, sized.preimages⟩
    rw [childSize, cachedNodeSize]
    omega

theorem sizes_exact_account : ∃ db, @Inserted RangeOrder.kept ofAccount (fun db _ call => call.Exact db) db
    [invalidCodeHash, accountLeafHash] ∧ db.childrenSize = Totals.total childrenPart db.dirties := by
  let order := RangeOrder.kept
  obtain ⟨db, -, inserted⟩ := account_inserted fun _ _ _ exact => exact
  exact ⟨db, inserted, (sizes_exact ofAccount_acyclic inserted).2.1⟩

-- The map of a committed account is taken off the size of the blobs.
theorem sizes_after_commit : ∃ db order, @Inserted RangeOrder.kept ofAccount (fun _ _ _ => True) db order ∧
    db.dirties.keys = [0] ∧ db.dirtiesSize = -82 ∧ db.childrenSize = 82 := by
  let order := RangeOrder.kept
  obtain ⟨db, made, inserted⟩ := account_inserted fun _ _ _ _ => trivial
  have result : (accountDb.bind fun db => db.call (.commit accountLeafHash)).toOption.any
      fun db : Database => db.dirties.keys = [0] ∧ db.dirtiesSize = -82 ∧ db.childrenSize = 82 := by decide +kernel
  rw [made, Except.bind] at result
  cases committed : db.call (.commit accountLeafHash) with
  | error fault =>
    rw [committed] at result
    cases result
  | ok db' =>
    rw [committed] at result
    exact ⟨db', _, inserted.call (show (DbCall.commit accountLeafHash).Follows ofAccount db from trivial) committed trivial,
      of_decide_eq_true result⟩

end CuteEVM.Trie
