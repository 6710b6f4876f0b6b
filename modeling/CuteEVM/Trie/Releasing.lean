import Mathlib.Logic.Relation
import CuteEVM.Trie.Sizes

set_option autoImplicit false

namespace CuteEVM.Trie

open Relation (TransGen)

variable {below : Hash → Hash → Prop} {child parent h : Hash} {busy order gone : List Hash}

-- No node is below itself, and the zero hash is no child.
structure Acyclic (below : Hash → Hash → Prop) : Prop where
  loopless : ∀ h, ¬ TransGen below h h
  root : ∀ h, ¬ below 0 h

/-! ## External children -/

theorem dropChild_keys (child : Hash) (children : Children) : (dropChild child children).keys ⊆ children.keys := by
  unfold dropChild
  simp only
  intro a inside
  split at inside
  next counted =>
    split at inside
    · exact ((AList.mem_erase).mp (AList.mem_keys.mpr inside)).2
    · rcases (AList.mem_insert _).mp (AList.mem_keys.mpr inside) with rfl | inside
      · rw [← AList.mem_keys, ← AList.lookup_isSome]
        cases found : children.lookup a with
        | some count => rfl
        | none => rw [found] at counted; cases counted
      · exact inside
  next => exact inside

theorem dropAll_keys (gone : List Hash) (children : Children) : (dropAll gone children).keys ⊆ children.keys := by
  induction gone generalizing children with
  | nil => exact List.Subset.refl _
  | cons c gone ih => exact List.Subset.trans (ih (dropChild c children)) (dropChild_keys c children)

namespace Database

variable {db db' db'' : Database} {node : CachedNode}

def Related (below : Hash → Hash → Prop) (db : Database) : Prop :=
  ∀ h node, db.dirties.lookup h = some node →
    (h ≠ 0 → ∀ c ∈ node.external ++ node.implicit, below c h) ∧ (h = 0 → ∀ c ∈ node.external, c ≠ 0)

-- Entries leave the cache, and `parent` loses references to some of its children. Nothing else happens to what an entry holds.
def Shrinks (db db' : Database) (parent : Hash) (gone : List Hash) : Prop :=
  ∀ h n', db'.dirties.lookup h = some n' → ∃ n, db.dirties.lookup h = some n ∧ n'.node = n.node ∧ n'.size = n.size ∧
    n'.children = if h = parent then n.children.map (dropAll gone) else n.children

theorem SameContents.shrinks (same : SameContents db db') (parent : Hash) : Shrinks db db' parent [] := by
  intro h n' found
  obtain ⟨n, found, holds, size, children⟩ := same.lookup found
  refine ⟨n, found, holds, size, children.trans ?_⟩
  split
  · cases n.children <;> rfl
  · rfl

theorem Shrinks.trans {more : List Hash} (first : Shrinks db db' parent gone) (second : Shrinks db' db'' parent more) :
    Shrinks db db'' parent (gone ++ more) := by
  intro h n₂ found
  obtain ⟨n₁, found, holds₁, size₁, children₁⟩ := second h n₂ found
  obtain ⟨n, found, holds, size, children⟩ := first h n₁ found
  refine ⟨n, found, holds₁.trans holds, size₁.trans size, ?_⟩
  rw [children₁, children]
  split
  · rw [Option.map_map]
    congr 1
    funext cs
    exact (List.foldl_append ..).symm
  · rfl

theorem Shrinks.forget {hashes : List Hash} (first : Shrinks db db' parent gone) (second : Shrinks db' db'' child hashes)
    {db₃ : Database} (erased : db₃.dirties = db''.dirties.erase child) : Shrinks db db₃ parent gone := by
  intro h n₃ found
  rw [erased, lookup_erase] at found
  split at found
  next => cases found
  next other =>
    obtain ⟨n₁, found, holds₁, size₁, children₁⟩ := second h n₃ found
    obtain ⟨n, found, holds, size, children⟩ := first h n₁ found
    rw [if_neg other] at children₁
    exact ⟨n, found, holds₁.trans holds, size₁.trans size, children₁.trans children⟩

theorem Shrinks.mem (shrinks : Shrinks db db' parent gone) (inside : h ∈ db'.dirties) : h ∈ db.dirties := by
  obtain ⟨n', found⟩ := mem_dirties.mp inside
  obtain ⟨n, found, -⟩ := shrinks h n' found
  exact mem_dirties.mpr ⟨n, found⟩

theorem Shrinks.length_le (shrinks : Shrinks db db' parent gone) : db'.dirties.keys.length ≤ db.dirties.keys.length := by
  have subset : db'.dirties.keys ⊆ db.dirties.keys := fun h inside => AList.mem_keys.mp (shrinks.mem (AList.mem_keys.mpr inside))
  exact (db'.dirties.keys_nodup.subperm subset).length_le

theorem Related.shrinks (related : Related below db) (shrinks : Shrinks db db' parent gone) : Related below db' := by
  intro h n' found
  obtain ⟨n, found, holds, -, children⟩ := shrinks h n' found
  have external : n'.external ⊆ n.external := by
    rw [CachedNode.external, CachedNode.external, children]
    cases n.children with
    | none => split <;> exact List.Subset.refl _
    | some cs =>
      split
      · exact dropAll_keys gone cs
      · exact List.Subset.refl _
  have implicit : n'.implicit = n.implicit := by rw [CachedNode.implicit, CachedNode.implicit, holds]
  obtain ⟨inner, outer⟩ := related h n found
  refine ⟨fun notRoot c inside => inner notRoot c ?_, fun isRoot c inside => outer isRoot c (external inside)⟩
  rw [implicit] at inside
  exact List.mem_append.mpr ((List.mem_append.mp inside).imp_left (external ·))

/-! ## Dereferencing -/

-- What holds while the entries of `busy` are being removed: they are out of the flush-list, and still cached.
structure Ready (below : Hash → Hash → Prop) (db : Database) (busy order : List Hash) : Prop where
  listed : Listed db busy order
  related : Related below db
  held : ∀ q ∈ busy, q ∈ db.dirties ∧ q ≠ 0
  distinct : busy.Nodup

theorem Ready.length_lt (ready : Ready below db busy order) : busy.length < db.dirties.keys.length := by
  obtain ⟨root, atZero, -⟩ := ready.listed.root
  have absent : (0 : Hash) ∉ busy := fun inside => (ready.held 0 inside).2 rfl
  have subset : (0 :: busy) ⊆ db.dirties.keys := by
    intro q inside
    rcases List.mem_cons.mp inside with rfl | inside
    · exact AList.mem_keys.mp (mem_dirties.mpr ⟨root, atZero⟩)
    · exact AList.mem_keys.mp (ready.held q inside).1
  exact ((List.nodup_cons.mpr ⟨absent, ready.distinct⟩).subperm subset).length_le

theorem Ready.of_eq (ready : Ready below db busy order) (dirties : db'.dirties = db.dirties) (oldest : db'.oldest = db.oldest)
    (newest : db'.newest = db.newest) : Ready below db' busy order := by
  have forth : db'.next = db.next := funext fun h => by rw [next, next, dirties]
  have back : db'.prev = db.prev := funext fun h => by rw [prev, prev, dirties]
  refine ⟨⟨?_, ?_, ?_⟩, ?_, ?_, ready.distinct⟩
  · rw [forth, back, oldest, newest]
    exact ready.listed.linked
  · rw [dirties]
    exact ready.listed.covers
  · rw [dirties]
    exact ready.listed.root
  · rw [Related, dirties]
    exact ready.related
  · rw [dirties]
    exact ready.held

-- The same entries with the same links, however the references have changed.
theorem Ready.setEntry (ready : Ready below db busy order) (found : db.dirties.lookup h = some node) {n : CachedNode} {size : Int}
    (holds : n.node = node.node) (forth : n.flushNext = node.flushNext) (back : n.flushPrev = node.flushPrev)
    (shrinks : Shrinks db (db.setEntry h n) parent gone) :
    Ready below { db.setEntry h n with childrenSize := size } busy order where
  listed := (ready.listed.setEntry found holds forth back).congr rfl rfl (fun _ _ => ⟨rfl, rfl⟩) (fun _ => Iff.rfl)
    (ready.listed.setEntry found holds forth back).root
  related := ready.related.shrinks shrinks
  held q inside := ⟨(mem_setEntry found n q).mpr (ready.held q inside).1, (ready.held q inside).2⟩
  distinct := ready.distinct

theorem Ready.unlink (ready : Ready below db busy order) (byParent : parent = 0 ∨ parent ∈ busy) (child : Hash) :
    ∃ db', db.unlink child parent = .ok db' ∧ Ready below db' busy order ∧ Shrinks db db' parent [child] ∧
      (Sized db → Sized db') := by
  obtain ⟨node, found⟩ : ∃ node, db.dirties.lookup parent = some node := by
    rcases byParent with rfl | inside
    · obtain ⟨root, atZero, -⟩ := ready.listed.root
      exact ⟨root, atZero⟩
    · exact mem_dirties.mp (ready.held parent inside).1
  have shrinks : Shrinks db (db.setEntry parent { node with children := node.children.map (dropChild child) }) parent [child] := by
    intro h n' lookup
    rw [lookup_setEntry] at lookup
    split at lookup
    next same =>
      cases lookup
      exact ⟨node, same ▸ found, rfl, rfl, (if_pos same).symm⟩
    next other => exact ⟨n', lookup, rfl, rfl, (if_neg other).symm⟩
  obtain ⟨db', called⟩ : ∃ db', db.unlink child parent = .ok db' := ⟨_, by rw [Database.unlink, entry, found]; rfl⟩
  have sized : Sized db → Sized db' := fun sized => sized.unlink found called
  refine ⟨db', called, ?_⟩
  rw [Database.unlink, entry, found] at called
  cases called
  refine ⟨?_, ?_, sized⟩ <;> split
  · exact ready.setEntry found rfl rfl rfl shrinks
  · exact ready.setEntry found rfl rfl rfl shrinks
  · exact shrinks
  · exact shrinks

theorem Ready.unlist (ready : Ready below db busy order) (inside : child ∈ order) (found : db.dirties.lookup child = some node) :
    ∃ db', db.unlist child node = .ok db' ∧ Ready below db' (child :: busy) (order.erase child) ∧ SameContents db db' ∧
      (Sized db → Sized db') := by
  obtain ⟨db', unlisted, listed, same, blobs, maps, preimages⟩ := ready.listed.unlist inside found
  obtain ⟨cached, notRoot, idle⟩ := (ready.listed.covers child).mp inside
  refine ⟨db', unlisted, ⟨listed, ready.related.shrinks (same.shrinks 0), ?_, List.nodup_cons.mpr ⟨idle, ready.distinct⟩⟩, same,
    fun sized => sized.same same blobs maps fun nonneg => preimages ▸ nonneg⟩
  intro q busy
  rw [same.mem]
  rcases List.mem_cons.mp busy with rfl | busy
  · exact ⟨cached, notRoot⟩
  · exact ready.held q busy

theorem Ready.forget (ready : Ready below db (child :: busy) order) (oldest : db'.oldest = db.oldest)
    (newest : db'.newest = db.newest) (erased : db'.dirties = db.dirties.erase child) : Ready below db' busy order := by
  have notRoot := (ready.held child List.mem_cons_self).2
  have kept : ∀ h, h ≠ child → db'.dirties.lookup h = db.dirties.lookup h :=
    fun h other => by rw [erased, lookup_erase, if_neg other]
  have apart : ∀ h ∈ order, h ≠ child := fun h inside same => ((ready.listed.covers h).mp inside).2.2 (same ▸ List.mem_cons_self)
  have mem : ∀ h, h ∈ db'.dirties ↔ h ≠ child ∧ h ∈ db.dirties := fun h => by rw [erased, AList.mem_erase]
  have distinct := List.nodup_cons.mp ready.distinct
  refine ⟨⟨?_, fun h => ?_, ?_⟩, ?_, fun q inside => ?_, distinct.2⟩
  · rw [oldest, newest]
    refine ready.listed.linked.congr (fun a inside => ?_) fun a inside => ?_
    · rw [next, next, kept a (apart a inside)]
    · rw [prev, prev, kept a (apart a (List.mem_of_mem_tail inside))]
  · rw [ready.listed.covers, mem, List.mem_cons]
    tauto
  · obtain ⟨root, atZero, empty⟩ := ready.listed.root
    exact ⟨root, (kept 0 notRoot.symm).trans atZero, empty⟩
  · exact fun h node found =>
      ready.related h node ((kept h fun same => by rw [same, erased, AList.lookup_erase] at found; cases found) ▸ found)
  · obtain ⟨cached, notRoot⟩ := ready.held q (List.mem_cons_of_mem child inside)
    exact ⟨(mem q).mpr ⟨fun same => distinct.1 (same ▸ inside), cached⟩, notRoot⟩

section Cascade

variable [RangeOrder]

theorem mem_childs {time : Nat} {c : Hash} (node : CachedNode) : c ∈ node.childs time ↔ c ∈ node.external ++ node.implicit := by
  rw [CachedNode.childs, List.mem_append, List.mem_append, (RangeOrder.perm time node.external).mem_iff]

def Dereferences (below : Hash → Hash → Prop) (depth : Nat) : Prop :=
  ∀ {child parent db busy order}, Ready below db busy order → (∀ q ∈ busy, TransGen below child q) → child ≠ 0 →
    (parent = 0 ∨ parent ∈ busy) → db.dirties.keys.length < depth + busy.length →
    ∃ db' order', dereferenceFrom depth child parent db = .ok db' ∧ Ready below db' busy order' ∧ order'.Sublist order ∧
      Shrinks db db' parent [child] ∧ (Sized db → Sized db')

-- The loop over the children of an entry that is being removed.
theorem Dereferences.loop {depth : Nat} (dereferences : Dereferences below depth) (hashes : List Hash)
    (ready : Ready below db (child :: busy) order)
    (under : ∀ c ∈ hashes, c ≠ 0 ∧ ∀ q ∈ child :: busy, TransGen below c q)
    (deep : db.dirties.keys.length < depth + (child :: busy).length) :
    ∃ db' order', hashes.foldlM (fun db hash => dereferenceFrom depth hash child db) db = .ok db' ∧
      Ready below db' (child :: busy) order' ∧ order'.Sublist order ∧ Shrinks db db' child hashes ∧ (Sized db → Sized db') := by
  induction hashes generalizing db order with
  | nil => exact ⟨db, order, rfl, ready, List.Sublist.refl order, (SameContents.refl db).shrinks child, id⟩
  | cons c hashes ih =>
    have here := under c List.mem_cons_self
    obtain ⟨db₁, order₁, called, ready₁, sub₁, shrinks₁, sized₁⟩ := dereferences ready here.2 here.1 (.inr List.mem_cons_self) deep
    obtain ⟨db₂, order₂, looped, ready₂, sub₂, shrinks₂, sized₂⟩ :=
      ih ready₁ (fun c inside => under c (List.mem_cons_of_mem _ inside)) (shrinks₁.length_le.trans_lt deep)
    refine ⟨db₂, order₂, ?_, ready₂, sub₂.trans sub₁, shrinks₁.trans shrinks₂, sized₂ ∘ sized₁⟩
    rw [List.foldlM_cons, called]
    exact looped

theorem dereferenceFrom_spec (acyclic : Acyclic below) (depth : Nat) : Dereferences below depth := by
  induction depth with
  | zero =>
    intro child parent db busy order ready _ _ _ deep
    have := ready.length_lt
    omega
  | succ depth ih =>
    intro child parent db busy order ready under notRoot byParent deep
    obtain ⟨db₁, unlinked, ready₁, shrinks₁, sized₁⟩ := ready.unlink byParent child
    have short := shrinks₁.length_le
    rw [dereferenceFrom, unlinked]
    simp only [bind, Except.bind]
    cases found : db₁.dirties.lookup child with
    | none => exact ⟨db₁, order, rfl, ready₁, List.Sublist.refl order, shrinks₁, sized₁⟩
    | some node =>
      -- an entry that is being removed is not below itself
      have idle : child ∉ busy := fun inside => acyclic.loopless child (under child inside)
      have inside : child ∈ order := (ready₁.listed.covers child).mpr ⟨mem_dirties.mpr ⟨node, found⟩, notRoot, idle⟩
      obtain ⟨n, isNode⟩ : ∃ n, n = if node.parents > 0 then { node with parents := node.parents - 1 } else node := ⟨_, rfl⟩
      have contents : n.node = node.node ∧ n.size = node.size ∧ n.children = node.children ∧ n.flushNext = node.flushNext ∧
          n.flushPrev = node.flushPrev := by
        rw [isNode]
        split <;> exact ⟨rfl, rfl, rfl, rfl, rfl⟩
      have same₂ := sameContents_setEntry found contents.1 contents.2.1 contents.2.2.1
      have ready₂ : Ready below (db₁.setEntry child n) busy order :=
        @Ready.setEntry below 0 child busy order [] db₁ node ready₁ found n db₁.childrenSize contents.1 contents.2.2.2.1
          contents.2.2.2.2
          (same₂.shrinks 0)
      have found₂ : (db₁.setEntry child n).dirties.lookup child = some n := (lookup_setEntry ..).trans (if_pos rfl)
      have sized₂ : Sized db → Sized (db₁.setEntry child n) := fun sized => (sized₁ sized).same same₂ rfl rfl id
      simp only [← isNode]
      split
      next =>
        obtain ⟨db₃, unlisted, ready₃, same₃, sized₃⟩ := ready₂.unlist inside found₂
        rw [unlisted]
        simp only [childs]
        have ready₄ : Ready below { db₃ with ranged := db₃.ranged + 1 } (child :: busy) (order.erase child) :=
          ready₃.of_eq rfl rfl rfl
        have children : ∀ c ∈ n.childs db₃.ranged, c ≠ 0 ∧ ∀ q ∈ child :: busy, TransGen below c q := by
          intro c isChild
          have beneath := (ready₂.related child n found₂).1 notRoot c ((mem_childs n).mp isChild)
          refine ⟨fun isRoot => acyclic.root child (isRoot ▸ beneath), fun q removed => ?_⟩
          rcases List.mem_cons.mp removed with rfl | removed
          · exact .single beneath
          · exact .head beneath (under q removed)
        have shrinks₄ : Shrinks db { db₃ with ranged := db₃.ranged + 1 } parent [child] :=
          (shrinks₁.trans ((same₂.trans same₃).shrinks parent) : Shrinks db db₃ parent [child])
        have deep₄ : db₃.dirties.keys.length < depth + (child :: busy).length := by
          have fewer : db₃.dirties.keys.length ≤ db.dirties.keys.length := Shrinks.length_le shrinks₄
          rw [List.length_cons]
          omega
        obtain ⟨db₅, order₅, looped, ready₅, sub₅, shrinks₅, sized₅⟩ :=
          Dereferences.loop ih (n.childs db₃.ranged) ready₄ children deep₄
        rw [looped]
        refine ⟨_, order₅, rfl, ?_, sub₅.trans List.erase_sublist, ?_, fun sized => ?_⟩
        · refine ready₅.forget ?_ ?_ ?_ <;> split <;> rfl
        · refine shrinks₄.forget shrinks₅ ?_
          split <;> rfl
        · -- by now the entry has lost all of its external children
          have sized₄ : Sized { db₃ with ranged := db₃.ranged + 1 } :=
            (sized₃ (sized₂ sized)).same (sameContents_of_eq rfl) rfl rfl id
          obtain ⟨n₅, found₅⟩ := mem_dirties.mp (ready₅.held child List.mem_cons_self).1
          obtain ⟨n₄, found₄, -, -, left⟩ := shrinks₅ child n₅ found₅
          obtain ⟨n₂, again, -, -, same⟩ := same₃.lookup (show db₃.dirties.lookup child = some n₄ from found₄)
          obtain rfl : n = n₂ := Option.some.inj (found₂.symm.trans again)
          have external : ∀ c ∈ n₄.external, c ∈ n.childs db₃.ranged := fun c inside =>
            (mem_childs n).mpr (List.mem_append_left _ (by rwa [CachedNode.external, same] at inside))
          have maps := sized₄.dropped found₄ notRoot external (left.trans (if_pos rfl))
          rw [found₅, Option.getD_some]
          refine (sized₅ sized₄).remove found₅ notRoot ?_ ?_ ?_ ?_
          · split <;> rfl
          · split <;> rfl
          · rw [maps]
            split <;> simp
          · split <;> rfl
      next => exact ⟨_, order, rfl, ready₂, List.Sublist.refl order, shrinks₁.trans (same₂.shrinks parent), sized₂⟩

end Cascade

end Database

end CuteEVM.Trie
