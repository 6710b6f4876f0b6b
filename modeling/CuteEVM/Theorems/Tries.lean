import CuteEVM.Theorems.Database
import CuteEVM.Trie.Codec
import CuteEVM.Trie.Shape
import CuteEVM.Trie.Updates

set_option autoImplicit false

namespace CuteEVM

namespace Trie

/-! ## A trie is a map -/

inductive Call where
  | update (key value : Bytes)
  | delete (key : Bytes)
  | get (key : Bytes)

def call (t : Trie) : Call → Except TrieErr (Option Bytes × Trie)
  | .update key value => do
    let t ← t.tryUpdate key value
    pure (none, t)
  | .delete key => do
    let t ← t.tryDelete key
    pure (none, t)
  | .get key => t.tryGet key

def run (t : Trie) : List Call → Except TrieErr (List (Option Bytes) × Trie)
  | [] => pure ([], t)
  | c :: calls => do
    let (res, t) ← t.call c
    let (results, t) ← t.run calls
    pure (res :: results, t)

-- The same calls on a map, in which no value is empty.
def mapCall (m : Bytes → Option Bytes) : Call → Option Bytes × (Bytes → Option Bytes)
  | .update key value => (none, Function.update m key (if value = [] then none else some value))
  | .delete key => (none, Function.update m key none)
  | .get key => (m key, m)

def mapRun (m : Bytes → Option Bytes) : List Call → List (Option Bytes) × (Bytes → Option Bytes)
  | [] => ([], m)
  | c :: calls => ((mapCall m c).1 :: (mapRun (mapCall m c).2 calls).1, (mapRun (mapCall m c).2 calls).2)

-- The trie is canonical, every node of it can be loaded, and its entries are those of the map.
structure Maps (t : Trie) (m : Bytes → Option Bytes) : Prop where
  canonical : t.root = .nil ∨ Sound t.db t.root
  entries : ∀ p w, Holds t.db t.root p w ↔ ∃ key, p = keybytesToHex key ∧ m key = some w

variable {t : Trie} {m : Bytes → Option Bytes}

theorem Maps.holds (maps : Maps t m) (key w : Bytes) : Holds t.db t.root (keybytesToHex key) w ↔ m key = some w := by
  rw [maps.entries]
  constructor
  · rintro ⟨_, same, found⟩
    rwa [keybytesToHex_injective same]
  · exact fun found => ⟨key, rfl, found⟩

theorem depthFor_enough (n : Node) (key : Bytes) : n.cost + 2 * key.length < depthFor key := by
  have := n.cost_le
  rw [depthFor]
  omega

-- The root after one entry was written or removed.
theorem Maps.edit {key : Bytes} {o : Option Bytes} {n : Node} (maps : Maps t m)
    (canonical : n = .nil ∨ Subtree t.db (keybytesToHex key) n)
    (edited : Edited t.db t.root (keybytesToHex key) o n) : Maps { t with root := n } (Function.update m key o) := by
  refine ⟨canonical.imp_right fun subtree => ?_, fun p w => ?_⟩
  · rwa [Subtree, if_neg (keybytesToHex_terminated key).ne_nil] at subtree
  · rw [edited, maps.entries]
    constructor
    · rintro (⟨rfl, found⟩ | ⟨other, k, rfl, found⟩)
      · exact ⟨key, rfl, by rw [Function.update_self, found]⟩
      · exact ⟨k, rfl, by rwa [Function.update_of_ne fun same => other (by rw [same])]⟩
    · rintro ⟨k, rfl, found⟩
      by_cases same : k = key
      · rw [same, Function.update_self] at found
        exact .inl ⟨by rw [same], found⟩
      · rw [Function.update_of_ne same] at found
        exact .inr ⟨fun equal => same (keybytesToHex_injective equal), k, rfl, found⟩

theorem Maps.tryDelete (maps : Maps t m) (key : Bytes) :
    ∃ t', t.tryDelete key = .ok t' ∧ Maps t' (Function.update m key none) := by
  obtain ⟨dirty, n, deleted, drops⟩ : ∃ dirty n, t.root.delete t.db (depthFor (keybytesToHex key)) [] (keybytesToHex key) =
    .ok (dirty, n) ∧
      Drops t.db t.root (keybytesToHex key) n := by
    rcases maps.canonical with empty | sound
    · rw [empty]
      exact ⟨false, .nil, rfl, fun some => absurd rfl some, fun p w => by simp, False.elim⟩
    · obtain ⟨dirty, n, deleted, drops, -⟩ := show Deletes t.db _ t.root [] _ from
        delete_spec sound (keybytesToHex_terminated key) (depthFor_enough ..)
      exact ⟨dirty, n, deleted, drops⟩
  refine ⟨{ t with root := n }, ?_, maps.edit (or_iff_not_imp_left.mpr drops.subtree) drops.edited⟩
  rw [Trie.tryDelete]
  simp only [bind, Except.bind, deleted]
  rfl

theorem Maps.tryUpdate (maps : Maps t m) (key value : Bytes) :
    ∃ t', t.tryUpdate key value = .ok t' ∧ Maps t' (Function.update m key (if value = [] then none else some value)) := by
  rw [Trie.tryUpdate]
  by_cases empty : value = []
  · rw [if_neg (not_not.mpr (List.length_eq_zero_iff.mpr empty)), if_pos empty]
    exact maps.tryDelete key
  · rw [if_pos fun none => empty (List.length_eq_zero_iff.mp none), if_neg empty]
    have terminated := keybytesToHex_terminated key
    obtain ⟨dirty, n, inserted, puts⟩ : ∃ dirty n, t.root.insert t.db (depthFor (keybytesToHex key)) [] (keybytesToHex key)
      (.value value) =
        .ok (dirty, n) ∧ Puts t.db t.root (keybytesToHex key) value n := by
      rcases maps.canonical with none | sound
      · obtain ⟨dirty, n, inserted, puts, -⟩ := show Inserts t.db (depthFor (keybytesToHex key)) .nil [] _ value from
          .nil (.inr terminated) empty
        rw [none]
        exact ⟨dirty, n, inserted, puts⟩
      · obtain ⟨dirty, n, inserted, puts, -⟩ := show Inserts t.db _ t.root [] _ value from
          insert_spec sound terminated empty (depthFor_enough ..)
        exact ⟨dirty, n, inserted, puts⟩
    refine ⟨{ t with root := n }, ?_, maps.edit (.inr puts.subtree) puts.edited⟩
    simp only [bind, Except.bind, inserted]
    rfl

theorem Maps.tryGet (maps : Maps t m) (key : Bytes) : ∃ t', t.tryGet key = .ok (m key, t') ∧ Maps t' m := by
  rcases maps.canonical with empty | sound
  · have none : m key = none := by
      by_contra found
      obtain ⟨w, found⟩ := Option.ne_none_iff_exists'.mp found
      have inside := (maps.holds key w).mpr found
      rw [empty] at inside
      exact holds_nil inside
    refine ⟨t, ?_, maps⟩
    rw [Trie.tryGet, empty, none]
    rfl
  · obtain ⟨res, n, didResolve, got, loads, holds⟩ := show Gets t.db _ t.root [] _ from
      tryGet_spec sound (keybytesToHex_terminated key) (depthFor_enough ..)
    have value : res = m key := by
      refine Option.ext fun w => ?_
      rw [holds, maps.holds]
    refine ⟨if didResolve then { t with root := n } else t, ?_, ?_⟩
    · rw [Trie.tryGet]
      simp only [bind, Except.bind, got, value, pure, Except.pure]
    · split
      · have subtree := loads.subtree _ (.of_sound sound (keybytesToHex_terminated key))
        rw [Subtree, if_neg (keybytesToHex_terminated key).ne_nil] at subtree
        exact ⟨.inr subtree, fun p w => by rw [loads.holds, maps.entries]⟩
      · exact maps

-- A trie of one entry, of which nothing is loaded yet.
def unloaded (key value : Bytes) : Trie where
  db h := some (if h = accountLeafHash then some (.short (keybytesToHex key) (.value value) { hash := some h }) else none)
  root := .hash accountLeafHash

theorem unloaded_maps {key value : Bytes} (some : value ≠ []) :
    Maps (unloaded key value) (Function.update (fun _ => none) key (.some value)) := by
  have found : (unloaded key value).db accountLeafHash =
      .some (.some (.short (keybytesToHex key) (.value value) { hash := .some accountLeafHash })) :=
    congrArg Option.some (if_pos rfl)
  refine ⟨.inr (.hash found rfl (.leaf (keybytesToHex_terminated key) some)), fun p w => ?_⟩
  rw [show (unloaded key value).root = .hash accountLeafHash from rfl, holds_hash found, holds_short]
  constructor
  · rintro ⟨q, rfl, inside⟩
    obtain ⟨rfl, rfl⟩ := holds_value.mp inside
    exact ⟨key, List.append_nil _, Function.update_self ..⟩
  · rintro ⟨k, rfl, inside⟩
    by_cases same : k = key
    · rw [same, Function.update_self] at inside
      exact ⟨[], by rw [same, List.append_nil], holds_value.mpr ⟨rfl, (Option.some.inj inside).symm⟩⟩
    · rw [Function.update_of_ne same] at inside
      cases inside

theorem Maps.run (maps : Maps t m) (calls : List Call) :
    ∃ t', t.run calls = .ok ((mapRun m calls).1, t') ∧ Maps t' (mapRun m calls).2 := by
  induction calls generalizing t m with
  | nil => exact ⟨t, rfl, maps⟩
  | cons c calls ih =>
    obtain ⟨t₁, called, maps₁⟩ : ∃ t₁, t.call c = .ok ((mapCall m c).1, t₁) ∧ Maps t₁ (mapCall m c).2 := by
      cases c with
      | update key value =>
        obtain ⟨t₁, updated, maps₁⟩ := maps.tryUpdate key value
        exact ⟨t₁, by simp only [call, bind, Except.bind, updated]; rfl, maps₁⟩
      | delete key =>
        obtain ⟨t₁, deleted, maps₁⟩ := maps.tryDelete key
        exact ⟨t₁, by simp only [call, bind, Except.bind, deleted]; rfl, maps₁⟩
      | get key => exact maps.tryGet key
    obtain ⟨t₂, ran, maps₂⟩ := ih maps₁
    refine ⟨t₂, ?_, maps₂⟩
    simp only [run, bind, Except.bind, called, ran]
    rfl

-- Whatever is loaded on the way, a trie answers as the map of what was last written under each key, and stays canonical.
theorem run_as_map (maps : Maps t m) (calls : List Call) :
    ∃ t', t.run calls = .ok ((mapRun m calls).1, t') ∧ Maps t' (mapRun m calls).2 :=
  maps.run calls

theorem run_as_map_account :
    ∃ t', (unloaded [0x14, 0x68] [0xc0]).run [.get [0x14, 0x68], .update [0x14, 0x99] [7], .delete [0x14, 0x68], .get [0x14, 0x68],
    .get [0x14, 0x99]] = .ok ([some [0xc0], none, none, none, some [7]], t') := by
  obtain ⟨t', ran, -⟩ := run_as_map (@unloaded_maps [0x14, 0x68] [0xc0] (by decide))
    [.get [0x14, 0x68], .update [0x14, 0x99] [7], .delete [0x14, 0x68], .get [0x14, 0x68], .get [0x14, 0x99]]
  exact ⟨t', ran⟩

theorem Maps.shape_unique {t' : Trie} (maps : Maps t m) (maps' : Maps t' m) :
    ∃ s, Expands t.db t.root s ∧ Expands t'.db t'.root s := by
  have same (p w : Bytes) : Holds t.db t.root p w ↔ Holds t'.db t'.root p w := (maps.entries p w).trans (maps'.entries p w).symm
  rcases maps.canonical with none | sound <;> rcases maps'.canonical with none' | sound'
  · rw [none, none']
    exact ⟨.nil, .nil, .nil⟩
  · obtain ⟨p, w, inside⟩ := sound'.entry
    exact (holds_nil (none ▸ (same p w).mpr inside)).elim
  · obtain ⟨p, w, inside⟩ := sound.entry
    exact (holds_nil (none' ▸ (same p w).mp inside)).elim
  · exact sound.shape_unique sound' same

-- Calls that come to the same map come to the same trie, whatever their order and whatever is loaded.
theorem runs_agree {t' : Trie} {m' : Bytes → Option Bytes} (maps : Maps t m) (maps' : Maps t' m') (calls calls' : List Call)
    (same : (mapRun m calls).2 = (mapRun m' calls').2) :
    ∃ u u' s, t.run calls = .ok ((mapRun m calls).1, u) ∧ t'.run calls' = .ok ((mapRun m' calls').1, u') ∧
      Expands u.db u.root s ∧ Expands u'.db u'.root s := by
  obtain ⟨u, ran, reached⟩ := maps.run calls
  obtain ⟨u', ran', reached'⟩ := maps'.run calls'
  obtain ⟨s, shapes⟩ := reached.shape_unique (same ▸ reached')
  exact ⟨u, u', s, ran, ran', shapes⟩

theorem runs_agree_account :
    ∃ u u' s, (unloaded [0x14, 0x68] [0xc0]).run [.delete [0x14, 0x68], .update [0x14, 0x99] [7]] = .ok ([none, none], u) ∧
    (unloaded [0x14, 0x99] [7]).run [] = .ok ([], u') ∧ Expands u.db u.root s ∧ Expands u'.db u'.root s := by
  refine runs_agree (@unloaded_maps [0x14, 0x68] [0xc0] (by decide)) (@unloaded_maps [0x14, 0x99] [7] (by decide)) _ _ ?_
  simp [mapRun, mapCall]

-- A node that went to the disk is read as it was in the cache.
theorem node_read_back {db db' : Database} {h : Hash} {dirty : CachedNode} {n : RawNode} {blob : Bytes}
    (cached : db.dirties.lookup h = some dirty)
    (isNode : dirty.node = .node n) (collapsed : n.Collapsed) (fits : (Rlp.encode n.item).length < 2 ^ 64)
    (code : dirty.rlp = .ok blob) (flushed : db'.dirties.lookup h = none) (written : db'.diskdb (hashBytes h) = some blob) :
    ∃ m, db.node h = some (some m) ∧ db'.node h = some (some m) := by
  obtain ⟨m, expands, decodes⟩ := decodes_of_collapsed collapsed (some h)
  have isBlob : blob = Rlp.encode n.item := by
    refine Except.ok.inj (code.symm.trans ?_)
    have encoded := encodeToBytes_eq fits
    rw [CachedNode.rlp, isNode]
    cases n with
    | nil => exact collapsed.elim
    | _ => simp only [encoded]
  have decoded : decodeNode (some h) blob = .ok m := by
    have whole := decodes [] (blob.length + 1) (by rw [isBlob]; exact Nat.lt_succ_self _)
    rw [List.append_nil, ← isBlob] at whole
    exact whole (isBlob ▸ fits)
  refine ⟨m, ?_, ?_⟩
  · simp only [Database.node, cached, CachedNode.obj, isNode, expands, Option.map_some]
  · simp only [Database.node, flushed, written, mustDecodeNode, decoded, Decoded.ok, Option.map_some]

-- A branch with two leaves that are short enough to be written in it.
def smallBranch : CachedNode where
  node := .node (.full fun i =>
    if i.val = 1 then .short [0x31] (.value [7]) else if i.val = 2 then .short [0x32] (.value [8]) else .nil)

theorem node_read_back_branch : ∃ m, ((newDatabase fun _ => none).setEntry 1 smallBranch).node 1 = some (some m) ∧
    (newDatabase fun _ => some ([0xd5, 0x80, 0xc2, 0x31, 7, 0xc2, 0x32, 8] ++ List.replicate 14 0x80)).node 1 = some (some m) := by
  have leaf : ∀ key v, hasTerm (compactToHex key) = true → RawNode.Collapsed (.short key (.value v)) := by
    intro key v ends
    rw [RawNode.Collapsed, if_pos ends]
    exact ⟨v, rfl⟩
  have collapsed : RawNode.Collapsed (.full fun i =>
      if i.val = 1 then .short [0x31] (.value [7]) else if i.val = 2 then .short [0x32] (.value [8]) else .nil) := by
    rw [RawNode.Collapsed]
    refine ⟨fun i _ => ?_, .inl rfl⟩
    split
    · exact .inr (.inr ⟨leaf _ _ (by decide), by decide⟩)
    · split
      · exact .inr (.inr ⟨leaf _ _ (by decide), by decide⟩)
      · exact .inl rfl
  exact @node_read_back _ _ _ smallBranch _ _ rfl rfl collapsed (by decide +kernel) (by decide +kernel) rfl rfl

end Trie

end CuteEVM
