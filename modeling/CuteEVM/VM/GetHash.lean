import CuteEVM.VM.Words

set_option autoImplicit false

-- The closure of `core.GetHashFn`.

namespace CuteEVM

structure Header where
  parentHash : Hash
  number : Nat
  deriving DecidableEq, Repr

-- The only method of `ChainContext` that the walk calls.
structure ChainContext where
  getHeader : Hash → Nat → Option Header

namespace GetHash

-- The number that is asked of the chain, `header.Number.Uint64() - 1` as an `uint64`.
def before (header : Header) : Nat := (header.number % 2 ^ 64 + (2 ^ 64 - 1)) % 2 ^ 64

abbrev Cache := Nat → Option Hash

def Cache.set (cache : Cache) (number : Nat) (hash : Hash) : Cache :=
  fun n => if n = number then some hash else cache n

def walk (chain : ChainContext) (n : Nat) : Nat → Option Header → Cache → Option (Cache × Hash)
  | 0, _, _ => none
  | _ + 1, none, cache => some (cache, 0)
  | fuel + 1, some header, cache =>
    let cache := cache.set (before header) header.parentHash
    if n = before header then some (cache, header.parentHash)
    else walk chain n fuel (chain.getHeader header.parentHash (before header)) cache

def entries (ref : Header) : Option Cache → Cache
  | none => Cache.set (fun _ => none) (before ref) ref.parentHash
  | some cache => cache

def query (ref : Header) (chain : ChainContext) (fuel : Nat) (cache : Option Cache) (n : Nat) : Option (Cache × Hash) :=
  match entries ref cache n with
  | some hash => some (entries ref cache, hash)
  | none => walk chain n fuel (chain.getHeader ref.parentHash (before ref)) (entries ref cache)

def queries (ref : Header) (chain : ChainContext) (fuel : Nat) : Option Cache → List Nat → Option (List Hash)
  | _, [] => some []
  | cache, n :: ns => do
    let (cache, hash) ← query ref chain fuel cache n
    let hashes ← queries ref chain fuel (some cache) ns
    return hash :: hashes

-- The header so many blocks below, if it and those between are there.
def ancestor (ref : Header) (chain : ChainContext) : Nat → Option Header
  | 0 => some ref
  | depth + 1 => (ancestor ref chain depth).bind fun header => chain.getHeader header.parentHash (before header)

-- The chain knows a header by its hash and its number, and none below the first one.
structure Linked (chain : ChainContext) : Prop where
  number : ∀ hash number header, chain.getHeader hash number = some header → header.number = number
  genesis : ∀ header : Header, header.number = 0 → chain.getHeader header.parentHash (2 ^ 64 - 1) = none

-- What the walk finds out about a number. Number `2 ^ 64 - 1` stands for the parent of the first block.
def answer (ref : Header) (chain : ChainContext) (n : Nat) : Hash :=
  let height := (n + 1) % 2 ^ 64
  if height ≤ ref.number then ((ancestor ref chain (ref.number - height)).map (·.parentHash)).getD 0 else 0

section Walk

variable {ref : Header} {chain : ChainContext}
variable {header : Header}


theorem before_zero (first : header.number = 0) : before header = 2 ^ 64 - 1 := by
  rw [before, first]
  decide

theorem before_pos (small : header.number < 2 ^ 64) (later : header.number ≠ 0) : before header = header.number - 1 := by
  rw [before, Nat.mod_eq_of_lt small]
  omega

theorem before_succ (small : header.number < 2 ^ 64) : (before header + 1) % 2 ^ 64 = header.number := by
  by_cases first : header.number = 0
  · rw [before_zero first, first]
    decide
  · rw [before_pos small first, Nat.sub_add_cancel (Nat.pos_of_ne_zero first), Nat.mod_eq_of_lt small]

theorem answer_of_lt (small : ref.number < 2 ^ 64) {n : Nat} (below : n < ref.number) :
    answer ref chain n = ((ancestor ref chain (ref.number - (n + 1))).map (·.parentHash)).getD 0 := by
  simp only [answer, Nat.mod_eq_of_lt (show n + 1 < 2 ^ 64 by omega)]
  exact if_pos (Nat.succ_le_of_lt below)

theorem answer_of_ge {n : Nat} (above : ref.number ≤ n) (bounded : n < 2 ^ 64 - 1) : answer ref chain n = 0 := by
  simp only [answer, Nat.mod_eq_of_lt (show n + 1 < 2 ^ 64 by omega)]
  exact if_neg (by omega)

theorem ancestor_number (linked : Linked chain) (small : ref.number < 2 ^ 64) {depth : Nat}
    (found : ancestor ref chain depth = some header) : header.number + depth = ref.number := by
  induction depth generalizing header with
  | zero =>
    obtain rfl := Option.some.inj found
    rfl
  | succ depth ih =>
    obtain ⟨child, above, found⟩ := Option.bind_eq_some_iff.mp found
    have height := ih above
    by_cases first : child.number = 0
    · rw [before_zero first, linked.genesis child first] at found
      cases found
    · have number := linked.number _ _ _ found
      rw [before_pos (by omega) first] at number
      omega

theorem answer_before (linked : Linked chain) (small : ref.number < 2 ^ 64) {depth : Nat}
    (found : ancestor ref chain depth = some header) : answer ref chain (before header) = header.parentHash := by
  have height := ancestor_number linked small found
  have there : ref.number - header.number = depth := by omega
  simp only [answer, before_succ (show header.number < 2 ^ 64 by omega)]
  rw [if_pos (by omega), there, found]
  rfl

structure Sound (ref : Header) (chain : ChainContext) (cache : Cache) : Prop where
  entries : ∀ n hash, cache n = some hash → hash = answer ref chain n
  parent : (cache (before ref)).isSome

theorem Cache.set_eq_some {cache : Cache} {number n : Nat} {hash hash' : Hash} (entry : cache.set number hash n = some hash') :
    n = number ∧ hash = hash' ∨ cache n = some hash' := by
  unfold Cache.set at entry
  split at entry
  · next here => exact .inl ⟨here, Option.some.inj entry⟩
  · exact .inr entry

theorem sound_new (linked : Linked chain) (small : ref.number < 2 ^ 64) : Sound ref chain (entries ref none) := by
  refine ⟨fun n hash entry => ?_, by rw [entries, Cache.set, if_pos rfl]; rfl⟩
  rw [entries] at entry
  rcases Cache.set_eq_some entry with ⟨here, same⟩ | missing
  · rw [here, ← same]
    exact (answer_before linked small (show ancestor ref chain 0 = some ref from rfl)).symm
  · cases missing

theorem Sound.set (linked : Linked chain) (small : ref.number < 2 ^ 64) {cache : Cache} (sound : Sound ref chain cache)
    {depth : Nat} (found : ancestor ref chain depth = some header) :
    Sound ref chain (cache.set (before header) header.parentHash) := by
  refine ⟨fun n hash entry => ?_, ?_⟩
  · rcases Cache.set_eq_some entry with ⟨here, same⟩ | entry
    · rw [here, ← same]
      exact (answer_before linked small found).symm
    · exact sound.entries n hash entry
  · unfold Cache.set
    split
    · rfl
    · exact sound.parent

theorem ancestor_none {depth more : Nat} (missing : ancestor ref chain depth = none) (below : depth ≤ more) :
    ancestor ref chain more = none := by
  induction more, below using Nat.le_induction with
  | base => exact missing
  | succ more _ ih => rw [ancestor, ih, Option.bind_none]

def Passed (ref : Header) (chain : ChainContext) (n depth : Nat) : Prop :=
  ∀ depth' < depth, ∀ header, ancestor ref chain depth' = some header → n ≠ before header

theorem Passed.succ {n depth : Nat} (passed : Passed ref chain n depth) (found : ancestor ref chain depth = some header)
    (other : n ≠ before header) : Passed ref chain n (depth + 1) := by
  intro depth' above header' found'
  rcases Nat.lt_succ_iff_lt_or_eq.mp above with above | rfl
  · exact passed depth' above header' found'
  · obtain rfl := Option.some.inj (found.symm.trans found')
    exact other

theorem answer_missing (linked : Linked chain) (small : ref.number < 2 ^ 64) {n depth : Nat} (bounded : n < 2 ^ 64)
    (passed : Passed ref chain n depth) (missing : ancestor ref chain depth = none) : answer ref chain n = 0 := by
  simp only [answer]
  split
  · next within =>
    cases found : ancestor ref chain (ref.number - (n + 1) % 2 ^ 64) with
    | none => rfl
    | some header =>
      -- then the block is above the end of the walk, which passed it
      have above : ref.number - (n + 1) % 2 ^ 64 < depth := by
        by_contra below
        rw [ancestor_none missing (by omega)] at found
        cases found
      refine absurd ?_ (passed _ above header found)
      have height := ancestor_number linked small found
      have number : header.number = (n + 1) % 2 ^ 64 := by omega
      rw [before, number]
      omega
  · rfl

theorem walk_answer (linked : Linked chain) (small : ref.number < 2 ^ 64) {n : Nat} (bounded : n < 2 ^ 64) {fuel depth : Nat}
    {cache : Cache}
    (enough : ref.number + 1 < fuel + depth) (reached : depth ≤ ref.number + 1) (sound : Sound ref chain cache)
    (passed : Passed ref chain n depth) :
    ∃ cache', walk chain n fuel (ancestor ref chain depth) cache = some (cache', answer ref chain n) ∧ Sound ref chain cache' := by
  induction fuel generalizing depth cache with
  | zero => omega
  | succ fuel ih =>
    cases found : ancestor ref chain depth with
    | none => exact ⟨cache, by rw [walk, answer_missing linked small bounded passed found], sound⟩
    | some header =>
      have sound' := sound.set linked small found
      by_cases here : n = before header
      · exact ⟨_, by rw [walk, if_pos here, here, answer_before linked small found], sound'⟩
      · rw [walk, if_neg here]
        have next : chain.getHeader header.parentHash (before header) = ancestor ref chain (depth + 1) := by
          rw [ancestor, found, Option.bind_some]
        have height := ancestor_number linked small found
        rw [next]
        exact ih (by omega) (by omega) sound' (passed.succ found here)

theorem query_answer (linked : Linked chain) (small : ref.number < 2 ^ 64) {n : Nat} (bounded : n < 2 ^ 64) {fuel : Nat}
    (enough : ref.number < fuel) {cache : Option Cache} (sound : Sound ref chain (entries ref cache)) :
    ∃ cache', query ref chain fuel cache n = some (cache', answer ref chain n) ∧ Sound ref chain cache' := by
  unfold query
  cases entry : entries ref cache n with
  | some hash => exact ⟨entries ref cache, by rw [sound.entries n hash entry], sound⟩
  | none =>
    -- the map would have known the parent of `ref`
    have passed : Passed ref chain n 1 := by
      intro depth above header found here
      obtain rfl : depth = 0 := Nat.lt_one_iff.mp above
      obtain rfl := Option.some.inj found
      have parent := sound.parent
      rw [← here, entry] at parent
      cases parent
    exact walk_answer linked small bounded (show ref.number + 1 < fuel + 1 by omega) (Nat.le_add_left 1 _) sound passed

theorem queries_answer (linked : Linked chain) (small : ref.number < 2 ^ 64) {fuel : Nat} (enough : ref.number < fuel)
    {ns : List Nat} (bounded : ∀ n ∈ ns, n < 2 ^ 64) {cache : Option Cache} (sound : Sound ref chain (entries ref cache)) :
    queries ref chain fuel cache ns = some (ns.map (answer ref chain)) := by
  induction ns generalizing cache with
  | nil => rfl
  | cons n ns ih =>
    obtain ⟨cache', answered, sound'⟩ := query_answer linked small (bounded n List.mem_cons_self) enough sound
    have rest := @ih (fun n' member => bounded n' (List.mem_cons_of_mem _ member)) (some cache') sound'
    rw [queries, answered, Option.bind_eq_bind, Option.bind_some]
    simp only [rest, Option.bind_eq_bind, Option.bind_some, Option.pure_def, List.map_cons]

end Walk

end GetHash

end CuteEVM
