import CuteEVM.VM.Config

set_option autoImplicit false

-- Compatibility is decided fork by fork.

namespace CuteEVM

variable {n : Nat} {what : String} {err : ConfigCompatError}

section Forks

variable {s1 s2 : Option Nat} {head : Nat}

theorem configNumEqual_iff {α : Type} [DecidableEq α] (x y : Option α) : configNumEqual x y = true ↔ x = y := by
  cases x <;> cases y <;> simp [configNumEqual]

theorem isForked_mono {s : Option Nat} (forked : isForked s n = true) (below : n ≤ head) : isForked s head = true := by
  cases s with
  | none => cases forked
  | some block =>
    simp only [isForked, decide_eq_true_eq] at forked ⊢
    omega

theorem isForked_later {s : Option Nat} (later : isForked s head = false) (below : n ≤ head) : isForked s n = false := by
  cases forked : isForked s n with
  | false => rfl
  | true =>
    rw [isForked_mono forked below] at later
    cases later

theorem forkError_none (fine : forkError what s1 s2 head = none) :
    (isForked s1 head = false ∧ isForked s2 head = false) ∨ s1 = s2 := by
  unfold forkError at fine
  split at fine
  · cases fine
  · next compatible =>
    unfold isForkIncompatible at compatible
    rw [Bool.and_eq_true, not_and_or, Bool.or_eq_true, not_or] at compatible
    rcases compatible with ⟨first, second⟩ | same
    · exact .inl ⟨Bool.eq_false_iff.mpr first, Bool.eq_false_iff.mpr second⟩
    · rw [Bool.not_eq_true, Bool.not_eq_false', configNumEqual_iff] at same
      exact .inr same

theorem forkError_agree (fine : forkError what s1 s2 head = none) (below : n ≤ head) :
    isForked s1 n = isForked s2 n := by
  rcases forkError_none fine with ⟨first, second⟩ | rfl
  · rw [isForked_later first below, isForked_later second below]
  · rfl

theorem newCompatError_rewinds (what : String) (forked : isForked s1 head = true ∨ isForked s2 head = true)
    (small : head < 2 ^ 64) :
    (newCompatError what s1 s2).rewindTo ≤ head - 1 := by
  have wraps : ∀ block, block ≤ head → (if 0 < block then (block % 2 ^ 64 + (2 ^ 64 - 1)) % 2 ^ 64 else 0) ≤ head - 1 := by
    intro block low
    split <;> omega
  unfold isForked at forked
  unfold newCompatError
  cases s1 with
  | none =>
    cases s2 with
    | none => simp at forked
    | some new => exact wraps new (by simpa using forked)
  | some stored =>
    cases s2 with
    | none => exact wraps stored (by simpa using forked)
    | some new =>
      simp only [decide_eq_true_eq] at forked
      dsimp only
      by_cases earlier : stored < new
      · rw [if_pos earlier]
        exact wraps stored (by omega)
      · rw [if_neg earlier]
        exact wraps new (by omega)

theorem newCompatError_spans (what : String) (forked : isForked s1 head = true ∨ isForked s2 head = true) (small : head < 2 ^ 64)
    (above : (newCompatError what s1 s2).rewindTo < n) : isForked s1 n = true ∨ isForked s2 n = true := by
  have reached : ∀ block, block ≤ head → (if 0 < block then (block % 2 ^ 64 + (2 ^ 64 - 1)) % 2 ^ 64 else 0) < n → block ≤ n := by
    intro block low later
    split at later <;> omega
  unfold isForked at forked ⊢
  unfold newCompatError at above
  cases s1 with
  | none =>
    cases s2 with
    | none => simp at forked
    | some new => simpa using reached new (by simpa using forked) above
  | some stored =>
    cases s2 with
    | none => simpa using reached stored (by simpa using forked) above
    | some new =>
      simp only [decide_eq_true_eq] at forked ⊢
      dsimp only at above
      by_cases earlier : stored < new
      · rw [if_pos earlier] at above
        exact .inl (reached stored (by omega) above)
      · rw [if_neg earlier] at above
        exact .inr (reached new (by omega) above)

theorem forkError_of_ne (what : String) (forked : isForked s1 head = true ∨ isForked s2 head = true) (differ : s1 ≠ s2) :
    forkError what s1 s2 head ≠ none := by
  intro fine
  rcases forkError_none fine with ⟨first, second⟩ | same
  · rw [first, second] at forked
    rcases forked with forked | forked <;> cases forked
  · exact differ same

theorem forkError_some (failed : forkError what s1 s2 head = some err) :
    err = newCompatError what s1 s2 ∧ (isForked s1 head = true ∨ isForked s2 head = true) ∧ s1 ≠ s2 := by
  unfold forkError at failed
  split at failed
  · next incompatible =>
    cases failed
    unfold isForkIncompatible at incompatible
    rw [Bool.and_eq_true, Bool.or_eq_true] at incompatible
    exact ⟨rfl, incompatible.1, fun same => by simp [(configNumEqual_iff s1 s2).mpr same] at incompatible⟩
  · cases failed

theorem forkError_rewinds (failed : forkError what s1 s2 head = some err) (small : head < 2 ^ 64) :
    err.rewindTo ≤ head - 1 := by
  obtain ⟨rfl, forked, -⟩ := forkError_some failed
  exact newCompatError_rewinds what forked small

theorem forkError_spans (failed : forkError what s1 s2 head = some err) (small : head < 2 ^ 64)
    (above : err.rewindTo < n) : forkError what s1 s2 n ≠ none := by
  obtain ⟨rfl, forked, differ⟩ := forkError_some failed
  exact forkError_of_ne what (newCompatError_spans what forked small above) differ

theorem flagError_rewinds {condition : Bool}
    (failed : (if isForked s1 head && condition then some (newCompatError what s1 s2) else none) = some err)
    (small : head < 2 ^ 64) :
    err.rewindTo ≤ head - 1 := by
  split at failed
  · next broken =>
    cases failed
    rw [Bool.and_eq_true] at broken
    exact newCompatError_rewinds what (.inl broken.1) small
  · cases failed

theorem flagError_spans {what fork : String} {condition : Bool}
    (failed : (if isForked s1 head && condition then some (newCompatError what s1 s2) else none) = some err)
    (small : head < 2 ^ 64) (above : err.rewindTo < n) (same : forkError fork s1 s2 n = none) :
    (if isForked s1 n && condition then some (newCompatError what s1 s2) else none) ≠ none := by
  split at failed
  · next broken =>
    cases failed
    rw [Bool.and_eq_true] at broken
    have forked := newCompatError_spans what (.inl broken.1) small above
    have equal : s1 = s2 := by
      by_contra differ
      exact forkError_of_ne fork forked differ same
    subst equal
    rw [if_pos (by rw [broken.2, Bool.and_true]; exact forked.elim id id)]
    nofun
  · cases failed

end Forks

section Checks

variable {c newcfg : Config} {head : Nat}

theorem or_rewinds {first rest : Option ConfigCompatError} (head_low : ∀ err, first = some err → err.rewindTo ≤ head - 1)
    (rest_low : ∀ err, rest = some err → err.rewindTo ≤ head - 1) : ∀ err, first.or rest = some err → err.rewindTo ≤ head - 1 := by
  intro err failed
  cases first with
  | none => exact rest_low err failed
  | some other => exact head_low err failed

theorem checkCompatibleAt_rewinds (small : head < 2 ^ 64) :
    ∀ err, c.checkCompatibleAt newcfg head = some err → err.rewindTo ≤ head - 1 := by
  have forks : ∀ what s1 s2 err, forkError what s1 s2 head = some err → err.rewindTo ≤ head - 1 :=
    fun _ _ _ _ failed => forkError_rewinds failed small
  refine or_rewinds (forks _ _ _) <| or_rewinds (forks _ _ _) <| or_rewinds (fun err failed => flagError_rewinds failed small) <|
    or_rewinds (forks _ _ _) <| or_rewinds (forks _ _ _) <| or_rewinds (forks _ _ _) <|
    or_rewinds (fun err failed => flagError_rewinds failed small) <| or_rewinds (forks _ _ _) <| or_rewinds (forks _ _ _) <|
    or_rewinds (forks _ _ _) (forks _ _ _)

theorem checkCompatibleAt_spans (small : head < 2 ^ 64) (found : c.checkCompatibleAt newcfg head = some err)
    (above : err.rewindTo < n) : c.checkCompatibleAt newcfg n ≠ none := by
  intro fine
  simp only [Config.checkCompatibleAt, Option.or_eq_none_iff] at fine
  obtain ⟨homestead, dao, support, eip150, eip155, eip158, chain, byzantium, constantinople, petersburg, ewasm⟩ := fine
  simp only [Config.checkCompatibleAt, Option.or_eq_some_iff] at found
  rcases found with found | ⟨-, found | ⟨-, found | ⟨-, found | ⟨-, found | ⟨-, found | ⟨-, found | ⟨-, found | ⟨-, found |
    ⟨-, found | ⟨-, found⟩⟩⟩⟩⟩⟩⟩⟩⟩⟩
  · exact forkError_spans found small above homestead
  · exact forkError_spans found small above dao
  · exact flagError_spans found small above dao support
  · exact forkError_spans found small above eip150
  · exact forkError_spans found small above eip155
  · exact forkError_spans found small above eip158
  · exact flagError_spans found small above eip158 chain
  · exact forkError_spans found small above byzantium
  · exact forkError_spans found small above constantinople
  · exact forkError_spans found small above petersburg
  · exact forkError_spans found small above ewasm

theorem lowestConflict_ends (small : head < 2 ^ 64) (rounds : Nat) (enough : head + 2 ≤ rounds)
    (lasterr : Option ConfigCompatError) :
    ∃ result, c.lowestConflict newcfg rounds lasterr head = some result := by
  induction rounds generalizing head lasterr with
  | zero => omega
  | succ rounds ih =>
    unfold Config.lowestConflict
    cases found : c.checkCompatibleAt newcfg head with
    | none => exact ⟨_, rfl⟩
    | some err =>
      have low := checkCompatibleAt_rewinds small err found
      dsimp only
      split
      · exact ⟨_, rfl⟩
      · by_cases first : head = 0
        · -- At the first block the same conflict is found once more.
          obtain ⟨more, rfl⟩ : ∃ more, rounds = more + 1 := ⟨rounds - 1, by omega⟩
          have again : err.rewindTo = head := by omega
          rw [again]
          unfold Config.lowestConflict
          rw [found]
          exact ⟨_, if_pos (by rw [Option.map_some])⟩
        · exact ih (by omega) (by omega) (some err)

theorem lowestConflict_some (rounds : Nat) (err : ConfigCompatError) :
    c.lowestConflict newcfg rounds (some err) head ≠ some none := by
  induction rounds generalizing err head with
  | zero => nofun
  | succ rounds ih =>
    unfold Config.lowestConflict
    split
    · nofun
    · split
      · nofun
      · exact ih _

theorem lowestConflict_highest (rounds height : Nat) (small : head < 2 ^ 64) {last err : ConfigCompatError}
    (stands : last.rewindTo = head)
    (low : head ≤ height) (conflicts : ∀ n, head < n → n ≤ height → c.checkCompatibleAt newcfg n ≠ none)
    (result : c.lowestConflict newcfg rounds (some last) head = some (some err)) :
    err.rewindTo ≤ height ∧ (∀ n, err.rewindTo < n → n ≤ height → c.checkCompatibleAt newcfg n ≠ none) ∧
      (c.checkCompatibleAt newcfg err.rewindTo = none ∨ err.rewindTo = 0) := by
  induction rounds generalizing head last with
  | zero => cases result
  | succ rounds ih =>
    unfold Config.lowestConflict at result
    cases found : c.checkCompatibleAt newcfg head with
    | none =>
      rw [found] at result
      cases result
      subst stands
      exact ⟨low, conflicts, .inl found⟩
    | some next =>
      have lower := checkCompatibleAt_rewinds small next found
      rw [found] at result
      dsimp only at result
      split at result
      · next same =>
        -- The block named is the one the conflict was found at, and only the first block has none before it.
        cases result
        subst stands
        rw [Option.map_some, Option.some.injEq] at same
        exact ⟨low, conflicts, .inr (by omega)⟩
      · refine ih (by omega) rfl (by omega) (fun n above below => ?_) result
        by_cases higher : head < n
        · exact conflicts n higher below
        · exact checkCompatibleAt_spans small found above

theorem checkCompatible_nil (height : Nat) :
    c.checkCompatible newcfg height = some none ↔ c.checkCompatibleAt newcfg height = none := by
  unfold Config.checkCompatible Config.lowestConflict
  constructor
  · intro compatible
    cases found : c.checkCompatibleAt newcfg height with
    | none => rfl
    | some err =>
      rw [found] at compatible
      exact absurd compatible (lowestConflict_some _ err)
  · intro fine
    rw [fine]

end Checks

theorem checkCompatible_rewindTo (c newcfg : Config) (height : Nat) (small : height < 2 ^ 64) :
    ∃ result, c.checkCompatible newcfg height = some result ∧
      ∀ err, result = some err →
        err.rewindTo ≤ height ∧ (∀ head, err.rewindTo < head → head ≤ height → c.checkCompatibleAt newcfg head ≠ none) ∧
          (c.checkCompatibleAt newcfg err.rewindTo = none ∨ err.rewindTo = 0) := by
  obtain ⟨result, ended⟩ := @lowestConflict_ends c newcfg _ small (height + 2) (Nat.le_refl _) none
  refine ⟨result, ended, ?_⟩
  rintro err rfl
  unfold Config.lowestConflict at ended
  cases found : c.checkCompatibleAt newcfg height with
  | none =>
    rw [found] at ended
    cases ended
  | some first =>
    have lower := checkCompatibleAt_rewinds small first found
    rw [found] at ended
    exact lowestConflict_highest (height + 1) height (by omega) rfl (by omega)
      (fun n above below => checkCompatibleAt_spans small found above) ended

-- The fork moved from block 30 to 25 is found first, the one moved from 10 to 20 is the lowest.
theorem checkCompatible_rewindTo_sample :
    Config.checkCompatible { homesteadBlock := some 30, eip150Block := some 10 }
      { homesteadBlock := some 25, eip150Block := some 20 } 25 =
      some (some ⟨"EIP150 fork block", some 10, some 20, 9⟩) ∧
    Config.checkCompatibleAt { homesteadBlock := some 30, eip150Block := some 10 }
      { homesteadBlock := some 25, eip150Block := some 20 } 9 = none := by
  obtain ⟨result, ended, highest⟩ := checkCompatible_rewindTo { homesteadBlock := some 30, eip150Block := some 10 }
    { homesteadBlock := some 25, eip150Block := some 20 } 25 (by decide)
  have is : result = some ⟨"EIP150 fork block", some 10, some 20, 9⟩ := Option.some.inj (ended.symm.trans (by decide))
  exact ⟨ended.trans (congrArg some is), (highest _ is).2.2.resolve_right (by decide)⟩

structure SameRules (c newcfg : Config) (n : Nat) : Prop where
  homestead : (c.rules n).isHomestead = (newcfg.rules n).isHomestead
  eip150 : (c.rules n).isEIP150 = (newcfg.rules n).isEIP150
  eip155 : (c.rules n).isEIP155 = (newcfg.rules n).isEIP155
  eip158 : (c.rules n).isEIP158 = (newcfg.rules n).isEIP158
  byzantium : (c.rules n).isByzantium = (newcfg.rules n).isByzantium
  constantinople : (c.rules n).isConstantinople = (newcfg.rules n).isConstantinople
  petersburg : (c.rules n).isPetersburg = (newcfg.rules n).isPetersburg
  gasTable : c.gasTable n = newcfg.gasTable n

section Rules

variable {c newcfg : Config} {height : Nat}

theorem sameRules_iff (compatible : c.checkCompatibleAt newcfg height = none) (below : n ≤ height) :
    SameRules c newcfg n ↔ c.isPetersburg n = newcfg.isPetersburg n := by
  simp only [Config.checkCompatibleAt, Option.or_eq_none_iff] at compatible
  obtain ⟨homestead, -, -, eip150, eip155, eip158, -, byzantium, constantinople, -, -⟩ := compatible
  have eip150 : c.isEIP150 n = newcfg.isEIP150 n := forkError_agree eip150 below
  have eip158 : c.isEIP158 n = newcfg.isEIP158 n := forkError_agree eip158 below
  have constantinople : c.isConstantinople n = newcfg.isConstantinople n := forkError_agree constantinople below
  refine ⟨fun same => same.petersburg, fun petersburg => ?_⟩
  exact {
    homestead := forkError_agree homestead below
    eip150 := eip150
    eip155 := forkError_agree eip155 below
    eip158 := eip158
    byzantium := forkError_agree byzantium below
    constantinople := constantinople
    petersburg := petersburg
    gasTable := by unfold ChainConfig.gasTable; rw [eip150, eip158, constantinople] }

theorem petersburg_differs {first second : Config} (fallback : first.petersburgBlock = none)
    (later : isForked second.petersburgBlock height = false) (scheduled : second.petersburgBlock ≠ none)
    (active : isForked first.constantinopleBlock height = true) : first.isPetersburg height ≠ second.isPetersburg height := by
  unfold ChainConfig.isPetersburg
  simp [fallback, later, scheduled, active]

theorem petersburg_agrees (petersburg : forkError "Petersburg fork block" c.petersburgBlock newcfg.petersburgBlock height = none)
    (constantinople : forkError "Constantinople fork block" c.constantinopleBlock newcfg.constantinopleBlock height = none)
    (same : (c.petersburgBlock = none ↔ newcfg.petersburgBlock = none) ∨ isForked c.constantinopleBlock height = false)
    (below : n ≤ height) : c.isPetersburg n = newcfg.isPetersburg n := by
  have own := forkError_agree petersburg below
  have fallback := forkError_agree constantinople below
  unfold ChainConfig.isPetersburg
  rw [own, ← fallback]
  rcases same with same | late
  · simp only [same]
  · rw [isForked_later late below, Bool.and_false, Bool.and_false]

end Rules

theorem compatible_rules (c newcfg : Config) (height : Nat) (small : height < 2 ^ 64) :
    (∃ result, c.checkCompatible newcfg height = some result) ∧
    (c.checkCompatible newcfg height = some none →
      ((∀ n ≤ height, SameRules c newcfg n) ↔
        (c.petersburgBlock = none ↔ newcfg.petersburgBlock = none) ∨ c.isConstantinople height = false)) := by
  refine ⟨lowestConflict_ends small _ (Nat.le_refl _) none, fun compatible => ?_⟩
  have fine := (checkCompatible_nil height).mp compatible
  have parts := fine
  simp only [Config.checkCompatibleAt, Option.or_eq_none_iff] at parts
  obtain ⟨-, -, -, -, -, -, -, -, constantinople, petersburg, -⟩ := parts
  constructor
  · intro all
    have same := (all height (Nat.le_refl _)).petersburg
    by_contra different
    rw [not_or, Bool.not_eq_false] at different
    obtain ⟨differ, active⟩ := different
    have shared : isForked newcfg.constantinopleBlock height = true := by
      rw [← forkError_agree constantinople (Nat.le_refl _)]
      exact active
    rcases forkError_none petersburg with ⟨first, second⟩ | equal
    · by_cases stored : c.petersburgBlock = none
      · exact petersburg_differs stored second (fun new => differ ⟨fun _ => new, fun _ => stored⟩) active same
      · have new : newcfg.petersburgBlock = none := by
          by_contra other
          exact differ ⟨fun is_none => absurd is_none stored, fun is_none => absurd is_none other⟩
        exact petersburg_differs new first stored shared same.symm
    · exact differ (by rw [equal])
  · intro condition n below
    exact (sameRules_iff fine below).mpr (petersburg_agrees petersburg constantinople condition below)

theorem compatible_rules_sample :
    SameRules { homesteadBlock := some 0 } { homesteadBlock := some 0, byzantiumBlock := some 11 } 10 :=
  ((compatible_rules { homesteadBlock := some 0 } { homesteadBlock := some 0, byzantiumBlock := some 11 } 10 (by decide)).2
    (by decide)).mpr
    (.inl (by decide)) 10 (by decide)

-- Constantinople from the first block on, with Petersburg at once or at block 100.
theorem compatible_rules_differ :
    Config.checkCompatible { constantinopleBlock := some 0 } { constantinopleBlock := some 0, petersburgBlock := some 100 } 10 =
      some none ∧
    ¬SameRules { constantinopleBlock := some 0 } { constantinopleBlock := some 0, petersburgBlock := some 100 } 5 :=
  ⟨by decide, fun same => absurd same.petersburg (by decide)⟩

end CuteEVM
