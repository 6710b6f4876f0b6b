import CuteEVM.Theorems.Revert

set_option autoImplicit false

-- From Byzantium on nothing that a static call starts can write.

namespace CuteEVM

open CallTree

attribute [local instance] Crypto.sample

section Quiet

variable [Crypto]

def Meek (inv : Invocation) : Prop :=
  inv.evm.readOnly = true → inv.kind.creates = false ∧ (inv.kind = .call → inv.value = 0)

def CallsStatic (inv : Invocation) : Prop := inv.evm.readOnly = true ∨ inv.kind = .staticCall

def RunsStatic (request : RunReq) : Prop := request.evm.readOnly = true ∨ request.readOnly = true

variable {env : Env} {inv : Invocation} {request : RunReq} {fr : Frame}

omit [Crypto] in
theorem Bounded.static (bounded : Bounded request fr) (static : RunsStatic request) : fr.evm.readOnly = true := by
  rw [bounded.readOnly, Bool.or_eq_true]
  exact static

theorem Opens.static {before : StateDB} (opens : Opens inv before request) (static : CallsStatic inv) : RunsStatic request := by
  have mode : request.evm.readOnly = inv.evm.readOnly := by rw [opens.evm]
  rcases static with within | starts
  · exact .inl (mode.trans within)
  · exact .inr (by rw [opens.readOnly, starts]; rfl)

omit [Crypto] in
theorem CallsStatic.plain (static : CallsStatic inv) (meek : Meek inv) :
    inv.kind.creates = false ∧ (inv.kind = .call → inv.value = 0) := by
  rcases static with within | starts
  · exact meek within
  · rw [starts]
    exact ⟨rfl, nofun⟩

theorem Asks.meek {parent : Contract} (asks : Asks env fr parent inv) (byzantium : env.isByzantium = true) : Meek inv := by
  intro within
  have mode : inv.evm.readOnly = fr.evm.readOnly := by rw [asks.evm]
  obtain ⟨create, create2, value⟩ := asks.static (mode.symm.trans within) byzantium
  refine ⟨?_, value⟩
  cases kind : inv.kind <;> first | rfl | exact absurd kind create | exact absurd kind create2

theorem static_step (byzantium : env.isByzantium = true) (kept : JournalKeeps Clean request fr)
    (quiet : RunsStatic request → request.evm.db.world.Quiet fr.evm.db.world) :
    (step env fr).Sat
      ⟨Meek, fun inv reply => (journalCalls Clean).post inv reply ∧
        (CallsStatic inv → inv.evm.db.world.Quiet reply.evm.db.world), fun _ => True⟩
      (Sum.elim (fun next => RunsStatic request → request.evm.db.world.Quiet next.evm.db.world)
        fun res => RunsStatic request → request.evm.db.world.Quiet res.evm.db.world) := by
  obtain ⟨bounded, evolves, -⟩ := kept
  have valid := evolves.valid
  have worked : ∀ {fr'}, Works env fr fr' → RunsStatic request → request.evm.db.world.Quiet fr'.evm.db.world := by
    intro fr' works static
    obtain ⟨writes, allowed, gentle⟩ := works.db
    exact (quiet static).trans ((gentle valid).quiet (allowed (bounded.static static) byzantium))
  refine step_sat bounded.fit (fun _ _ => trivial) (fun fr' works _ => worked works) (fun fr' ret err works _ _ => worked works)
    (fun beneficiary fr' perishes static => ?_) fun parent inv asks =>
      ⟨asks.meek byzantium, fun reply post fr' continues static => ?_⟩
  · cases perishes.writes (bounded.static static) byzantium
  · have mode : inv.evm.readOnly = true := by
      rw [asks.evm]
      exact bounded.static static
    obtain ⟨writes, allowed, gentle⟩ := asks.db
    have asked := (gentle valid).quiet (allowed (bounded.static static) byzantium)
    rw [continues.db]
    exact (quiet static).trans (asked.trans (post.2 (.inl mode)))

theorem static_entry (env : Env) (pre : (journalCalls Clean).pre inv) (meek : Meek inv) :
    (entry env inv).Sat
      ⟨fun _ => True, fun request res => (journalRuns Clean).post request res ∧
        (RunsStatic request → request.evm.db.world.Quiet res.evm.db.world), fun _ => True⟩
      fun reply => CallsStatic inv → inv.evm.db.world.Quiet reply.evm.db.world := by
  obtain ⟨-, valid, clean⟩ := pre
  refine entry_journaled ⟨fun _ _ post => post.1.2, fun _ _ post => post.1.1.err, trivial⟩ valid trivial (fun _ _ _ => trivial)
    fun reply concluded static => ?_
  have never : inv.kind.creates ≠ true := by simp [(static.plain meek).1]
  cases concluded with
  | declines declined =>
    rw [(declined.db valid).world]
    exact .refl _
  | collides collided => exact absurd collided.kind never
  | skips creates | deploys creates | unpaid creates | abandons creates => exact absurd creates never
  | succeeds plain opens ran =>
    have opened := opens.quiet valid plain (static.plain meek).2
    rw [(opens.reads plain valid).world] at opened
    rcases ran.how with native | interpreted
    · rw [native.evm]
      exact opened
    · exact opened.trans (interpreted.2 (opens.static static))
  | @fails before request res err db plain opens _ _ _ restored =>
    have reads := opens.reads plain valid
    have world := restored.world (reads.evolves.clean clean)
    show inv.evm.db.world.Quiet db.world
    rw [world, reads.world]
    exact .refl _

theorem static_upholds (env : Env) (byzantium : env.isByzantium = true) :
    Upholds env
      ⟨fun inv => (journalCalls Clean).pre inv ∧ Meek inv, fun inv reply => (journalCalls Clean).post inv reply ∧
        (CallsStatic inv → inv.evm.db.world.Quiet reply.evm.db.world), fun fault => (journalCalls Clean).safe fault ∧ True⟩
      ⟨fun request => (journalRuns Clean).pre request ∧ True, fun request res => (journalRuns Clean).post request res ∧
        (RunsStatic request → request.evm.db.world.Quiet res.evm.db.world), fun fault => (journalRuns Clean).safe fault ∧ True⟩
      fun request fr => JournalKeeps Clean request fr ∧
        (RunsStatic request → request.evm.db.world.Quiet fr.evm.db.world) := by
  refine (journal_upholds env steady_clean).extend (fun request _ _ => ?_) (fun request fr kept quiet => ?_)
    fun inv pre meek => static_entry env pre meek
  · have same := start_db request
    cases started : start request with
    | inl fr =>
      rw [started] at same
      intro _
      rw [show fr.evm.db = request.evm.db from same]
      exact .refl _
    | inr res =>
      rw [started] at same
      intro _
      rw [show res.evm.db = request.evm.db from same]
      exact .refl _
  · exact static_step byzantium kept quiet

-- The effects that a static call may have: accounts that are empty come into existence, and preimages are recorded.
structure StaticEffect (before after : Observation) : Prop where
  balance : after.balance = before.balance
  nonce : after.nonce = before.nonce
  code : after.code = before.code
  storage : after.storage = before.storage
  committed : after.committed = before.committed
  suicided : after.suicided = before.suicided
  refund : after.refund = before.refund
  logs : after.logs = before.logs
  exist : ∀ a, (after.exist a = before.exist a ∧ after.empty a = before.empty a ∧ after.codeHash a = before.codeHash a) ∨
    (before.exist a = false ∧ after.empty a = true)
  preimages : ∀ hash preimage, before.preimages hash = some preimage → after.preimages hash = some preimage

theorem World.Quiet.effect {world world' : World} (quiet : world.Quiet world') (codes : Hash → Option Bytes) :
    StaticEffect (world.observe codes) (world'.observe codes) := by
  have same : ∀ {β : Type} (default : β) (read : AccountView → β), read .fresh = default →
      ∀ a, (world'.accounts a).elim default read = (world.accounts a).elim default read := by
    intro β default read unset a
    rcases quiet.accounts a with same | ⟨missing, fresh⟩
    · rw [same]
    · rw [missing, fresh]
      exact unset
  refine ⟨funext (same 0 _ rfl), funext (same 0 _ rfl), funext (same [] _ rfl), ?_, ?_, funext (same false _ rfl),
    quiet.refund, quiet.logs, fun a => ?_, quiet.preimages⟩
  · funext a key
    exact same 0 (fun view => view.storage key) rfl a
  · funext a key
    exact same 0 (fun view => view.committed key) rfl a
  · rcases quiet.accounts a with same | ⟨missing, fresh⟩
    · left
      simp only [World.observe, same, and_self]
    · right
      simp [World.observe, missing, fresh, AccountView.empty, AccountView.fresh]

theorem static_call_effect (env : Env) (byzantium : env.isByzantium = true) (inv : Invocation) (small : inv.gas < 2 ^ 64)
    (writable : inv.evm.readOnly = false) (reached : Reached (fun s op => op.Guarded s) inv.evm.db) :
    ∀ callee, Invoked env inv callee → callee.kind = .staticCall → ∀ reply, Answers env callee reply →
      StaticEffect callee.evm.db.observe reply.evm.db.observe := by
  intro callee invoked static reply answered
  have upholds := static_upholds env byzantium
  have meek : Meek inv := by
    intro within
    simp [writable] at within
  have pre := upholds.invoked ⟨⟨small, reached.valid, reached.clean⟩, meek⟩ invoked
  obtain ⟨⟨-, evolves⟩, quiet⟩ := upholds.answers pre answered
  rw [observe_world, observe_world, evolves.codes]
  exact (quiet (.inr static)).effect callee.evm.db.codes

end Quiet

theorem static_call_effect_sample :
    ∃ reply, Answers sampleEnv (sampleCall .staticCall returnFive) reply ∧ reply.err = none ∧
      reply.evm.db.observe.balance 1 = 100 := by
  obtain ⟨reply, returned, done⟩ : ∃ reply, invoke sampleEnv 10 (sampleCall .staticCall returnFive) = .ret reply ∧
      (reply.err == none) = true := replyOf_any (by decide +kernel)
  have answered : Answers sampleEnv (sampleCall .staticCall returnFive) reply := ⟨10, returned⟩
  have effect := static_call_effect sampleEnv rfl (sampleCall .staticCall returnFive) (by decide) rfl
    (sampleState_reached returnFive guarded_of_plain) _ .root rfl reply answered
  refine ⟨reply, answered, eq_of_beq done, ?_⟩
  rw [effect.balance]
  decide +kernel

-- An empty account with storage, deleted by `Finalise(true)` and written back by `Commit(false)`.
def storedBack : StateDB :=
  (((StateDB.new (fun _ => none) (fun _ => none)).setState 2 0 5).finalise true).commit false

-- The precompiled contract at address 2 runs out of gas. Its storage read zero, and reads five afterwards.
theorem static_call_resurrects :
    ∃ reply, Reached (fun _ _ => True) storedBack ∧
      Answers sampleEnv { kind := .staticCall, evm := { db := storedBack }, caller := .accountRef 1, addr := 2, gas := 0 } reply ∧
      storedBack.observe.storage 2 0 = 0 ∧ reply.evm.db.observe.storage 2 0 = 5 := by
  obtain ⟨reply, returned, holds⟩ : ∃ reply,
      invoke sampleEnv 1 { kind := .staticCall, evm := { db := storedBack }, caller := .accountRef 1, addr := 2, gas := 0 } =
        .ret reply ∧ (reply.evm.db.observe.storage 2 0 == 5) = true := replyOf_any (by decide +kernel)
  have reached : Reached (fun _ _ => True) storedBack :=
    .step (.commit false) (.step (.finalise true) (.step (.setState 2 0 5) (.new _ _) trivial rfl) trivial rfl) trivial rfl
  exact ⟨reply, reached, ⟨1, returned⟩, by decide +kernel, eq_of_beq holds⟩

end CuteEVM
