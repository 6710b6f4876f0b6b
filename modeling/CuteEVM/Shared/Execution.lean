import CuteEVM.Shared.CallTree

set_option autoImplicit false

-- What a body requests and returns when its requests really get these answers, so that an invariant may speak of the
-- execution it is part of.

namespace CallTree

variable {Req Rep Req' Rep' Fault State α β : Type}

namespace Prog

theorem Sat.along {spec : Spec Req Rep Fault} {good : α → Prop} {body : Prog Req Rep Fault α} (sat : body.Sat spec good)
    (answers : Req → Rep → Prop) :
    body.Sat {
      pre := fun request => spec.pre request ∧ body.Makes answers request
      post := fun request reply => spec.post request reply ∧ answers request reply
      safe := spec.safe } fun value => good value ∧ body.Yields answers value := by
  -- The rest of a body makes and yields only what the whole one does.
  have rest : ∀ (part : Prog Req Rep Fault α), part.Sat spec good →
      (∀ request, part.Makes answers request → body.Makes answers request) →
      (∀ value, part.Yields answers value → body.Yields answers value) →
      part.Sat {
        pre := fun request => spec.pre request ∧ body.Makes answers request
        post := fun request reply => spec.post request reply ∧ answers request reply
        safe := spec.safe } fun value => good value ∧ body.Yields answers value := by
    intro part
    induction part with
    | ret value => exact fun sat _ yields => ⟨sat, yields value rfl⟩
    | panic fault => exact fun sat _ _ => sat
    | call request resume ih =>
      intro sat makes yields
      refine ⟨⟨sat.1, makes request (.inl rfl)⟩, fun reply answered => ?_⟩
      exact ih reply (sat.2 reply answered.1) (fun later made => makes later (.inr ⟨reply, answered.2, made⟩))
        fun value yielded => yields value ⟨reply, answered.2, yielded⟩
  exact rest body sat (fun _ made => made) fun _ yielded => yielded

section Compose

variable {answers : Req → Rep → Prop} {program : Prog Req Rep Fault α}

theorem Yields.bind {next : α → Prog Req Rep Fault β} {value : α} {result : β} (first : program.Yields answers value)
    (second : (next value).Yields answers result) : (program.bind next).Yields answers result := by
  induction program with
  | ret found => exact first ▸ second
  | panic fault => exact first.elim
  | call request resume ih =>
    obtain ⟨reply, answered, later⟩ := first
    exact ⟨reply, answered, ih reply later⟩

theorem Makes.bind {request : Req} (made : program.Makes answers request) (next : α → Prog Req Rep Fault β) :
    (program.bind next).Makes answers request := by
  induction program with
  | ret found => exact made.elim
  | panic fault => exact made.elim
  | call asked resume ih =>
    rcases made with same | ⟨reply, answered, later⟩
    · exact .inl same
    · exact .inr ⟨reply, answered, ih reply later⟩

theorem Yields.bind_makes {next : α → Prog Req Rep Fault β} {value : α} {request : Req} (first : program.Yields answers value)
    (second : (next value).Makes answers request) : (program.bind next).Makes answers request := by
  induction program with
  | ret found => exact first ▸ second
  | panic fault => exact first.elim
  | call asked resume ih =>
    obtain ⟨reply, answered, later⟩ := first
    exact .inr ⟨reply, answered, ih reply later⟩

variable {inner : Req' → Rep' → Prop} {body : Req → Prog Req' Rep' Fault Rep}

theorem Yields.inline {value : α} (yielded : program.Yields answers value)
    (bodies : ∀ request reply, answers request reply → (body request).Yields inner reply) :
    (program.inline body).Yields inner value := by
  induction program with
  | ret found => exact yielded
  | panic fault => exact yielded.elim
  | call request resume ih =>
    obtain ⟨reply, answered, later⟩ := yielded
    exact (bodies request reply answered).bind (ih reply later)

theorem Makes.inline {request : Req} {nested : Req'} (made : program.Makes answers request)
    (makes : (body request).Makes inner nested)
    (bodies : ∀ request reply, answers request reply → (body request).Yields inner reply) :
    (program.inline body).Makes inner nested := by
  induction program with
  | ret found => exact made.elim
  | panic fault => exact made.elim
  | call asked resume ih =>
    rcases made with rfl | ⟨reply, answered, later⟩
    · exact makes.bind _
    · exact (bodies asked reply answered).bind_makes (ih reply later)

end Compose

end Prog

namespace Machine

variable {machine : Machine State Req Rep Fault}

theorem handle_of_yields {program : Prog Req Rep Fault α} {value : α} (yielded : program.Yields machine.Returns value) :
    ∃ fuel, program.handle (machine.run fuel) = .ret value := by
  induction program with
  | ret found => exact ⟨0, congrArg Outcome.ret yielded⟩
  | panic fault => exact yielded.elim
  | call request resume ih =>
    obtain ⟨reply, ⟨fuel, replied⟩, later⟩ := yielded
    obtain ⟨fuel', handled⟩ := ih reply later
    have replied' : machine.run (max fuel fuel') request = .ret reply := by
      rw [run_eq_of_le (Nat.le_max_left fuel fuel') request (by simp [replied]), replied]
    have handled' : (resume reply).handle (machine.run (max fuel fuel')) = .ret value := by
      rw [Prog.handle_eq_of_agree (fun r done => run_eq_of_le (Nat.le_max_right fuel fuel') r done) (by simp [handled]),
        handled]
    exact ⟨max fuel fuel', by simp only [Prog.handle, replied', Outcome.bind, handled']⟩

def Loops (machine : Machine State Req Rep Fault) (state : State) (reply : Rep) : Prop :=
  ∃ fuel, machine.loop fuel state = .ret reply

theorem Loops.returns {request : Req} {state : State} {reply : Rep} (loops : machine.Loops state reply)
    (started : machine.start request = .inl state) : machine.Returns request reply := by
  obtain ⟨fuel, looped⟩ := loops
  exact ⟨fuel, by simp only [run, enter, started, looped]⟩

theorem loops_of_done {state : State} {reply : Rep} (yields : (machine.step state).Yields machine.Returns (.inr reply)) :
    machine.Loops state reply := by
  obtain ⟨fuel, handled⟩ := handle_of_yields yields
  refine ⟨fuel + 1, ?_⟩
  change ((machine.step state).handle (machine.run fuel)).bind _ = _
  rw [handled]
  rfl

theorem Loops.of_next {state later : State} {reply : Rep} (yields : (machine.step state).Yields machine.Returns (.inl later))
    (loops : machine.Loops later reply) : machine.Loops state reply := by
  obtain ⟨fuel, handled⟩ := handle_of_yields yields
  obtain ⟨fuel', looped⟩ := loops
  refine ⟨max fuel fuel' + 1, ?_⟩
  change ((machine.step state).handle (machine.run (max fuel fuel'))).bind _ = _
  rw [Prog.handle_eq_of_agree (fun r done => run_eq_of_le (Nat.le_max_left fuel fuel') r done) (by simp [handled]), handled]
  change machine.loop (max fuel fuel') later = _
  rw [loop_eq_of_le (Nat.le_max_right fuel fuel') later (by simp [looped]), looped]

def lone (machine : Machine State Req Rep Fault) (test : State → Bool) : Nat → State → Bool
  | 0, _ => false
  | fuel + 1, state => test state && match machine.step state with
      | .ret (.inl next) => lone machine test fuel next
      | .ret (.inr _) => true
      | .panic _ => true
      | .call _ _ => false

theorem Active.lone {root : Req} {first : State} {test : State → Bool} {fuel : Nat} (started : machine.start root = .inl first)
    (evaluated : machine.lone test fuel first = true) {frames : List (Req × State)} (active : machine.Active root frames) :
    ∃ state, frames = [(root, state)] ∧ test state = true := by
  -- What is left of the evaluation goes along with the execution.
  have along : ∃ state fuel, frames = [(root, state)] ∧ machine.lone test fuel state = true := by
    induction active with
    | @root state began =>
      obtain rfl := Sum.inl.inj (began.symm.trans started)
      exact ⟨_, fuel, rfl, evaluated⟩
    | @next request state later outer _ yields ih =>
      obtain ⟨current, left, same, rest⟩ := ih
      obtain ⟨⟨rfl, rfl⟩, rfl⟩ : (request = root ∧ state = current) ∧ outer = [] := by simpa using same
      cases left with
      | zero => simp [Machine.lone] at rest
      | succ left =>
        cases body : machine.step state with
        | ret value =>
          rw [body] at yields
          obtain rfl : value = .inl later := yields
          simp only [Machine.lone, body, Bool.and_eq_true] at rest
          exact ⟨later, left, rfl, rest.2⟩
        | panic fault =>
          rw [body] at yields
          exact yields.elim
        | call called resume => simp [Machine.lone, body] at rest
    | @call request called state inner outer _ makes began ih =>
      obtain ⟨current, left, same, rest⟩ := ih
      obtain ⟨⟨rfl, rfl⟩, rfl⟩ : (request = root ∧ state = current) ∧ outer = [] := by simpa using same
      cases left with
      | zero => simp [Machine.lone] at rest
      | succ left =>
        cases body : machine.step state with
        | ret value =>
          rw [body] at makes
          exact makes.elim
        | panic fault =>
          rw [body] at makes
          exact makes.elim
        | call called resume => simp [Machine.lone, body] at rest
  obtain ⟨state, left, same, rest⟩ := along
  refine ⟨state, same, ?_⟩
  cases left with
  | zero => simp [Machine.lone] at rest
  | succ left =>
    simp only [Machine.lone, Bool.and_eq_true] at rest
    exact rest.1

end Machine

end CallTree
