import Mathlib.Data.List.Basic
import Mathlib.Tactic.Common

set_option autoImplicit false

-- A `Prog` is the body of one function: it returns, faults, or hands a request to some callee and resumes with the
-- reply.

namespace CallTree

inductive Prog (Req Rep Fault α : Type) : Type where
  | ret (value : α)
  | panic (fault : Fault)
  | call (request : Req) (resume : Rep → Prog Req Rep Fault α)

inductive Outcome (Fault α : Type) : Type where
  | ret (value : α)
  | panic (fault : Fault)
  | outOfFuel

-- What a caller has to establish, what it gets back, and which faults are acceptable.
structure Spec (Req Rep Fault : Type) where
  pre : Req → Prop
  post : Req → Rep → Prop
  safe : Fault → Prop

variable {Req Rep Req' Rep' Fault State α β : Type}

variable {spec : Spec Req Rep Fault} {program : Prog Req Rep Fault α} {good : α → Prop}

namespace Outcome

def bind : Outcome Fault α → (α → Outcome Fault β) → Outcome Fault β
  | .ret value, next => next value
  | .panic fault, _ => .panic fault
  | .outOfFuel, _ => .outOfFuel

-- `limit` says what is known when the fuel ran out: `True` for partial, `False` for total correctness.
def Sat (safe : Fault → Prop) (limit : Prop) (good : α → Prop) : Outcome Fault α → Prop
  | .ret value => good value
  | .panic fault => safe fault
  | .outOfFuel => limit

@[simp] theorem sat_ret (safe : Fault → Prop) (limit : Prop) (good : α → Prop) (value : α) :
    (Outcome.ret value : Outcome Fault α).Sat safe limit good ↔ good value := Iff.rfl

theorem Sat.bind {safe : Fault → Prop} {limit : Prop} {done : β → Prop}
    {first : Outcome Fault α} {next : α → Outcome Fault β} (head : first.Sat safe limit good)
    (tail : ∀ value, good value → (next value).Sat safe limit done) :
    (first.bind next).Sat safe limit done := by
  cases first with
  | ret value => exact tail value head
  | panic fault => exact head
  | outOfFuel => exact head

end Outcome

namespace Prog

def bind : Prog Req Rep Fault α → (α → Prog Req Rep Fault β) → Prog Req Rep Fault β
  | .ret value, next => next value
  | .panic fault, _ => .panic fault
  | .call request resume, next => .call request fun reply => (resume reply).bind next

instance : Monad (Prog Req Rep Fault) where
  pure := .ret
  bind := Prog.bind

def handle (answer : Req → Outcome Fault Rep) : Prog Req Rep Fault α → Outcome Fault α
  | .ret value => .ret value
  | .panic fault => .panic fault
  | .call request resume => (answer request).bind fun reply => (resume reply).handle answer

def inline (body : Req → Prog Req' Rep' Fault Rep) :
    Prog Req Rep Fault α → Prog Req' Rep' Fault α
  | .ret value => .ret value
  | .panic fault => .panic fault
  | .call request resume => (body request).bind fun reply => (resume reply).inline body

def Sat (spec : Spec Req Rep Fault) (good : α → Prop) : Prog Req Rep Fault α → Prop
  | .ret value => good value
  | .panic fault => spec.safe fault
  | .call request resume =>
    spec.pre request ∧ ∀ reply, spec.post request reply → (resume reply).Sat spec good

def Makes (answers : Req → Rep → Prop) : Prog Req Rep Fault α → Req → Prop
  | .ret _, _ => False
  | .panic _, _ => False
  | .call request resume, wanted =>
    request = wanted ∨ ∃ reply, answers request reply ∧ (resume reply).Makes answers wanted

def Yields (answers : Req → Rep → Prop) : Prog Req Rep Fault α → α → Prop
  | .ret value, wanted => value = wanted
  | .panic _, _ => False
  | .call request resume, wanted =>
    ∃ reply, answers request reply ∧ (resume reply).Yields answers wanted

@[simp] theorem bind_ret (value : α) (next : α → Prog Req Rep Fault β) :
    (Prog.ret value : Prog Req Rep Fault α).bind next = next value := rfl

@[simp] theorem bind_panic (fault : Fault) (next : α → Prog Req Rep Fault β) :
    (Prog.panic fault : Prog Req Rep Fault α).bind next = .panic fault := rfl

@[simp] theorem bind_call (request : Req) (resume : Rep → Prog Req Rep Fault α)
    (next : α → Prog Req Rep Fault β) :
    (Prog.call request resume).bind next = .call request fun reply => (resume reply).bind next := rfl

@[simp] theorem sat_ret (spec : Spec Req Rep Fault) (good : α → Prop) (value : α) :
    (Prog.ret value : Prog Req Rep Fault α).Sat spec good ↔ good value := Iff.rfl

@[simp] theorem sat_panic (spec : Spec Req Rep Fault) (good : α → Prop) (fault : Fault) :
    (Prog.panic fault : Prog Req Rep Fault α).Sat spec good ↔ spec.safe fault := Iff.rfl

theorem Sat.mono {good better : α → Prop} {body : Prog Req Rep Fault α}
    (sat : body.Sat spec good) (weaker : ∀ value, good value → better value) :
    body.Sat spec better := by
  induction body with
  | ret value => exact weaker value sat
  | panic fault => exact sat
  | call request resume ih => exact ⟨sat.1, fun reply answered => ih reply (sat.2 reply answered)⟩

theorem Sat.weaken {spec other : Spec Req Rep Fault} {body : Prog Req Rep Fault α}
    (sat : body.Sat spec good) (pre : ∀ request, spec.pre request → other.pre request)
    (post : ∀ request reply, spec.pre request → other.post request reply → spec.post request reply)
    (safe : ∀ fault, spec.safe fault → other.safe fault) : body.Sat other good := by
  induction body with
  | ret value => exact sat
  | panic fault => exact safe fault sat
  | call request resume ih =>
    exact ⟨pre request sat.1, fun reply answered =>
      ih reply (sat.2 reply (post request reply sat.1 answered))⟩

theorem Sat.and {spec other : Spec Req Rep Fault} {good better : α → Prop} {body : Prog Req Rep Fault α}
    (first : body.Sat spec good) (second : body.Sat other better) :
    body.Sat {
      pre := fun request => spec.pre request ∧ other.pre request
      post := fun request reply => spec.post request reply ∧ other.post request reply
      safe := fun fault => spec.safe fault ∧ other.safe fault } fun value => good value ∧ better value := by
  induction body with
  | ret value => exact ⟨first, second⟩
  | panic fault => exact ⟨first, second⟩
  | call request resume ih =>
    exact ⟨⟨first.1, second.1⟩, fun reply answered =>
      ih reply (first.2 reply answered.1) (second.2 reply answered.2)⟩

theorem Sat.cases {body : Prog Req Rep Fault α} (sat : body.Sat spec good)
    (mute : ∀ request, ¬ spec.pre request) :
    (∃ value, body = .ret value ∧ good value) ∨ ∃ fault, body = .panic fault ∧ spec.safe fault := by
  cases body with
  | ret value => exact .inl ⟨value, rfl, sat⟩
  | panic fault => exact .inr ⟨fault, rfl, sat⟩
  | call request resume => exact absurd sat.1 (mute request)

theorem sat_of_lenient (pre : ∀ request, spec.pre request) (safe : ∀ fault, spec.safe fault)
    (body : Prog Req Rep Fault α) : body.Sat spec fun _ => True := by
  induction body with
  | ret value => trivial
  | panic fault => exact safe fault
  | call request resume ih => exact ⟨pre request, fun reply _ => ih reply⟩

theorem Sat.bind {done : β → Prop}
    {first : Prog Req Rep Fault α} {next : α → Prog Req Rep Fault β} (head : first.Sat spec good)
    (tail : ∀ value, good value → (next value).Sat spec done) : (first.bind next).Sat spec done := by
  induction first with
  | ret value => exact tail value head
  | panic fault => exact head
  | call request resume ih =>
    exact ⟨head.1, fun reply answered => ih reply (head.2 reply answered)⟩

theorem Sat.inline {inner : Spec Req' Rep' Fault} {body : Req → Prog Req' Rep' Fault Rep}
    (sat : program.Sat spec good)
    (bodies : ∀ request, spec.pre request → (body request).Sat inner (spec.post request))
    (safe : ∀ fault, spec.safe fault → inner.safe fault) : (program.inline body).Sat inner good := by
  induction program with
  | ret value => exact sat
  | panic fault => exact safe fault sat
  | call request resume ih =>
    exact (bodies request sat.1).bind fun reply answered => ih reply (sat.2 reply answered)

theorem Sat.handle {limit : Prop} {answer : Req → Outcome Fault Rep} (sat : program.Sat spec good)
    (answers : ∀ request, spec.pre request → (answer request).Sat spec.safe limit (spec.post request)) :
    (program.handle answer).Sat spec.safe limit good := by
  induction program with
  | ret value => exact sat
  | panic fault => exact sat
  | call request resume ih =>
    exact (answers request sat.1).bind fun reply answered => ih reply (sat.2 reply answered)

theorem Sat.makes {answers : Req → Rep → Prop} (sat : program.Sat spec good)
    (sound : ∀ request reply, spec.pre request → answers request reply → spec.post request reply)
    {request : Req} (made : program.Makes answers request) : spec.pre request := by
  induction program with
  | ret value => exact made.elim
  | panic fault => exact made.elim
  | call first resume ih =>
    rcases made with rfl | ⟨reply, answered, later⟩
    · exact sat.1
    · exact ih reply (sat.2 reply (sound first reply sat.1 answered)) later

theorem Sat.yields {answers : Req → Rep → Prop} (sat : program.Sat spec good)
    (sound : ∀ request reply, spec.pre request → answers request reply → spec.post request reply)
    {value : α} (yielded : program.Yields answers value) : good value := by
  induction program with
  | ret result => exact yielded ▸ sat
  | panic fault => exact yielded.elim
  | call first resume ih =>
    obtain ⟨reply, answered, later⟩ := yielded
    exact ih reply (sat.2 reply (sound first reply sat.1 answered)) later

theorem Yields.mono {answers others : Req → Rep → Prop} {value : α}
    (yielded : program.Yields answers value) (implies : ∀ request reply, answers request reply → others request reply) :
    program.Yields others value := by
  induction program with
  | ret result => exact yielded
  | panic fault => exact yielded
  | call request resume ih =>
    obtain ⟨reply, answered, later⟩ := yielded
    exact ⟨reply, implies request reply answered, ih reply later⟩

theorem yields_of_handle {answer : Req → Outcome Fault Rep} {answers : Req → Rep → Prop}
    {value : α} (sound : ∀ request reply, answer request = .ret reply → answers request reply)
    (ran : program.handle answer = .ret value) : program.Yields answers value := by
  induction program with
  | ret result => exact Outcome.ret.inj ran
  | panic fault => cases ran
  | call request resume ih =>
    cases replied : answer request with
    | ret reply =>
      simp only [handle, replied, Outcome.bind] at ran
      exact ⟨reply, sound request reply replied, ih reply ran⟩
    | panic fault => simp [handle, replied, Outcome.bind] at ran
    | outOfFuel => simp [handle, replied, Outcome.bind] at ran

theorem handle_eq_of_agree {answer other : Req → Outcome Fault Rep}
    (agree : ∀ request, answer request ≠ .outOfFuel → other request = answer request)
    (finished : program.handle answer ≠ .outOfFuel) : program.handle other = program.handle answer := by
  induction program with
  | ret value => rfl
  | panic fault => rfl
  | call request resume ih =>
    have same : other request = answer request := by
      apply agree
      intro stuck
      simp [handle, stuck, Outcome.bind] at finished
    simp only [handle, same] at finished ⊢
    cases result : answer request with
    | ret reply =>
      simp only [result, Outcome.bind] at finished ⊢
      exact ih reply finished
    | panic fault => rfl
    | outOfFuel => rfl

end Prog

-- A loop. `start` is the prologue of a request: the first loop state, or a reply straight away.
-- `step` is one iteration: it continues or leaves with a reply.
structure Machine (State Req Rep Fault : Type) where
  start : Req → State ⊕ Rep
  step : State → Prog Req Rep Fault (State ⊕ Rep)

namespace Machine

variable (machine : Machine State Req Rep Fault)

def enter (loop : State → Outcome Fault Rep) (request : Req) : Outcome Fault Rep :=
  match machine.start request with
  | .inl state => loop state
  | .inr reply => .ret reply

def resume (loop : State → Outcome Fault Rep) : State ⊕ Rep → Outcome Fault Rep
  | .inl state => loop state
  | .inr reply => .ret reply

-- Each iteration uses one unit of fuel, and so do the calls nested in it.
def loop : Nat → State → Outcome Fault Rep
  | 0, _ => .outOfFuel
  | fuel + 1, state =>
    ((machine.step state).handle (machine.enter (loop fuel))).bind (resume (loop fuel))

def run (fuel : Nat) (request : Req) : Outcome Fault Rep :=
  machine.enter (machine.loop fuel) request

-- The request is answered by this reply, given enough fuel.
def Returns (request : Req) (reply : Rep) : Prop :=
  ∃ fuel, machine.run fuel request = .ret reply

structure Invariant (spec : Spec Req Rep Fault) (keep : Req → State → Prop) : Prop where
  start : ∀ request, spec.pre request → Sum.elim (keep request) (spec.post request) (machine.start request)
  step : ∀ request state, keep request state →
    (machine.step state).Sat spec (Sum.elim (keep request) (spec.post request))

variable {machine}
variable {keep : Req → State → Prop}


theorem Invariant.enter_sat {limit : Prop}
    (invariant : machine.Invariant spec keep) {loop : State → Outcome Fault Rep}
    (loops : ∀ request state, keep request state → (loop state).Sat spec.safe limit (spec.post request))
    (request : Req) (pre : spec.pre request) :
    (machine.enter loop request).Sat spec.safe limit (spec.post request) := by
  have started := invariant.start request pre
  unfold enter
  cases result : machine.start request with
  | inl state => exact loops request state (by simpa [result] using started)
  | inr reply => simpa [result] using started

theorem Invariant.loop_sat
    (invariant : machine.Invariant spec keep) (fuel : Nat) (request : Req) (state : State)
    (kept : keep request state) :
    (machine.loop fuel state).Sat spec.safe True (spec.post request) := by
  induction fuel generalizing request state with
  | zero => trivial
  | succ fuel ih =>
    have nested : ∀ called, spec.pre called →
        (machine.enter (machine.loop fuel) called).Sat spec.safe True (spec.post called) :=
      fun called pre => invariant.enter_sat (fun r s k => ih r s k) called pre
    refine ((invariant.step request state kept).handle nested).bind fun next good => ?_
    cases next with
    | inl next => exact ih request next good
    | inr reply => exact good

theorem Invariant.run_sat
    (invariant : machine.Invariant spec keep) (fuel : Nat) (request : Req) (pre : spec.pre request) :
    (machine.run fuel request).Sat spec.safe True (spec.post request) :=
  invariant.enter_sat (fun r s k => invariant.loop_sat fuel r s k) request pre

theorem Invariant.returns
    (invariant : machine.Invariant spec keep) {request : Req} {reply : Rep} (pre : spec.pre request)
    (returned : machine.Returns request reply) : spec.post request reply := by
  obtain ⟨fuel, result⟩ := returned
  have sat := invariant.run_sat fuel request pre
  rwa [result] at sat

structure Decreasing (spec : Spec Req Rep Fault) (keep : Req → State → Prop)
    (size : State → Nat) (demand : Req → Nat) : Prop where
  start : ∀ request, spec.pre request → ∀ state, machine.start request = .inl state →
    size state ≤ demand request
  step : ∀ request state, keep request state →
    (machine.step state).Sat { spec with pre := fun called => spec.pre called ∧ demand called < size state }
      (Sum.elim (fun next => size next < size state) fun _ => True)

theorem Decreasing.loop_total
    {size : State → Nat} {demand : Req → Nat} (invariant : machine.Invariant spec keep)
    (decreasing : machine.Decreasing spec keep size demand) (fuel : Nat) (request : Req) (state : State)
    (kept : keep request state) (enough : size state < fuel) :
    (machine.loop fuel state).Sat spec.safe False (spec.post request) := by
  induction fuel generalizing request state with
  | zero => omega
  | succ fuel ih =>
    have both : (machine.step state).Sat
        { spec with pre := fun called => spec.pre called ∧ demand called < size state } _ :=
      ((invariant.step request state kept).and (decreasing.step request state kept)).weaken
        (fun _ pre => pre.2) (fun _ _ _ answered => ⟨answered, answered⟩) fun _ safe => safe.1
    have nested : ∀ called, (spec.pre called ∧ demand called < size state) →
        (machine.enter (machine.loop fuel) called).Sat spec.safe False (spec.post called) := by
      rintro called ⟨pre, smaller⟩
      have started := invariant.start called pre
      unfold enter
      cases result : machine.start called with
      | inl next =>
        have bound := decreasing.start called pre next result
        exact ih called next (by simpa [result] using started) (by omega)
      | inr reply => simpa [result] using started
    refine (both.handle nested).bind fun next good => ?_
    cases next with
    | inl next => exact ih request next good.1 (Nat.lt_of_lt_of_le good.2 (Nat.le_of_lt_succ enough))
    | inr reply => exact good.1

theorem Decreasing.run_total
    {size : State → Nat} {demand : Req → Nat} (invariant : machine.Invariant spec keep)
    (decreasing : machine.Decreasing spec keep size demand) (fuel : Nat) (request : Req)
    (pre : spec.pre request) (enough : demand request < fuel) :
    (machine.run fuel request).Sat spec.safe False (spec.post request) := by
  have started := invariant.start request pre
  unfold run enter
  cases result : machine.start request with
  | inl state =>
    have bound := decreasing.start request pre state result
    exact decreasing.loop_total invariant fuel request state (by simpa [result] using started) (by omega)
  | inr reply => simpa [result] using started

theorem enter_eq_of_agree {loop other : State → Outcome Fault Rep}
    (agree : ∀ state, loop state ≠ .outOfFuel → other state = loop state) (request : Req)
    (finished : machine.enter loop request ≠ .outOfFuel) :
    machine.enter other request = machine.enter loop request := by
  unfold enter at finished ⊢
  cases result : machine.start request with
  | inl state => simp only [result] at finished ⊢; exact agree state finished
  | inr reply => rfl

theorem loop_eq_of_le {fuel more : Nat} (le : fuel ≤ more) (state : State)
    (finished : machine.loop fuel state ≠ .outOfFuel) :
    machine.loop more state = machine.loop fuel state := by
  induction fuel generalizing more state with
  | zero => simp [loop] at finished
  | succ fuel ih =>
    obtain ⟨more, rfl⟩ : ∃ n, more = n + 1 := ⟨more - 1, by omega⟩
    have agree : ∀ s, machine.loop fuel s ≠ .outOfFuel → machine.loop more s = machine.loop fuel s :=
      fun s done => ih (by omega) s done
    simp only [loop] at finished ⊢
    have body : (machine.step state).handle (machine.enter (machine.loop more)) =
        (machine.step state).handle (machine.enter (machine.loop fuel)) := by
      apply Prog.handle_eq_of_agree (fun r done => enter_eq_of_agree agree r done)
      intro stuck
      simp [stuck, Outcome.bind] at finished
    rw [body]
    cases result : (machine.step state).handle (machine.enter (machine.loop fuel)) with
    | ret next =>
      simp only [result, Outcome.bind] at finished ⊢
      cases next with
      | inl next => exact agree next finished
      | inr reply => rfl
    | panic fault => rfl
    | outOfFuel => rfl

theorem run_eq_of_le {fuel more : Nat} (le : fuel ≤ more) (request : Req)
    (finished : machine.run fuel request ≠ .outOfFuel) :
    machine.run more request = machine.run fuel request :=
  enter_eq_of_agree (fun state done => loop_eq_of_le le state done) request finished

-- The frames that are active at some point of the execution of `root`, innermost first, each with
-- its request and its current loop state.
inductive Active (machine : Machine State Req Rep Fault) (root : Req) : List (Req × State) → Prop where
  | root {state : State} (started : machine.start root = .inl state) : Active machine root [(root, state)]
  | next {request : Req} {state later : State} {outer : List (Req × State)}
      (active : Active machine root ((request, state) :: outer))
      (yields : (machine.step state).Yields machine.Returns (.inl later)) :
      Active machine root ((request, later) :: outer)
  | call {request called : Req} {state inner : State} {outer : List (Req × State)}
      (active : Active machine root ((request, state) :: outer))
      (makes : (machine.step state).Makes machine.Returns called)
      (started : machine.start called = .inl inner) :
      Active machine root ((called, inner) :: (request, state) :: outer)

theorem Invariant.active {root : Req}
    (invariant : machine.Invariant spec keep) (pre : spec.pre root) {frames : List (Req × State)}
    (active : machine.Active root frames) :
    ∀ frame ∈ frames, spec.pre frame.1 ∧ keep frame.1 frame.2 := by
  have sound : ∀ request reply, spec.pre request → machine.Returns request reply → spec.post request reply :=
    fun _ _ required returned => invariant.returns required returned
  induction active with
  | root started =>
    have kept := invariant.start root pre
    simpa [started] using And.intro pre kept
  | next active yields ih =>
    intro frame member
    have head := ih _ List.mem_cons_self
    rcases List.mem_cons.mp member with rfl | member
    · exact ⟨head.1, (invariant.step _ _ head.2).yields sound yields⟩
    · exact ih frame (by simp [member])
  | call active makes started ih =>
    intro frame member
    have head := ih _ List.mem_cons_self
    rcases List.mem_cons.mp member with rfl | member
    · have required := (invariant.step _ _ head.2).makes sound makes
      have kept := invariant.start _ required
      exact ⟨required, by simpa [started] using kept⟩
    · exact ih frame member

theorem Invariant.stacked {root : Req}
    (invariant : machine.Invariant spec keep) (pre : spec.pre root) {tall : Req → List (Req × State) → Prop}
    (bottom : tall root [])
    (call : ∀ request state outer, keep request state → tall request outer →
      ∃ good, (machine.step state).Sat
        { spec with pre := fun called => spec.pre called ∧ tall called ((request, state) :: outer) } good)
    {frames : List (Req × State)} (active : machine.Active root frames) :
    ∀ request state outer, frames = (request, state) :: outer → tall request outer := by
  induction active with
  | root started =>
    rintro request state outer ⟨⟩
    exact bottom
  | next active yields ih =>
    rintro request state outer ⟨⟩
    exact ih _ _ _ rfl
  | @call request called state inner outer active makes started ih =>
    rintro _ _ _ ⟨⟩
    have kept := (invariant.active pre active _ List.mem_cons_self).2
    obtain ⟨good, stepped⟩ := call request state outer kept (ih _ _ _ rfl)
    exact (stepped.makes (fun _ _ required returned => invariant.returns required.1 returned) makes).2

end Machine

end CallTree
