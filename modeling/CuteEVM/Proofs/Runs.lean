import CuteEVM.Proofs.Entry
import CuteEVM.Shared.Execution

set_option autoImplicit false

-- `Run` and the entry points call each other.

namespace CuteEVM

open CallTree

variable [Crypto]

theorem Answers.yields {env : Env} {inv : Invocation} {reply : Reply} (answered : Answers env inv reply) :
    (entry env inv).Yields (machine env).Returns reply := by
  obtain ⟨fuel, result⟩ := answered
  exact Prog.yields_of_handle (fun _ _ returned => ⟨fuel, returned⟩) result

theorem Answers.of_yields {env : Env} {inv : Invocation} {reply : Reply}
    (yields : (entry env inv).Yields (machine env).Returns reply) : Answers env inv reply :=
  Machine.handle_of_yields yields

-- Some executions: stacks of active frames that are closed under what the innermost frame does next, and the calls of
-- entry points that come with them.
structure Scope (env : Env) (inside : List (RunReq × Frame) → Prop) (invoked : Invocation → Prop) : Prop where
  next : ∀ {request fr later outer}, inside ((request, fr) :: outer) →
    ((machine env).step fr).Yields (machine env).Returns (.inl later) → inside ((request, later) :: outer)
  nested : ∀ {request fr outer inv}, inside ((request, fr) :: outer) → (step env fr).Makes (Answers env) inv → invoked inv
  opens : ∀ {inv request}, invoked inv → (entry env inv).Makes (machine env).Returns request →
    ∃ outer, ∀ fr, start request = .inl fr → inside ((request, fr) :: outer)

theorem running_scope (env : Env) (root : Invocation) : Scope env (Running env root) (Invoked env root) where
  next := by
    rintro request fr later outer ⟨first, made, active⟩ yields
    exact ⟨first, made, .next active yields⟩
  nested := fun running makes => .nested running makes
  opens := by
    intro inv request invoked makes
    cases invoked with
    | root => exact ⟨[], fun fr started => ⟨request, makes, .root started⟩⟩
    | @nested caller fr outer _ running asked =>
      obtain ⟨first, made, active⟩ := running
      have inlined : ((machine env).step fr).Makes (machine env).Returns request :=
        asked.inline makes fun _ _ answered => answered.yields
      exact ⟨(caller, fr) :: outer, fun inner started => ⟨first, made, .call active inlined started⟩⟩

theorem Invoked.running {env : Env} {root inner : Invocation} (invoked : Invoked env root inner) {frames : List (RunReq × Frame)}
    (running : Running env inner frames) : ∃ outer, Running env root (frames ++ outer) := by
  cases invoked with
  | root => exact ⟨[], by simpa using running⟩
  | @nested caller fr outer _ above asked =>
    obtain ⟨first, made, active⟩ := above
    obtain ⟨request, makes, within⟩ := running
    have inlined : ((machine env).step fr).Makes (machine env).Returns request :=
      asked.inline makes fun _ _ answered => answered.yields
    refine ⟨(caller, fr) :: outer, first, made, ?_⟩
    induction within with
    | root started => exact .call active inlined started
    | next _ yields ih => exact .next ih yields
    | call _ asks started ih => exact .call ih asks started

theorem Invoked.trans {env : Env} {root inner inv : Invocation} (outer : Invoked env root inner)
    (invoked : Invoked env inner inv) :
    Invoked env root inv := by
  cases invoked with
  | root => exact outer
  | nested running makes =>
    obtain ⟨rest, whole⟩ := outer.running running
    exact .nested whole makes

theorem active_scope (env : Env) (root : RunReq) : Scope env ((machine env).Active root) fun inv =>
    ∃ request fr outer, (machine env).Active root ((request, fr) :: outer) ∧ (step env fr).Makes (Answers env) inv where
  next := fun active yields => .next active yields
  nested := fun {request fr outer} _ active makes => ⟨request, fr, outer, active, makes⟩
  opens := by
    rintro inv request ⟨caller, fr, outer, active, asked⟩ makes
    have inlined : ((machine env).step fr).Makes (machine env).Returns request :=
      asked.inline makes fun _ _ answered => answered.yields
    exact ⟨(caller, fr) :: outer, fun inner started => .call active inlined started⟩

def Started (inside : List (RunReq × Frame) → Prop) (request : RunReq) : Prop :=
  ∃ outer, ∀ fr, start request = .inl fr → inside ((request, fr) :: outer)

structure Ongoing (env : Env) (inside : List (RunReq × Frame) → Prop) (request : RunReq) (fr : Frame) : Prop where
  running : ∃ outer, inside ((request, fr) :: outer)
  ends : ∀ res, (machine env).Loops fr res → (machine env).Returns request res

section Ongoing

variable {env : Env} {inside : List (RunReq × Frame) → Prop} {invoked : Invocation → Prop} {request : RunReq} {fr : Frame}

theorem Ongoing.next (scope : Scope env inside invoked) (ongoing : Ongoing env inside request fr) {later : Frame}
    (yields : (step env fr).Yields (Answers env) (.inl later)) : Ongoing env inside request later := by
  obtain ⟨outer, running⟩ := ongoing.running
  have inlined : ((machine env).step fr).Yields (machine env).Returns (.inl later) :=
    yields.inline fun _ _ answered => answered.yields
  exact ⟨⟨outer, scope.next running inlined⟩, fun res loops => ongoing.ends res (.of_next inlined loops)⟩

theorem Ongoing.done (ongoing : Ongoing env inside request fr) {res : RunRes}
    (yields : (step env fr).Yields (Answers env) (.inr res)) : (machine env).Returns request res :=
  ongoing.ends res (Machine.loops_of_done (yields.inline fun _ _ answered => answered.yields))

end Ongoing

structure Upholds (env : Env) (calls : Spec Invocation Reply Panic) (runs : Spec RunReq RunRes Panic)
    (keep : RunReq → Frame → Prop) : Prop where
  start : ∀ request, runs.pre request → Sum.elim (keep request) (runs.post request) (start request)
  step : ∀ request fr, keep request fr → (step env fr).Sat calls (Sum.elim (keep request) (runs.post request))
  entry : ∀ inv, calls.pre inv → (entry env inv).Sat runs (calls.post inv)
  safe : ∀ fault, calls.safe fault → runs.safe fault

namespace Upholds

variable {env : Env} {calls : Spec Invocation Reply Panic} {runs : Spec RunReq RunRes Panic}
  {keep : RunReq → Frame → Prop} {inv : Invocation}

theorem invariant (upholds : Upholds env calls runs keep) : (machine env).Invariant runs keep where
  start := upholds.start
  step := fun request fr kept => (upholds.step request fr kept).inline upholds.entry upholds.safe

theorem invoke (upholds : Upholds env calls runs keep) (fuel : Nat) (pre : calls.pre inv) :
    (invoke env fuel inv).Sat runs.safe True (calls.post inv) :=
  (upholds.entry inv pre).handle fun request required => upholds.invariant.run_sat fuel request required

theorem returns (upholds : Upholds env calls runs keep) (request : RunReq) (res : RunRes) (pre : runs.pre request)
    (returned : (machine env).Returns request res) : runs.post request res :=
  upholds.invariant.returns pre returned

theorem answers (upholds : Upholds env calls runs keep) (pre : calls.pre inv) {reply : Reply}
    (answered : Answers env inv reply) : calls.post inv reply :=
  (upholds.entry inv pre).yields upholds.returns answered.yields

theorem running (upholds : Upholds env calls runs keep) (pre : calls.pre inv) {frames : List (RunReq × Frame)}
    (running : Running env inv frames) : ∀ frame ∈ frames, runs.pre frame.1 ∧ keep frame.1 frame.2 := by
  obtain ⟨root, made, active⟩ := running
  exact upholds.invariant.active ((upholds.entry inv pre).makes upholds.returns made) active

theorem invoked (upholds : Upholds env calls runs keep) {root : Invocation} (pre : calls.pre root)
    (invoked : Invoked env root inv) : calls.pre inv := by
  cases invoked with
  | root => exact pre
  | nested running makes =>
    have kept := (upholds.running pre running _ List.mem_cons_self).2
    exact (upholds.step _ _ kept).makes (fun _ _ required answered => upholds.answers required answered) makes

theorem extend (base : Upholds env calls runs keep) {callPre : Invocation → Prop} {callPost : Invocation → Reply → Prop}
    {runPre : RunReq → Prop} {runPost : RunReq → RunRes → Prop} {also : RunReq → Frame → Prop} {safe : Panic → Prop}
    (starts : ∀ request, runs.pre request → runPre request →
      Sum.elim (also request) (runPost request) (CuteEVM.start request))
    (steps : ∀ request fr, keep request fr → also request fr → (CuteEVM.step env fr).Sat
      ⟨callPre, fun inv reply => calls.post inv reply ∧ callPost inv reply, safe⟩ (Sum.elim (also request) (runPost request)))
    (entries : ∀ inv, calls.pre inv → callPre inv → (CuteEVM.entry env inv).Sat
      ⟨runPre, fun request res => runs.post request res ∧ runPost request res, safe⟩ (callPost inv)) :
    Upholds env
      ⟨fun inv => calls.pre inv ∧ callPre inv, fun inv reply => calls.post inv reply ∧ callPost inv reply,
        fun fault => calls.safe fault ∧ safe fault⟩
      ⟨fun request => runs.pre request ∧ runPre request, fun request res => runs.post request res ∧ runPost request res,
        fun fault => runs.safe fault ∧ safe fault⟩
      fun request fr => keep request fr ∧ also request fr where
  start := by
    rintro request ⟨first, second⟩
    have kept := base.start request first
    have more := starts request first second
    cases started : CuteEVM.start request with
    | inl fr =>
      rw [started] at kept more
      exact ⟨kept, more⟩
    | inr res =>
      rw [started] at kept more
      exact ⟨kept, more⟩
  step := by
    rintro request fr ⟨kept, more⟩
    refine Prog.Sat.mono (Prog.Sat.weaken ((base.step request fr kept).and (steps request fr kept more)) (fun _ pre => pre)
      (fun _ _ _ post => ⟨post.1, post⟩) fun _ safe => safe) ?_
    rintro (next | res) good
    · exact good
    · exact good
  entry := by
    rintro inv ⟨first, second⟩
    exact Prog.Sat.weaken ((base.entry inv first).and (entries inv first second)) (fun _ pre => pre)
      (fun _ _ _ post => ⟨post.1, post⟩) fun _ safe => safe
  safe := fun fault both => ⟨base.safe fault both.1, both.2⟩

theorem along (upholds : Upholds env calls runs keep) {inside : List (RunReq × Frame) → Prop} {invoked : Invocation → Prop}
    (scope : Scope env inside invoked) :
    Upholds env
      ⟨fun inv => calls.pre inv ∧ invoked inv, fun inv reply => calls.post inv reply ∧ Answers env inv reply, calls.safe⟩
      ⟨fun request => runs.pre request ∧ Started inside request,
        fun request res => runs.post request res ∧ (machine env).Returns request res, runs.safe⟩
      fun request fr => keep request fr ∧ Ongoing env inside request fr where
  start := by
    rintro request ⟨pre, outer, starts⟩
    have kept := upholds.start request pre
    cases started : CuteEVM.start request with
    | inl fr =>
      rw [started] at kept
      exact ⟨kept, ⟨outer, starts fr started⟩, fun res loops => loops.returns started⟩
    | inr res =>
      rw [started] at kept
      refine ⟨kept, 0, ?_⟩
      change (machine env).enter _ request = _
      simp only [Machine.enter, machine, started]
  step := by
    rintro request fr ⟨kept, active⟩
    have paths := (upholds.step request fr kept).along (Answers env)
    refine Prog.Sat.mono (Prog.Sat.weaken paths (fun inv asked => ⟨asked.1, ?_⟩) (fun _ _ _ post => post) fun _ safe => safe) ?_
    · obtain ⟨outer, running⟩ := active.running
      exact scope.nested running asked.2
    · rintro (later | res) ⟨good, yields⟩
      · exact ⟨good, active.next scope yields⟩
      · exact ⟨good, active.done yields⟩
  entry := by
    rintro inv ⟨pre, member⟩
    have paths := (upholds.entry inv pre).along (machine env).Returns
    refine Prog.Sat.mono (Prog.Sat.weaken paths (fun request made => ⟨made.1, scope.opens member made.2⟩) (fun _ _ _ post => post)
      fun _ safe => safe) ?_
    rintro reply ⟨good, yields⟩
    exact ⟨good, .of_yields yields⟩
  safe := upholds.safe

end Upholds

end CuteEVM
