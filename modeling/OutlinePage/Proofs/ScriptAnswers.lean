import OutlinePage.Script.Service

/-!
# What a script service answers

A service answers a script with its code or a fault. Once it has compiled a script its tool is
loaded, and from then on it answers every script as it would have done at first. If all attempts to
load the tool end alike, the answers never depend on what was compiled before, whether it failed or
not.
-/

namespace OutlinePage.Script

/-- What the service makes of a script. -/
def Service.answer (s : Service) (job : Job) : Except Fault Text := (s.compile job).1

private theorem map_getD_map_some (result : Except Fault Text) :
    (result.map some).map (fun code : Option Text => code.getD []) = result := by
  cases result <;> rfl

/-- A caller on its own takes its steps one after the other. -/
theorem gather_singleton (s : Service) (call : Call) :
    s.gather [call] =
      (((⟨s, [{ call }], []⟩ : Run).proceed 0).proceed 0).proceed 0 := rfl

private theorem proceed_singleton {s s' : Service} {t : Task} {stage : Stage} {log log' : Log}
    (h : s.step t = some (s', stage, log')) :
    (⟨s, [t], log⟩ : Run).proceed 0 = ⟨s', [{ t with stage }], log ++ log'⟩ := by
  simp only [Run.proceed, List.getElem?_cons_zero, h]
  rfl

private theorem proceed_singleton_none {s : Service} {t : Task} {log : Log} (h : s.step t = none) :
    (⟨s, [t], log⟩ : Run).proceed 0 = ⟨s, [t], log⟩ := by
  simp only [Run.proceed, List.getElem?_cons_zero, h]

/-- A service that has its tool asks it. -/
theorem compile_of_ready {s : Service} {tool : Tool} (h : s.phase = .ready tool) (job : Job) :
    s.compile job = (tool job, s, []) := by
  have hnew : s.step { call := .compile job } = some (s, .compiling tool job, []) := by
    simp only [Service.step, h, Call.resume]
  rw [Service.compile, Service.call, gather_singleton, proceed_singleton hnew,
    proceed_singleton rfl, proceed_singleton_none rfl]
  simp only [Task.outcome, map_getD_map_some, List.append_nil]

/-- A service that is loading its tool refuses. -/
theorem compile_of_loading {s : Service} (h : s.phase = .loading) (job : Job) :
    s.compile job = (.error .notStarted, s, []) := by
  have hnew : s.step { call := .compile job } = some (s, .waiting s.attempts, []) := by
    simp only [Service.step, h]
  rw [Service.compile, Service.call, gather_singleton, proceed_singleton hnew]
  by_cases hsignal : s.attempts ∈ s.signalled
  · have hwake : s.step ⟨.compile job, .waiting s.attempts⟩ =
        some (s, .done (.error .notStarted), []) := by
      simp only [Service.step, if_pos hsignal, h]
    rw [proceed_singleton hwake, proceed_singleton_none rfl]
    rfl
  · have hblocked : s.step ⟨.compile job, .waiting s.attempts⟩ = none := by
      simp only [Service.step, if_neg hsignal]
    rw [proceed_singleton_none hblocked, proceed_singleton_none hblocked]
    rfl

/-- A service without a tool tries to load it, and asks the tool that it gets. -/
theorem compile_of_idle {s : Service} (h : s.phase = .idle) (job : Job) :
    s.compile job =
      match (s.load (s.attempts + 1)).result with
      | .ok tool => (tool job, s.begin.succeed tool,
          (s.load (s.attempts + 1)).log ++ [loadedLine])
      | .error fault => (.error fault, s.begin.fail,
          (s.load (s.attempts + 1)).log) := by
  have hnew : s.step { call := .compile job } =
      some (s.begin, .loading (s.attempts + 1), []) := by
    simp only [Service.step, h, Service.begin]
  rw [Service.compile, Service.call, gather_singleton, proceed_singleton hnew]
  cases hload : (s.load (s.attempts + 1)).result with
  | ok tool =>
    have hended : s.begin.step ⟨.compile job, .loading (s.attempts + 1)⟩ =
        some (s.begin.succeed tool, .compiling tool job,
          (s.load (s.attempts + 1)).log ++ [loadedLine]) := by
      simp only [Service.step, Service.begin, hload, Call.resume]
    rw [proceed_singleton hended, proceed_singleton rfl]
    simp only [Task.outcome, map_getD_map_some, List.append_nil, List.nil_append]
  | error fault =>
    have hended : s.begin.step ⟨.compile job, .loading (s.attempts + 1)⟩ =
        some (s.begin.fail, .done (.error fault), (s.load (s.attempts + 1)).log) := by
      simp only [Service.step, Service.begin, hload]
    rw [proceed_singleton hended, proceed_singleton_none rfl]
    rfl

/-- Compiling a script leaves a service that answers all scripts as before. -/
theorem answer_of_compile_ok {s s' : Service} {job : Job} {code : Text} {log : Log}
    (h : s.compile job = (.ok code, s', log)) : s'.answer = s.answer := by
  funext job'
  rw [Service.answer, Service.answer]
  cases hphase : s.phase with
  | ready tool =>
    rw [compile_of_ready hphase] at h
    obtain rfl : s = s' := congrArg (·.2.1) h
    rfl
  | loading =>
    rw [compile_of_loading hphase] at h
    cases congrArg (·.1) h
  | idle =>
    rw [compile_of_idle hphase] at h ⊢
    cases hload : (s.load (s.attempts + 1)).result with
    | error fault =>
      rw [hload] at h
      cases congrArg (·.1) h
    | ok tool =>
      rw [hload] at h
      obtain rfl : _ = s' := congrArg (·.2.1) h
      rw [compile_of_ready rfl]
      rfl

/-! ### Attempts that end alike -/

/-- All attempts of the service to load its tool end in the same way, nobody is loading it, and the
one in place is the one that they give. -/
structure Steady (outcome : Except Fault Tool) (s : Service) : Prop where
  result_load : ∀ attempt, (s.load attempt).result = outcome
  phase : s.phase = .idle ∨ ∃ tool, outcome = .ok tool ∧ s.phase = .ready tool

/-- A service that has not been used yet is steady if its attempts are. -/
theorem steady_new {outcome : Except Fault Tool} {load : Nat → Loading}
    (h : ∀ attempt, (load attempt).result = outcome) : Steady outcome { load } :=
  ⟨h, .inl rfl⟩

private theorem Steady.compile {outcome : Except Fault Tool} {s : Service} (h : Steady outcome s)
    (job : Job) :
    (s.compile job).1 = outcome.bind (· job) ∧ Steady outcome (s.compile job).2.1 := by
  rcases h.phase with hidle | ⟨tool, rfl, hready⟩
  · rw [compile_of_idle hidle, h.result_load]
    cases outcome with
    | error fault => exact ⟨rfl, h.result_load, .inl rfl⟩
    | ok tool => exact ⟨rfl, h.result_load, .inr ⟨tool, rfl, rfl⟩⟩
  · rw [compile_of_ready hready]
    exact ⟨rfl, h⟩

/-! ### Services that give the same answers -/

/-- All services with the property give these answers, and compiling a script keeps the property. -/
def Consistent (answer : Job → Except Fault Text) (P : Service → Prop) : Prop :=
  ∀ s, P s → ∀ job, (s.compile job).1 = answer job ∧ P (s.compile job).2.1

/-- Services for which all attempts end alike answer alike. -/
theorem consistent_steady (outcome : Except Fault Tool) :
    Consistent (fun job => outcome.bind (· job)) (Steady outcome) :=
  fun _ h job => h.compile job

/-- The service after it has compiled some scripts. -/
def Service.after (s : Service) (jobs : List Job) : Service :=
  jobs.foldl (fun s job => (s.compile job).2.1) s

/-- Whatever the service has compiled before, it answers a script as it would have done at first. -/
def Service.Repeatable (s : Service) : Prop := ∀ jobs, (s.after jobs).answer = s.answer

/-- What a repeatable service becomes answers as the service does. -/
theorem consistent_after {s : Service} (h : s.Repeatable) :
    Consistent s.answer fun s' => ∃ jobs, s' = s.after jobs := by
  rintro s' ⟨jobs, rfl⟩ job
  refine ⟨congrFun (h jobs) job, jobs ++ [job], ?_⟩
  have hstep : s.after (jobs ++ [job]) = ((s.after jobs).compile job).2.1 := List.foldl_append
  exact hstep.symm

/-- A service for which all attempts end alike is repeatable. -/
theorem Steady.repeatable {outcome : Except Fault Tool} {s : Service} (h : Steady outcome s) :
    s.Repeatable := by
  intro jobs
  have hafter : Steady outcome (s.after jobs) := by
    induction jobs generalizing s with
    | nil => exact h
    | cons job jobs ih => exact ih (h.compile job).2
  funext job
  exact (hafter.compile job).1.trans (h.compile job).1.symm

end OutlinePage.Script
