import OutlinePage.Proofs.ServiceRuns

/-!
# The tool is loaded once

Whatever the order in which callers take their steps, the stage of every caller follows from the
history of the run. So one attempt at most gives the tool that all scripts are compiled with, the
fault of a failed attempt reaches the caller that made the attempt, and nobody waits for an attempt
that is over.
-/

namespace OutlinePage.Script

/-- The service is ready exactly if an attempt has succeeded; that was the latest one, and its tool
is in place. -/
structure ToolInPlace (s : Service) (h : History) : Prop where
  ofReady : s.state = .ready → ∃ caller, (caller, .succeeds s.attempts s.tool) ∈ h
  ofEvent : ∀ {caller attempt : Nat} {tool : Tool}, (caller, .succeeds attempt tool) ∈ h →
    s.state = .ready ∧ attempt = s.attempts ∧ tool = s.tool ∧ (s.load attempt).result = .ok tool

/-- How a caller's stage follows from the history and the service. -/
def Accounted (s : Service) (h : History) (caller : Nat) (call : Call) : Stage → Prop
  | .new => True
  | .loading attempt => (caller, .begins attempt) ∈ h
  | .waiting attempt => (caller, .waits attempt) ∈ h ∧ 1 ≤ attempt ∧ attempt ≤ s.attempts
  | .compiling tool job => s.state = .ready ∧ tool = s.tool ∧ call = .compile job
  | .done (.ok none) => s.state = .ready ∧ call = .start
  | .done (.ok (some code)) =>
    s.state = .ready ∧ ∃ job, call = .compile job ∧ s.tool job = .ok code
  | .done (.error fault) =>
    (∃ attempt, (caller, .fails attempt fault) ∈ h) ∨
    (fault = .notStarted ∧ ∃ attempt, (caller, .waits attempt) ∈ h) ∨
    (s.state = .ready ∧ ∃ job, call = .compile job ∧ s.tool job = .error fault)

/-- The service afterwards is ready with the same tool if it was ready before. -/
def Service.Keeps (s s' : Service) : Prop :=
  s.attempts ≤ s'.attempts ∧ (s.state = .ready → s'.state = .ready ∧ s'.tool = s.tool)

private theorem Accounted.later {s s' : Service} {h : History} {caller : Nat} {call : Call}
    {stage : Stage} (ha : Accounted s h caller call stage) (hkeeps : s.Keeps s')
    (events : History) : Accounted s' (h ++ events) caller call stage := by
  have hmem {e : Nat × Event} (he : e ∈ h) : e ∈ h ++ events := List.mem_append_left events he
  match stage, ha with
  | .new, _ => trivial
  | .loading _, hbegun => exact hmem hbegun
  | .waiting _, ⟨hwaits, hfirst, hlast⟩ =>
    exact ⟨hmem hwaits, hfirst, Nat.le_trans hlast hkeeps.1⟩
  | .compiling _ _, ⟨hready, htool, hcall⟩ =>
    obtain ⟨hready', htool'⟩ := hkeeps.2 hready
    exact ⟨hready', htool.trans htool'.symm, hcall⟩
  | .done (.ok none), ⟨hready, hcall⟩ => exact ⟨(hkeeps.2 hready).1, hcall⟩
  | .done (.ok (some _)), ⟨hready, job, hcall, hcode⟩ =>
    obtain ⟨hready', htool'⟩ := hkeeps.2 hready
    exact ⟨hready', job, hcall, htool' ▸ hcode⟩
  | .done (.error _), .inl ⟨attempt, hfails⟩ => exact .inl ⟨attempt, hmem hfails⟩
  | .done (.error _), .inr (.inl ⟨hfault, attempt, hwaits⟩) =>
    exact .inr (.inl ⟨hfault, attempt, hmem hwaits⟩)
  | .done (.error _), .inr (.inr ⟨hready, job, hcall, hfault⟩) =>
    obtain ⟨hready', htool'⟩ := hkeeps.2 hready
    exact .inr (.inr ⟨hready', job, hcall, htool' ▸ hfault⟩)

private theorem accounted_resume {s : Service} (hready : s.state = .ready) (h : History)
    (caller : Nat) (call : Call) : Accounted s h caller call (call.resume s.tool) := by
  cases call with
  | start => exact ⟨hready, rfl⟩
  | compile job => exact ⟨hready, rfl, rfl⟩

private theorem accounted_compiled {s : Service} {h : History} {caller : Nat} {call : Call}
    {tool : Tool} {job : Job} (ha : Accounted s h caller call (.compiling tool job)) :
    Accounted s h caller call (.done ((tool job).map some)) := by
  obtain ⟨hready, rfl, hcall⟩ := ha
  cases hresult : s.tool job with
  | ok code => exact ⟨hready, job, hcall, hresult⟩
  | error fault => exact .inr (.inr ⟨hready, job, hcall, hresult⟩)

/-- What holds of a run and its history at any time. -/
structure Sound (r : Run) (h : History) : Prop where
  ledger : Ledger r h
  inPlace : ToolInPlace r.service h
  /-- Every caller's stage follows from the history. -/
  accounted : ∀ {caller : Nat} {call : Call} {stage : Stage},
    r.tasks[caller]? = some ⟨call, stage⟩ → Accounted r.service h caller call stage
  /-- The fault of an attempt is the outcome of the caller that made the attempt. -/
  raised : ∀ {caller attempt : Nat} {fault : Fault}, (caller, .fails attempt fault) ∈ h →
    (r.service.load attempt).result = .error fault ∧
      ∃ call, r.tasks[caller]? = some ⟨call, .done (.error fault)⟩

private theorem sound_start (load : Nat → Loading) : Sound { service := { load } } [] where
  ledger := ⟨rfl, ⟨[], rfl, rfl, fun _ _ => by simp [Run.IsLoading]⟩, fun _ => Iff.rfl, rfl⟩
  inPlace := ⟨nofun, fun h => absurd h List.not_mem_nil⟩
  accounted h := by simp at h
  raised h := absurd h List.not_mem_nil

namespace Sound

variable {r : Run} {h : History} {caller : Nat} {call : Call} {before after : Stage} {s : Service}
  {events : List Event}

/-- Once a tool is in place, no step of a caller takes it away. -/
theorem keeps (hr : Sound r h) (hcaller : r.tasks[caller]? = some ⟨call, before⟩)
    (hgoes : r.service.Goes call before s after events) : r.service.Keeps s := by
  cases hgoes with
  | begins hidle => exact ⟨Nat.le_succ _, fun hready => by simp [hidle] at hready⟩
  | fails _ | succeeds _ =>
    have hloading := (hr.ledger.under_way ⟨call, hcaller⟩).1
    exact ⟨Nat.le_refl _, fun hready => by simp [hloading] at hready⟩
  | waits _ | resumes _ _ | resigns _ _ | compiles _ _ => exact ⟨Nat.le_refl _, fun h => ⟨h, rfl⟩⟩

private theorem inPlace_proceeds (hr : Sound r h) (hcaller : r.tasks[caller]? = some ⟨call, before⟩)
    (hgoes : r.service.Goes call before s after events) :
    ToolInPlace s (h ++ events.map (caller, ·)) := by
  -- Before the service is ready, no attempt has succeeded.
  have hnone (hstate : r.service.state ≠ .ready) {other attempt : Nat} {tool : Tool} :
      (other, .succeeds attempt tool) ∉ h := fun he => hstate (hr.inPlace.ofEvent he).1
  have hsame {e : Event} (he : ∀ attempt tool, e ≠ .succeeds attempt tool) :
      ToolInPlace r.service (h ++ [(caller, e)]) := by
    refine ⟨fun hready => ?_, fun hmem => ?_⟩
    · obtain ⟨other, hother⟩ := hr.inPlace.ofReady hready
      exact ⟨other, List.mem_append_left _ hother⟩
    · rcases List.mem_append.mp hmem with hmem | hmem
      · exact hr.inPlace.ofEvent hmem
      · cases List.mem_singleton.mp hmem
        exact absurd rfl (he _ _)
  cases hgoes with
  | begins hidle =>
    refine ⟨nofun, fun hmem => ?_⟩
    rcases List.mem_append.mp hmem with hmem | hmem
    · exact absurd hmem (hnone (by simp [hidle]))
    · cases List.mem_singleton.mp hmem
  | waits hloading => exact hsame (by simp)
  | fails hload =>
    have hloading := (hr.ledger.under_way ⟨call, hcaller⟩).1
    refine ⟨nofun, fun hmem => ?_⟩
    rcases List.mem_append.mp hmem with hmem | hmem
    · exact absurd hmem (hnone (by simp [hloading]))
    · cases List.mem_singleton.mp hmem
  | succeeds hload =>
    obtain ⟨hloading, rfl, -⟩ := hr.ledger.under_way ⟨call, hcaller⟩
    refine ⟨fun _ => ⟨caller, List.mem_append_right h List.mem_cons_self⟩, fun hmem => ?_⟩
    rcases List.mem_append.mp hmem with hmem | hmem
    · exact absurd hmem (hnone (by simp [hloading]))
    · cases List.mem_singleton.mp hmem
      exact ⟨rfl, rfl, rfl, hload⟩
  | resumes _ _ | resigns _ _ | compiles _ _ =>
    rw [List.map_nil, List.append_nil]
    exact hr.inPlace

private theorem accounted_proceeds (hr : Sound r h)
    (hcaller : r.tasks[caller]? = some ⟨call, before⟩)
    (hgoes : r.service.Goes call before s after events) :
    Accounted s (h ++ events.map (caller, ·)) caller call after := by
  have hbefore := hr.accounted hcaller
  cases hgoes with
  | begins hidle => exact List.mem_append_right h List.mem_cons_self
  | waits hloading =>
    refine ⟨List.mem_append_right h List.mem_cons_self, ?_, Nat.le_refl _⟩
    -- The attempt under way has a number, so the latest attempt is not the zeroth.
    obtain ⟨other, hother⟩ := hr.ledger.exists_isLoading hloading
    have hall := (hr.ledger.under_way hother).2.2
    have hnumbers := hr.ledger.numbered
    rw [hall] at hnumbers
    have hlength := congrArg List.length hnumbers
    simp only [List.map_append, List.length_append, List.length_map, List.length_cons,
      List.length_nil, List.length_range'] at hlength
    omega
  | fails hload => exact .inl ⟨_, List.mem_append_right h List.mem_cons_self⟩
  | succeeds hload =>
    exact accounted_resume (s := r.service.succeed _) rfl _ caller call
  | resumes hready hstage => exact accounted_resume hready _ caller call
  | resigns hsignalled hready =>
    exact .inr (.inl ⟨rfl, _, List.mem_append_left _ hbefore.1⟩)
  | compiles tool job =>
    exact (accounted_compiled hbefore).later ⟨Nat.le_refl _, fun h => ⟨h, rfl⟩⟩ []

private theorem raised_proceeds (hr : Sound r h) (hcaller : r.tasks[caller]? = some ⟨call, before⟩)
    (hgoes : r.service.Goes call before s after events) {other attempt : Nat} {fault : Fault}
    (hfails : (other, .fails attempt fault) ∈ h ++ events.map (caller, ·)) :
    (s.load attempt).result = .error fault ∧
      ∃ call', (r.tasks.set caller ⟨call, after⟩)[other]? =
        some ⟨call', .done (.error fault)⟩ := by
  rw [goes_load hgoes, tasks_set hcaller]
  rcases List.mem_append.mp hfails with hfails | hfails
  · obtain ⟨hresult, call', hother⟩ := hr.raised hfails
    refine ⟨hresult, ?_⟩
    split
    · next hsame =>
      -- A caller that is done takes no further step.
      subst hsame
      rw [hcaller] at hother
      cases hother
      cases hgoes with
      | resumes _ hstage => simp at hstage
    · exact ⟨call', hother⟩
  · cases hgoes with
    | fails hresult =>
      cases List.mem_singleton.mp hfails
      exact ⟨hresult, call, if_pos rfl⟩
    | begins _ | waits _ | succeeds _ => cases List.mem_singleton.mp hfails
    | resumes _ _ | resigns _ _ | compiles _ _ => cases hfails

/-- Every move keeps a run sound. -/
theorem move (hr : Sound r h) {r' : Run} {events : History} (hmove : r.Becomes r' events) :
    Sound r' (h ++ events) := by
  have hledger := hr.ledger.move hmove
  cases hmove with
  | stays =>
    rw [List.append_nil]
    exact hr
  | arrives call =>
    rw [List.append_nil] at hledger ⊢
    refine ⟨hledger, hr.inPlace, fun {caller call' stage} hcaller => ?_,
      fun {caller attempt fault} hfails => ?_⟩
    · rcases tasks_arrived hcaller with hcaller | hcaller
      · exact hr.accounted hcaller
      · cases hcaller
        trivial
    · obtain ⟨hresult, call', hcaller⟩ := hr.raised hfails
      exact ⟨hresult, call',
        (List.getElem?_append_left (List.getElem?_eq_some_iff.mp hcaller).1).trans hcaller⟩
  | @proceeds caller call before after s log events hcaller hgoes =>
    refine ⟨hledger, hr.inPlace_proceeds hcaller hgoes, fun {other call' stage} hother => ?_,
      hr.raised_proceeds hcaller hgoes⟩
    rw [tasks_set hcaller] at hother
    split at hother
    · next hsame =>
      subst hsame
      cases hother
      exact hr.accounted_proceeds hcaller hgoes
    · exact (hr.accounted hother).later (hr.keeps hcaller hgoes) _

end Sound

/-- Once the service is ready, it stays as it is and nobody begins or ends an attempt. -/
theorem Sound.ready_move {r r' : Run} {h events : History} (hr : Sound r h)
    (hready : r.service.state = .ready) (hmove : r.Becomes r' events) :
    r'.service = r.service ∧ events = [] := by
  cases hmove with
  | stays | arrives => exact ⟨rfl, rfl⟩
  | @proceeds caller call before after s log events hcaller hgoes =>
    cases hgoes with
    | begins hidle => simp [hready] at hidle
    | waits hloading => simp [hready] at hloading
    | fails _ | succeeds _ =>
      have hloading := (hr.ledger.under_way ⟨call, hcaller⟩).1
      simp [hready] at hloading
    | resumes _ _ | resigns _ _ | compiles _ _ => exact ⟨rfl, rfl⟩

private theorem Sound.ready_after {r : Run} {h : History} (hr : Sound r h)
    (hready : r.service.state = .ready) (moves : List Move) :
    (r.after moves).service = r.service ∧ r.history moves = [] := by
  have hall := after_induction
    (P := fun r' h' => Sound r' h' ∧ r'.service = r.service ∧ h' = h)
    (fun hkept hmove => by
      obtain ⟨hsound, hservice, hhistory⟩ := hkept
      obtain ⟨hsame, hnothing⟩ := hsound.ready_move (hservice ▸ hready) hmove
      exact ⟨hsound.move hmove, hsame.trans hservice, by rw [hnothing, List.append_nil, hhistory]⟩)
    ⟨hr, rfl, rfl⟩ moves
  exact ⟨hall.2.1, List.append_right_eq_self.mp hall.2.2⟩

private theorem sound_after (load : Nat → Loading) (moves : List Move) :
    Sound (({ service := { load } } : Run).after moves)
      (({ service := { load } } : Run).history moves) :=
  after_induction (fun hr hmove => hr.move hmove) (sound_start load) moves

/-- The tool is loaded once. At any time at most one attempt is under way, and one is exactly while
the service is loading. After an attempt has succeeded the service stays ready with the tool of that
attempt, and no attempt begins any more. Every script that was compiled was compiled by the tool of
the one attempt that succeeded. -/
theorem tool_loaded_once (load : Nat → Loading) (moves : List Move) :
    let start : Run := { service := { load } }
    let r := start.after moves
    let h := start.history moves
    (∀ caller attempt, r.IsLoading caller attempt ↔
      (caller, attempt) ∈ begun h ∧ (caller, attempt) ∉ ended h) ∧
    (∀ caller attempt caller' attempt', r.IsLoading caller attempt →
      r.IsLoading caller' attempt' → (caller', attempt') = (caller, attempt)) ∧
    ((∃ caller attempt, r.IsLoading caller attempt) ↔ r.service.state = .loading) ∧
    (∀ caller attempt tool, (caller, .succeeds attempt tool) ∈ h →
      ∀ more, (r.after more).service.state = .ready ∧ (r.after more).service.tool = tool ∧
        begun (r.history more) = []) ∧
    ∀ (caller : Nat) (job : Job) (code : Text),
      r.tasks[caller]? = some ⟨.compile job, .done (.ok (some code))⟩ →
        ∃ loader attempt tool, (loader, .succeeds attempt tool) ∈ h ∧
          (load attempt).result = .ok tool ∧ tool job = .ok code ∧
          ∀ loader' attempt' tool', (loader', .succeeds attempt' tool') ∈ h →
            loader' = loader ∧ attempt' = attempt ∧ tool' = tool := by
  intro start r h
  have hr : Sound r h := sound_after load moves
  have hload : r.service.load = load := load_after start moves
  refine ⟨hr.ledger.isLoading_iff, ?_, ?_, ?_, ?_⟩
  · intro caller attempt caller' attempt' hcaller hcaller'
    have hone := (hr.ledger.under_way hcaller).2.2
    rw [(hr.ledger.under_way hcaller').2.2] at hone
    exact List.singleton_inj.mp (List.append_cancel_left hone)
  · constructor
    · rintro ⟨caller, attempt, hcaller⟩
      exact (hr.ledger.under_way hcaller).1
    · intro hloading
      obtain ⟨caller, hcaller⟩ := hr.ledger.exists_isLoading hloading
      exact ⟨caller, _, hcaller⟩
  · intro caller attempt tool he more
    obtain ⟨hready, -, htool, -⟩ := hr.inPlace.ofEvent he
    obtain ⟨hservice, hnothing⟩ := hr.ready_after hready more
    rw [hservice, hnothing]
    exact ⟨hready, htool.symm, rfl⟩
  · intro caller job code hcaller
    obtain ⟨hready, job', hjob, hcode⟩ := hr.accounted hcaller
    cases hjob
    obtain ⟨loader, hloader⟩ := hr.inPlace.ofReady hready
    obtain ⟨-, -, -, hresult⟩ := hr.inPlace.ofEvent hloader
    refine ⟨loader, _, _, hloader, hload ▸ hresult, hcode, fun loader' attempt' tool' he => ?_⟩
    obtain ⟨-, rfl, htool, -⟩ := hr.inPlace.ofEvent he
    have hbegun := hr.ledger.ended_subset (mem_ended.mpr (.inr ⟨_, hloader⟩))
    have hbegun' := hr.ledger.ended_subset (mem_ended.mpr (.inr ⟨_, he⟩))
    exact ⟨hr.ledger.caller_unique hbegun hbegun', rfl, htool⟩

/-- What a caller that waits does when it is given the turn. -/
theorem proceed_waiting {r : Run} {caller attempt : Nat} {call : Call}
    (hcaller : r.tasks[caller]? = some ⟨call, .waiting attempt⟩) :
    (attempt ∉ r.service.signalled → r.proceed caller = r) ∧
    (attempt ∈ r.service.signalled → (r.proceed caller).tasks[caller]? =
      some ⟨call, if r.service.state = .ready then call.resume r.service.tool
        else .done (.error .notStarted)⟩) := by
  constructor
  · intro hsignalled
    simp only [Run.proceed, hcaller, Service.step, if_neg hsignalled]
  · intro hsignalled
    cases hstate : r.service.state <;>
      simp only [Run.proceed, hcaller, Service.step, if_pos hsignalled, Service.phase, hstate,
        tasks_set hcaller, if_true, reduceCtorEq, if_false]

/-- Whose signal was not given yet is still under way. -/
theorem Sound.exists_isLoading_of_waiting {r : Run} {h : History} (hr : Sound r h)
    {caller attempt : Nat} {call : Call}
    (hcaller : r.tasks[caller]? = some ⟨call, .waiting attempt⟩)
    (hsignalled : attempt ∉ r.service.signalled) : ∃ loader, r.IsLoading loader attempt := by
  obtain ⟨-, hfirst, hlast⟩ := hr.accounted hcaller
  -- The attempt was begun, so it is over or under way.
  have hnumber : attempt ∈ (begun h).map (·.2) := by
    rw [hr.ledger.numbered, List.mem_range'_1]
    omega
  obtain ⟨⟨loader, number⟩, hbegun, hsame⟩ := List.mem_map.mp hnumber
  obtain rfl : number = attempt := hsame
  refine ⟨loader, (hr.ledger.isLoading_iff loader number).mpr ⟨hbegun, fun hended => ?_⟩⟩
  exact hsignalled ((hr.ledger.signalled number).mpr (List.mem_map_of_mem hended))

/-- A failed attempt was begun by the caller that it failed for, and by nobody else. -/
theorem Sound.begun_iff_of_fails {r : Run} {h : History} (hr : Sound r h) {caller attempt : Nat}
    {fault : Fault} (he : (caller, .fails attempt fault) ∈ h) (other : Nat) :
    (other, attempt) ∈ begun h ↔ other = caller := by
  have hbegun := hr.ledger.ended_subset (mem_ended.mpr (.inl ⟨fault, he⟩))
  constructor
  · exact hr.ledger.caller_unique hbegun
  · rintro rfl
    exact hbegun

/-- Failed attempts are accounted for and strand nobody. The attempts begun are those that failed
and the one, if any, that is under way or has succeeded. The fault of a failed attempt is the
outcome of the one caller that made the attempt, and every fault is explained: by the caller's own
attempt, by a wait in vain, or by the tool. A caller that waited goes on only if the service is
ready when it wakes, and fails otherwise. Who still waits for a signal waits for an attempt that is
under way. -/
theorem failed_attempts_accounted (load : Nat → Loading) (moves : List Move) :
    let start : Run := { service := { load } }
    let r := start.after moves
    let h := start.history moves
    ((begun h).length = (failed h).length +
      if r.service.state = .loading ∨ r.service.state = .ready then 1 else 0) ∧
    (∀ caller attempt fault, (caller, .fails attempt fault) ∈ h →
      (load attempt).result = .error fault ∧
      (∃ call, r.tasks[caller]? = some ⟨call, .done (.error fault)⟩) ∧
      (∀ other, (other, attempt) ∈ begun h ↔ other = caller) ∧
      ∀ other, (other, attempt) ∈ failed h ↔ other = caller) ∧
    (∀ caller call fault, r.tasks[caller]? = some ⟨call, .done (.error fault)⟩ →
      (∃ attempt, (caller, .fails attempt fault) ∈ h) ∨
      (fault = .notStarted ∧ ∃ attempt, (caller, .waits attempt) ∈ h) ∨
      (r.service.state = .ready ∧ ∃ job, call = .compile job ∧
        r.service.tool job = .error fault)) ∧
    ∀ caller call attempt, r.tasks[caller]? = some ⟨call, .waiting attempt⟩ →
      (attempt ∈ r.service.signalled → (r.proceed caller).tasks[caller]? =
        some ⟨call, if r.service.state = .ready then call.resume r.service.tool
          else .done (.error .notStarted)⟩) ∧
      (r.service.state ≠ .loading → attempt ∈ r.service.signalled) ∧
      (attempt ∉ r.service.signalled →
        r.proceed caller = r ∧ ∃ loader, r.IsLoading loader attempt) := by
  intro start r h
  have hr : Sound r h := sound_after load moves
  have hload : r.service.load = load := load_after start moves
  refine ⟨?_, ?_, fun caller call fault hcaller => hr.accounted hcaller, ?_⟩
  · have htally := hr.ledger.tally
    obtain ⟨now, hnow, hlength, -⟩ := hr.ledger.underWay
    rw [hnow, List.length_append, hlength, htally]
    cases r.service.state <;> rfl
  · intro caller attempt fault he
    obtain ⟨hresult, hdone⟩ := hr.raised he
    refine ⟨hload ▸ hresult, hdone, hr.begun_iff_of_fails he, fun other => ⟨fun hother => ?_, ?_⟩⟩
    · obtain ⟨fault', he'⟩ := mem_failed.mp hother
      exact (hr.begun_iff_of_fails he other).mp ((hr.begun_iff_of_fails he' other).mpr rfl)
    · rintro rfl
      exact mem_failed.mpr ⟨fault, he⟩
  · intro caller call attempt hcaller
    obtain ⟨hblocked, hwakes⟩ := proceed_waiting hcaller
    refine ⟨hwakes, fun hstate => ?_, fun hsignalled =>
      ⟨hblocked hsignalled, hr.exists_isLoading_of_waiting hcaller hsignalled⟩⟩
    by_contra hsignalled
    obtain ⟨loader, hloading⟩ := hr.exists_isLoading_of_waiting hcaller hsignalled
    exact hstate (hr.ledger.under_way hloading).1

/-- The second caller waits for an attempt that fails, and wakes while a third caller is trying
again. It fails although that attempt succeeds, and a later script is compiled. -/
example :
    let load : Nat → Loading := fun attempt =>
      if attempt = 1 then { result := .error .crashed }
      else { result := .ok fun job => .ok ("// done\n" ++ job.source) }
    let r := ({ service := { load } } : Run).after
      [.arrive (.compile { source := "a" }), .arrive (.compile { source := "b" }), .proceed 0,
        .proceed 1, .proceed 0, .arrive .start, .proceed 2, .proceed 1, .proceed 2,
        .arrive (.compile { source := "c" }), .proceed 3, .proceed 3]
    r.service.attempts = 2 ∧ r.tasks.map Task.outcome =
      [.error .crashed, .error .notStarted, .ok none, .ok (some "// done\nc".toList)] := by
  exact ⟨rfl, rfl⟩

end OutlinePage.Script
