import Mathlib.Data.List.Nodup
import OutlinePage.Script.Service

/-!
# Callers of the script service, in any order

Any number of callers use one service, and their steps interleave in any way. The history of a run
says which caller began, waited for or ended which attempt to load the tool. Every attempt that was
begun is over or under way, and at most one is under way.
-/

namespace OutlinePage.Script

/-- What a caller's step means for the attempts. -/
inductive Event where
  | begins (attempt : Nat)
  | waits (attempt : Nat)
  | fails (attempt : Nat) (fault : Fault)
  | succeeds (attempt : Nat) (tool : Tool)

/-- What the caller's next step means for the attempts. -/
def Service.events (s : Service) (t : Task) : List Event :=
  match t.stage with
  | .new =>
    match s.state with
    | .idle => [.begins s.begin.attempts]
    | .loading => [.waits s.attempts]
    | .ready => []
  | .loading attempt =>
    match (s.load attempt).result with
    | .ok tool => [.succeeds attempt tool]
    | .error fault => [.fails attempt fault]
  | _ => []

/-- What callers did, oldest first. -/
abbrev History := List (Nat × Event)

/-- What a move adds to the history. -/
def Run.events (r : Run) : Move → History
  | .arrive _ => []
  | .proceed caller =>
    match r.tasks[caller]? with
    | none => []
    | some t => (r.service.events t).map (caller, ·)

/-- The history of some moves. -/
def Run.history (r : Run) : List Move → History
  | [] => []
  | m :: moves => r.events m ++ (r.move m).history moves

/-- The attempts that were begun, each with its caller. -/
def begun (h : History) : List (Nat × Nat) :=
  h.filterMap fun
    | (caller, .begins attempt) => some (caller, attempt)
    | _ => none

/-- The attempts that failed, each with its caller. -/
def failed (h : History) : List (Nat × Nat) :=
  h.filterMap fun
    | (caller, .fails attempt _) => some (caller, attempt)
    | _ => none

/-- The attempts that are over, each with its caller. -/
def ended (h : History) : List (Nat × Nat) :=
  h.filterMap fun
    | (caller, .fails attempt _) => some (caller, attempt)
    | (caller, .succeeds attempt _) => some (caller, attempt)
    | _ => none

/-- An attempt has failed if there is an event that says so. -/
theorem mem_failed {h : History} {caller attempt : Nat} :
    (caller, attempt) ∈ failed h ↔ ∃ fault, (caller, .fails attempt fault) ∈ h := by
  rw [failed, List.mem_filterMap]
  constructor
  · rintro ⟨⟨other, event⟩, he, hsome⟩
    cases event with
    | fails number fault =>
      cases hsome
      exact ⟨fault, he⟩
    | begins _ | waits _ | succeeds _ _ => cases hsome
  · rintro ⟨fault, he⟩
    exact ⟨_, he, rfl⟩

/-- An attempt has ended if there is an event that says that it failed or succeeded. -/
theorem mem_ended {h : History} {caller attempt : Nat} :
    (caller, attempt) ∈ ended h ↔ (∃ fault, (caller, .fails attempt fault) ∈ h) ∨
      ∃ tool, (caller, .succeeds attempt tool) ∈ h := by
  rw [ended, List.mem_filterMap]
  constructor
  · rintro ⟨⟨other, event⟩, he, hsome⟩
    cases event with
    | fails number fault =>
      cases hsome
      exact .inl ⟨fault, he⟩
    | succeeds number tool =>
      cases hsome
      exact .inr ⟨tool, he⟩
    | begins _ | waits _ => cases hsome
  · rintro (⟨fault, he⟩ | ⟨tool, he⟩)
    · exact ⟨_, he, rfl⟩
    · exact ⟨_, he, rfl⟩

/-! ### What a move can do -/

/-- How a caller goes on: from its stage, to the service and the stage afterwards. -/
inductive Service.Goes (s : Service) (call : Call) : Stage → Service → Stage → List Event → Prop
  | begins (hidle : s.state = .idle) :
    s.Goes call .new s.begin (.loading s.begin.attempts) [.begins s.begin.attempts]
  | waits (hloading : s.state = .loading) :
    s.Goes call .new s (.waiting s.attempts) [.waits s.attempts]
  | fails {attempt : Nat} {fault : Fault} (hload : (s.load attempt).result = .error fault) :
    s.Goes call (.loading attempt) s.fail (.done (.error fault)) [.fails attempt fault]
  | succeeds {attempt : Nat} {tool : Tool} (hload : (s.load attempt).result = .ok tool) :
    s.Goes call (.loading attempt) (s.succeed tool) (call.resume tool) [.succeeds attempt tool]
  | resumes {stage : Stage} (hready : s.state = .ready)
    (hstage : stage = .new ∨ ∃ attempt ∈ s.signalled, stage = .waiting attempt) :
    s.Goes call stage s (call.resume s.tool) []
  | resigns {attempt : Nat} (hsignalled : attempt ∈ s.signalled) (hready : s.state ≠ .ready) :
    s.Goes call (.waiting attempt) s (.done (.error .notStarted)) []
  | compiles (tool : Tool) (job : Job) :
    s.Goes call (.compiling tool job) s (.done ((tool job).map some)) []

private theorem goes_of_step {s s' : Service} {t : Task} {stage : Stage} {log : Log}
    (h : s.step t = some (s', stage, log)) : s.Goes t.call t.stage s' stage (s.events t) := by
  obtain ⟨call, before⟩ := t
  cases before with
  | new =>
    cases hstate : s.state with
    | idle =>
      simp only [Service.step, Service.phase, hstate] at h
      cases h
      simp only [Service.events, hstate]
      exact .begins hstate
    | loading =>
      simp only [Service.step, Service.phase, hstate] at h
      cases h
      simp only [Service.events, hstate]
      exact .waits hstate
    | ready =>
      simp only [Service.step, Service.phase, hstate] at h
      cases h
      simp only [Service.events, hstate]
      exact .resumes hstate (.inl rfl)
  | loading attempt =>
    cases hload : (s.load attempt).result with
    | ok tool =>
      simp only [Service.step, hload] at h
      cases h
      simp only [Service.events, hload]
      exact .succeeds hload
    | error fault =>
      simp only [Service.step, hload] at h
      cases h
      simp only [Service.events, hload]
      exact .fails hload
  | waiting attempt =>
    by_cases hsignalled : attempt ∈ s.signalled
    · cases hstate : s.state with
      | ready =>
        simp only [Service.step, if_pos hsignalled, Service.phase, hstate] at h
        cases h
        exact .resumes hstate (.inr ⟨attempt, hsignalled, rfl⟩)
      | idle | loading =>
        simp only [Service.step, if_pos hsignalled, Service.phase, hstate] at h
        cases h
        exact .resigns hsignalled (by simp [hstate])
    · simp only [Service.step, if_neg hsignalled] at h
      cases h
  | compiling tool job =>
    cases h
    exact .compiles tool job
  | done outcome => cases h

/-- Who cannot take a step is waiting or done, and adds nothing to the history. -/
theorem events_of_blocked {s : Service} {t : Task} (h : s.step t = none) : s.events t = [] := by
  obtain ⟨call, stage⟩ := t
  cases stage with
  | waiting attempt => rfl
  | done outcome => rfl
  | compiling tool job => rfl
  | new => cases hstate : s.state <;> simp [Service.step, Service.phase, hstate] at h
  | loading attempt => cases hload : (s.load attempt).result <;> simp [Service.step, hload] at h

/-- What a move makes of a run, and what it adds to the history. -/
inductive Run.Becomes (r : Run) : Run → History → Prop
  | stays : r.Becomes r []
  | arrives (call : Call) : r.Becomes { r with tasks := r.tasks ++ [{ call }] } []
  | proceeds {caller : Nat} {call : Call} {before after : Stage} {s : Service} {log : Log}
    {events : List Event} (hcaller : r.tasks[caller]? = some ⟨call, before⟩)
    (hgoes : r.service.Goes call before s after events) :
    r.Becomes ⟨s, r.tasks.set caller ⟨call, after⟩, log⟩ (events.map (caller, ·))

private theorem becomes_move (r : Run) (m : Move) : r.Becomes (r.move m) (r.events m) := by
  cases m with
  | arrive call => exact .arrives call
  | proceed caller =>
    cases hcaller : r.tasks[caller]? with
    | none =>
      simp only [Run.move, Run.proceed, Run.events, hcaller]
      exact .stays
    | some t =>
      cases hstep : r.service.step t with
      | some next =>
        simp only [Run.move, Run.proceed, Run.events, hcaller, hstep]
        exact .proceeds hcaller (goes_of_step hstep)
      | none =>
        simp only [Run.move, Run.proceed, Run.events, hcaller, hstep, events_of_blocked hstep]
        exact .stays

/-- No step changes how the tool is loaded. -/
theorem goes_load {s s' : Service} {call : Call} {before after : Stage} {events : List Event}
    (hgoes : s.Goes call before s' after events) : s'.load = s.load := by
  cases hgoes <;> rfl

/-- What holds at first and is kept by every move holds after any moves. -/
theorem after_induction {P : Run → History → Prop}
    (hmove : ∀ {r r' : Run} {h events : History}, P r h → r.Becomes r' events → P r' (h ++ events))
    {r : Run} {h : History} (hr : P r h) (moves : List Move) :
    P (r.after moves) (h ++ r.history moves) := by
  induction moves generalizing r h with
  | nil =>
    rw [Run.history, List.append_nil]
    exact hr
  | cons m moves ih =>
    rw [Run.history, ← List.append_assoc]
    exact ih (hmove hr (becomes_move r m))

/-- How attempts end is settled beforehand. -/
theorem load_after (r : Run) (moves : List Move) : (r.after moves).service.load = r.service.load :=
  after_induction (P := fun r' _ => r'.service.load = r.service.load) (h := [])
    (fun hload hmove => by
      cases hmove with
      | stays | arrives => exact hload
      | proceeds _ hgoes => exact (goes_load hgoes).trans hload)
    rfl moves

/-! ### The ledger of attempts -/

/-- The caller is loading the tool, in the given attempt. -/
def Run.IsLoading (r : Run) (caller attempt : Nat) : Prop :=
  ∃ call, r.tasks[caller]? = some ⟨call, .loading attempt⟩

/-- After a task was set, it is found in its place and the others in theirs. -/
theorem tasks_set {tasks : List Task} {caller : Nat} {t : Task} (h : tasks[caller]? = some t)
    (u : Task) (other : Nat) :
    (tasks.set caller u)[other]? = if caller = other then some u else tasks[other]? := by
  have hlt : caller < tasks.length := (List.getElem?_eq_some_iff.mp h).1
  rw [List.getElem?_set, if_pos hlt]

/-- After a call has arrived, its task is the only new one. -/
theorem tasks_arrived {tasks : List Task} {call : Call} {other : Nat} {t : Task}
    (h : (tasks ++ [({ call } : Task)])[other]? = some t) :
    tasks[other]? = some t ∨ t = { call } := by
  rw [List.getElem?_append] at h
  split at h
  · exact .inl h
  · exact .inr (List.mem_singleton.mp (List.mem_of_getElem? h))

/-- Every attempt that was begun is over or under way. -/
structure Ledger (r : Run) (h : History) : Prop where
  /-- Attempts are numbered in the order in which they begin. -/
  numbered : (begun h).map (·.2) = List.range' 1 r.service.attempts
  /-- One attempt is under way while the service is loading, and none otherwise. -/
  underWay : ∃ now, begun h = ended h ++ now ∧
    now.length = (if r.service.state = .loading then 1 else 0) ∧
    ∀ caller attempt, (caller, attempt) ∈ now ↔ r.IsLoading caller attempt
  /-- The signals that were given are those of the attempts that are over. -/
  signalled : ∀ attempt, attempt ∈ r.service.signalled ↔ attempt ∈ (ended h).map (·.2)
  /-- Of the attempts that are over, all failed but the one that made the service ready. -/
  tally : (ended h).length = (failed h).length + if r.service.state = .ready then 1 else 0

/-- The attempts begun in a history are those of its parts. -/
@[simp] theorem begun_append (h h' : History) : begun (h ++ h') = begun h ++ begun h' :=
  List.filterMap_append

/-- The attempts ended in a history are those of its parts. -/
@[simp] theorem ended_append (h h' : History) : ended (h ++ h') = ended h ++ ended h' :=
  List.filterMap_append

/-- The attempts that have failed in a history are those of its parts. -/
@[simp] theorem failed_append (h h' : History) : failed (h ++ h') = failed h ++ failed h' :=
  List.filterMap_append

private theorem isLoading_arrives (r : Run) (call : Call) (caller attempt : Nat) :
    ({ r with tasks := r.tasks ++ [{ call }] } : Run).IsLoading caller attempt ↔
      r.IsLoading caller attempt := by
  constructor
  · rintro ⟨call', h⟩
    rcases tasks_arrived h with h | h
    · exact ⟨call', h⟩
    · cases h
  · rintro ⟨call', h⟩
    exact ⟨call', (List.getElem?_append_left (List.getElem?_eq_some_iff.mp h).1).trans h⟩

private theorem isLoading_proceeds {r : Run} {caller : Nat} {call : Call} {before : Stage}
    (hcaller : r.tasks[caller]? = some ⟨call, before⟩) (s : Service) (after : Stage) (log : Log)
    (other attempt : Nat) :
    (⟨s, r.tasks.set caller ⟨call, after⟩, log⟩ : Run).IsLoading other attempt ↔
      if caller = other then after = .loading attempt else r.IsLoading other attempt := by
  simp only [Run.IsLoading, tasks_set hcaller]
  split
  · simp
  · exact Iff.rfl

/-- A step to and from a stage other than loading changes nobody's loading. -/
theorem isLoading_quiet {r : Run} {caller : Nat} {call : Call} {before : Stage}
    (hcaller : r.tasks[caller]? = some ⟨call, before⟩) (s : Service) {after : Stage} (log : Log)
    (hbefore : ∀ attempt, before ≠ .loading attempt) (hafter : ∀ attempt, after ≠ .loading attempt)
    (other attempt : Nat) :
    (⟨s, r.tasks.set caller ⟨call, after⟩, log⟩ : Run).IsLoading other attempt ↔
      r.IsLoading other attempt := by
  rw [isLoading_proceeds hcaller]
  split
  · next hother =>
    subst hother
    constructor
    · intro h
      exact absurd h (hafter attempt)
    · rintro ⟨call', h⟩
      rw [hcaller] at h
      cases h
      exact absurd rfl (hbefore attempt)
  · exact Iff.rfl

private theorem resume_ne_loading (tool : Tool) (call : Call) (attempt : Nat) :
    call.resume tool ≠ .loading attempt := by
  cases call <;> simp [Call.resume]

namespace Ledger

variable {r : Run} {h : History}

/-- A move that neither begins nor ends an attempt keeps the ledger. -/
theorem quiet (l : Ledger r h) {r' : Run} {events : History} (hservice : r'.service = r.service)
    (hbegun : begun events = []) (hover : ended events = []) (hfailed : failed events = [])
    (hloading : ∀ caller attempt, r'.IsLoading caller attempt ↔ r.IsLoading caller attempt) :
    Ledger r' (h ++ events) := by
  obtain ⟨now, hnow, hlength, hmem⟩ := l.underWay
  constructor
  · rw [begun_append, hbegun, List.append_nil, hservice]
    exact l.numbered
  · refine ⟨now, ?_, ?_, fun caller attempt => ?_⟩
    · rw [begun_append, ended_append, hbegun, hover, List.append_nil, List.append_nil]
      exact hnow
    · rw [hservice]
      exact hlength
    · rw [hloading]
      exact hmem caller attempt
  · intro attempt
    rw [ended_append, hover, List.append_nil, hservice]
    exact l.signalled attempt
  · rw [ended_append, failed_append, hover, hfailed, List.append_nil, List.append_nil, hservice]
    exact l.tally

/-- Whoever loads makes the latest attempt, and it is the only one under way. -/
theorem under_way (l : Ledger r h) {caller attempt : Nat} (hloading : r.IsLoading caller attempt) :
    r.service.state = .loading ∧ attempt = r.service.attempts ∧
      begun h = ended h ++ [(caller, attempt)] := by
  obtain ⟨now, hnow, hlength, hmem⟩ := l.underWay
  have hin := (hmem caller attempt).mpr hloading
  have hstate : r.service.state = .loading := by
    by_cases hstate : r.service.state = .loading
    · exact hstate
    · rw [if_neg hstate] at hlength
      rw [List.eq_nil_of_length_eq_zero hlength] at hin
      cases hin
  rw [if_pos hstate] at hlength
  obtain ⟨only, rfl⟩ := List.length_eq_one_iff.mp hlength
  obtain rfl := List.mem_singleton.mp hin
  refine ⟨hstate, ?_, hnow⟩
  have hnumbers := l.numbered
  rw [hnow, List.map_append] at hnumbers
  cases hattempts : r.service.attempts with
  | zero =>
    rw [hattempts] at hnumbers
    simp at hnumbers
  | succ n =>
    rw [hattempts, List.range'_concat] at hnumbers
    have hlast := (List.append_inj' hnumbers rfl).2
    simp only [List.map_cons, List.map_nil, List.cons.injEq, and_true] at hlast
    omega

/-- Nobody loads unless the service says so. -/
theorem not_isLoading (l : Ledger r h) (hstate : r.service.state ≠ .loading) :
    begun h = ended h ∧ ∀ caller attempt, ¬ r.IsLoading caller attempt := by
  obtain ⟨now, hnow, hlength, hmem⟩ := l.underWay
  rw [if_neg hstate] at hlength
  obtain rfl := List.eq_nil_of_length_eq_zero hlength
  refine ⟨by rw [hnow, List.append_nil], fun caller attempt hloading => ?_⟩
  cases (hmem caller attempt).mpr hloading

/-- Every attempt has one caller. -/
theorem caller_unique (l : Ledger r h) {caller other attempt : Nat}
    (hcaller : (caller, attempt) ∈ begun h) (hother : (other, attempt) ∈ begun h) :
    other = caller := by
  have hnodup : ((begun h).map (·.2)).Nodup := l.numbered ▸ List.nodup_range'
  exact congrArg Prod.fst (List.inj_on_of_nodup_map hnodup hother hcaller rfl)

/-- Only attempts that were begun have ended. -/
theorem ended_subset (l : Ledger r h) : ended h ⊆ begun h := by
  obtain ⟨now, hnow, -⟩ := l.underWay
  rw [hnow]
  exact List.subset_append_left _ _

/-- The attempts under way are those that were begun and are not over. -/
theorem isLoading_iff (l : Ledger r h) (caller attempt : Nat) :
    r.IsLoading caller attempt ↔ (caller, attempt) ∈ begun h ∧ (caller, attempt) ∉ ended h := by
  obtain ⟨now, hnow, -, hmem⟩ := l.underWay
  have hnodup : (ended h ++ now).Nodup :=
    hnow ▸ List.Nodup.of_map _ (l.numbered ▸ List.nodup_range')
  rw [← hmem, hnow, List.mem_append]
  constructor
  · intro hin
    exact ⟨.inr hin, fun hover => (List.disjoint_of_nodup_append hnodup) hover hin⟩
  · rintro ⟨hover | hin, hnot⟩
    · exact absurd hover hnot
    · exact hin

/-- While the service says so, somebody loads. -/
theorem exists_isLoading (l : Ledger r h) (hstate : r.service.state = .loading) :
    ∃ caller, r.IsLoading caller r.service.attempts := by
  obtain ⟨now, -, hlength, hmem⟩ := l.underWay
  rw [if_pos hstate] at hlength
  obtain ⟨⟨caller, attempt⟩, rfl⟩ := List.length_eq_one_iff.mp hlength
  have hloading := (hmem caller attempt).mp List.mem_cons_self
  have hattempt := (l.under_way hloading).2.1
  exact ⟨caller, hattempt ▸ hloading⟩

private theorem begins (l : Ledger r h) {caller : Nat} {call : Call} {before : Stage}
    (hcaller : r.tasks[caller]? = some ⟨call, before⟩) (hidle : r.service.state = .idle)
    (log : Log) :
    let number := r.service.begin.attempts
    Ledger ⟨r.service.begin, r.tasks.set caller ⟨call, .loading number⟩, log⟩
      (h ++ [(caller, .begins number)]) := by
  intro number
  obtain ⟨hall, hnobody⟩ := l.not_isLoading (by simp [hidle])
  constructor
  · rw [begun_append, List.map_append, l.numbered]
    change _ = List.range' 1 (r.service.attempts + 1)
    rw [List.range'_concat, Nat.one_mul, Nat.add_comm]
    rfl
  · refine ⟨[(caller, number)], ?_, rfl, fun other attempt => ?_⟩
    · rw [begun_append, ended_append, hall]
      exact congrArg (· ++ [(caller, number)]) (List.append_nil _).symm
    · rw [isLoading_proceeds hcaller, List.mem_singleton, Prod.mk.injEq]
      split
      · next hother => simp [hother, eq_comm]
      · next hother => simp [Ne.symm hother, hnobody]
  · intro attempt
    have hover : ended [(caller, .begins number)] = [] := rfl
    rw [ended_append, hover, List.append_nil]
    exact l.signalled attempt
  · have hbefore : (ended h).length = (failed h).length := by simpa [hidle] using l.tally
    rw [ended_append, failed_append, List.length_append, List.length_append, hbefore]
    rfl

private theorem ends (l : Ledger r h) {caller attempt : Nat} {call : Call}
    (hcaller : r.tasks[caller]? = some ⟨call, .loading attempt⟩) {s : Service} {after : Stage}
    (log : Log) {event : Event} (hattempts : s.attempts = r.service.attempts)
    (hsignalled : s.signalled = r.service.attempts :: r.service.signalled)
    (hstate : s.state ≠ .loading) (hafter : ∀ attempt, after ≠ .loading attempt)
    (hbegun : begun [(caller, event)] = []) (hover : ended [(caller, event)] = [(caller, attempt)])
    (htally : 1 = (failed [(caller, event)]).length + if s.state = .ready then 1 else 0) :
    Ledger ⟨s, r.tasks.set caller ⟨call, after⟩, log⟩ (h ++ [(caller, event)]) := by
  obtain ⟨hloading, hattempt, hall⟩ := l.under_way ⟨call, hcaller⟩
  constructor
  · rw [begun_append, hbegun, List.append_nil, l.numbered, hattempts]
  · refine ⟨[], ?_, (if_neg hstate).symm, fun other attempt' => ?_⟩
    · rw [begun_append, ended_append, hbegun, hover, hall, List.append_nil]
    · rw [isLoading_proceeds hcaller]
      refine ⟨fun hin => absurd hin List.not_mem_nil, fun hother => ?_⟩
      split at hother
      · exact absurd hother (hafter attempt')
      · next hne =>
        -- Another caller would be under way beside this one.
        have hboth := (l.under_way hother).2.2
        rw [hall] at hboth
        have hsame := (List.append_inj' hboth rfl).2
        simp only [List.cons.injEq, Prod.mk.injEq, and_true] at hsame
        exact absurd hsame.1 hne
  · intro attempt'
    rw [ended_append, hover, List.map_append, List.mem_append, ← l.signalled, hsignalled,
      List.mem_cons, or_comm, hattempt]
    exact or_congr_right List.mem_singleton.symm
  · have hbefore : (ended h).length = (failed h).length := by simpa [hloading] using l.tally
    rw [ended_append, failed_append, List.length_append, List.length_append, hover, hbefore,
      Nat.add_assoc]
    exact congrArg ((failed h).length + ·) htally

/-- Every move keeps the ledger. -/
theorem move (l : Ledger r h) {r' : Run} {events : History} (hmove : r.Becomes r' events) :
    Ledger r' (h ++ events) := by
  cases hmove with
  | stays => exact l.quiet rfl rfl rfl rfl fun _ _ => Iff.rfl
  | arrives call => exact l.quiet rfl rfl rfl rfl (isLoading_arrives r call)
  | proceeds hcaller hgoes =>
    cases hgoes with
    | begins hidle => exact l.begins hcaller hidle _
    | waits hloading =>
      exact l.quiet rfl rfl rfl rfl (isLoading_quiet hcaller _ _ (by simp) (by simp))
    | fails hload => exact l.ends hcaller _ rfl rfl (by simp [Service.fail]) (by simp) rfl rfl rfl
    | succeeds hload =>
      exact l.ends hcaller _ rfl rfl (by simp [Service.succeed]) (resume_ne_loading _ _) rfl rfl rfl
    | resumes hready hstage =>
      refine l.quiet rfl rfl rfl rfl (isLoading_quiet hcaller _ _ ?_ (resume_ne_loading _ _))
      rintro attempt rfl
      simp at hstage
    | resigns hsignalled hready =>
      exact l.quiet rfl rfl rfl rfl (isLoading_quiet hcaller _ _ (by simp) (by simp))
    | compiles tool job =>
      exact l.quiet rfl rfl rfl rfl (isLoading_quiet hcaller _ _ (by simp) (by simp))

end Ledger

end OutlinePage.Script
