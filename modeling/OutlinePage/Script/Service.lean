import OutlinePage.Log

/-!
# The script service

Scripts are compiled by a tool that is loaded the first time it is needed. Several callers may ask
at once: one of them loads the tool, the others wait for that attempt to end. A failed attempt
leaves the service as it was, so that a later caller tries again. A caller's way through the service
is a row of steps, each of which runs without interruption.
-/

namespace OutlinePage.Script

/-- A script to compile. -/
structure Job where
  source : Text
  /-- The file that the script is said to come from, if any. -/
  file : Option Text := none
  /-- Shrink the result. -/
  minify : Bool := false
deriving DecidableEq, Repr

/-- Why a script was not compiled. -/
inductive Fault where
  /-- The tool refused, with its reason. -/
  | refused (reason : Text)
  /-- The attempt to load the tool that this caller waited for failed. -/
  | notStarted
  /-- Loading the tool broke off in a way that is not the tool's own refusal. -/
  | crashed
deriving DecidableEq, Repr

/-- The wording of a fault; a crash has none of its own. -/
def Fault.message : Fault → Text
  | .refused reason => reason
  | .notStarted => "Script compiler failed to start"
  | .crashed => []

/-- A loaded tool. -/
abbrev Tool := Job → Except Fault Text

/-- How an attempt to load the tool ends, with what it reports. -/
structure Loading where
  result : Except Fault Tool
  log : Log := []

/-- Leaves scripts as they are. -/
def copying : Tool := fun job => .ok job.source

/-- What the service notes about loading its tool. -/
inductive State where
  /-- Nothing is loaded, and nobody is loading. -/
  | idle
  /-- Somebody is loading the tool. -/
  | loading
  /-- The tool is loaded. -/
  | ready
deriving DecidableEq, Repr

/-- The service: how its attempts to load the tool end, by their number, and what it notes. Every
attempt has a signal of its own, which is given when the attempt ends. -/
structure Service where
  load : Nat → Loading
  /-- How many attempts were begun. -/
  attempts : Nat := 0
  state : State := .idle
  /-- The tool in place; one that copies stands there until another is loaded. -/
  tool : Tool := copying
  /-- The attempts whose signal was given. -/
  signalled : List Nat := []

/-- The service's state, with its tool once that is loaded. -/
inductive Phase where
  | idle
  | loading
  | ready (tool : Tool)

/-- Where the service stands. -/
def Service.phase (s : Service) : Phase :=
  match s.state with
  | .idle => .idle
  | .loading => .loading
  | .ready => .ready s.tool

/-- What is asked of the service. -/
inductive Call where
  /-- Load the tool, if that has not happened yet. -/
  | start
  /-- Compile a script. -/
  | compile (job : Job)
deriving DecidableEq, Repr

/-- How a call ends: with a script's code if a script was to be compiled. -/
abbrev Outcome := Except Fault (Option Text)

/-- How far a caller has come. -/
inductive Stage where
  /-- Has not begun. -/
  | new
  /-- Is loading the tool in the attempt of the given number. -/
  | loading (attempt : Nat)
  /-- Waits for the signal of the attempt of the given number. -/
  | waiting (attempt : Nat)
  /-- Has given a script to the tool. -/
  | compiling (tool : Tool) (job : Job)
  /-- Has ended. -/
  | done (outcome : Outcome)

/-- A caller: what it asks for, and how far it has come. -/
structure Task where
  call : Call
  stage : Stage := .new

/-- Where a call goes on once the tool is loaded. -/
def Call.resume (tool : Tool) : Call → Stage
  | .start => .done (.ok none)
  | .compile job => .compiling tool job

/-- The report of a successful attempt. -/
def loadedLine : LogLine := ⟨.info, "Script compiler loaded!"⟩

/-- A new attempt is under way. -/
def Service.begin (s : Service) : Service :=
  { s with attempts := s.attempts + 1, state := .loading }

/-- Gives the signal of the latest attempt. -/
def Service.signal (s : Service) : Service := { s with signalled := s.attempts :: s.signalled }

/-- The attempt under way has given this tool. -/
def Service.succeed (s : Service) (tool : Tool) : Service :=
  { s.signal with state := .ready, tool }

/-- The attempt under way has given no tool. -/
def Service.fail (s : Service) : Service := { s.signal with state := .idle }

/-- One step of a caller, if it can take one: the service and the caller's stage afterwards, and
what is reported. -/
def Service.step (s : Service) (t : Task) : Option (Service × Stage × Log) :=
  match t.stage with
  | .new =>
    match s.phase with
    | .ready tool => some (s, t.call.resume tool, [])
    | .loading => some (s, .waiting s.attempts, [])
    | .idle => some (s.begin, .loading s.begin.attempts, [])
  | .loading attempt =>
    let loading := s.load attempt
    match loading.result with
    | .ok tool => some (s.succeed tool, t.call.resume tool, loading.log ++ [loadedLine])
    | .error fault => some (s.fail, .done (.error fault), loading.log)
  | .waiting attempt =>
    if attempt ∈ s.signalled then
      match s.phase with
      | .ready tool => some (s, t.call.resume tool, [])
      | _ => some (s, .done (.error .notStarted), [])
    else none
  | .compiling tool job => some (s, .done ((tool job).map some), [])
  | .done _ => none

/-- A state of the service with callers under way. Callers that have ended keep their places. -/
structure Run where
  service : Service
  tasks : List Task := []
  log : Log := []

/-- What can happen next. -/
inductive Move where
  /-- A call comes in. -/
  | arrive (call : Call)
  /-- The caller at the given place takes a step, if it can. -/
  | proceed (caller : Nat)
deriving DecidableEq, Repr

/-- The caller at the given place takes a step, if it can. -/
def Run.proceed (r : Run) (caller : Nat) : Run :=
  match r.tasks[caller]? with
  | none => r
  | some t =>
    match r.service.step t with
    | none => r
    | some (service, stage, log) =>
      { service, tasks := r.tasks.set caller { t with stage }, log := r.log ++ log }

/-- What happens in a move. -/
def Run.move (r : Run) : Move → Run
  | .arrive call => { r with tasks := r.tasks ++ [{ call }] }
  | .proceed caller => r.proceed caller

/-- The run after some moves. -/
def Run.after (r : Run) (moves : List Move) : Run := moves.foldl Run.move r

/-- Calls that begin together and take their steps in turn. Whoever has to wait does so for an
attempt that ends within the second round, so three rounds see all calls through. -/
def Service.gather (s : Service) (calls : List Call) : Run :=
  let round := (List.range calls.length).map Move.proceed
  ({ service := s } : Run).after (calls.map Move.arrive ++ round ++ round ++ round)

/-- How a caller has ended. A caller that nobody ever woke counts as one whose wait failed. -/
def Task.outcome (t : Task) : Outcome :=
  match t.stage with
  | .done outcome => outcome
  | _ => .error .notStarted

/-- One call on its own: its outcome, the service afterwards, and what is reported. -/
def Service.call (s : Service) (c : Call) : Outcome × Service × Log :=
  let r := s.gather [c]
  match r.tasks with
  | [] => (.error .notStarted, r.service, r.log)
  | t :: _ => (t.outcome, r.service, r.log)

/-- Compiles one script: the code, the service afterwards, and what is reported. -/
def Service.compile (s : Service) (job : Job) : Except Fault Text × Service × Log :=
  match s.call (.compile job) with
  | (outcome, s', log) => (outcome.map (·.getD []), s', log)

end OutlinePage.Script
