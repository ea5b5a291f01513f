import Scoot.Worker.Runner

/-! The worker's RPC handler (`server.handler`). `Run`, `Abort`, `Erase` and `QueryWorker`
each stamp the time of the last RPC under `h.mu` before they call the runner; the `stats`
goroutine takes `h.mu` on every tick to sample the runner. `Run` remembers the command and
RunID of the run it last started, to answer a retried command with that run. -/
namespace Scoot.Worker
open Scoot.Go

structure Gauges where
  activeRuns : Int
  failedCachedRuns : Int
  endedCachedRuns : Int
  timeSinceLastContactMs : Int
  uptimeMs : Int
  deriving DecidableEq, Repr

/-- `handler`: the runner, the time of the last RPC, `mu`, and the command and RunID of the
run `Run` last answered with (`currentCmd` is a pointer, nil at first). `startTime` is when
`stats` began; the stats receiver is left out. Times are in milliseconds. -/
structure Handler where
  runner : Runner
  timeLastRpc : Int
  mu : Mutex
  currentCmd : Option Command
  currentRunId : RunID
  startTime : Int

namespace Handler

def new (runner : Runner) (now : Int) : Handler := ⟨runner, 0, ⟨false⟩, none, 0, now⟩

def updateTimeLastRpc (h : Handler) (now : Int) : Outcome Handler := do
  let held ← Outcome.waitFor h.mu.lock
  pure { h with mu := held.unlock, timeLastRpc := now }

/-- What `QueryWorker` answers: the statuses of every run, or one UNKNOWN status that carries
the error of `StatusAll`. -/
def workerStatus (runner : Runner) (answers : Bool) : List RunStatus :=
  match runner.statusAll answers with
  | (_, some err) => [{ RunStatus.zero with error := some err, state := .unknown }]
  | (st, none) => st

def queryWorker (h : Handler) (now : Int) (answers : Bool) : Outcome (List RunStatus × Handler) := do
  let h ← h.updateTimeLastRpc now
  pure (workerStatus h.runner answers, h)

/-- The dup-retry check of `Run`: on `QueueFull`, a command with the argv of `h.currentCmd`
gets the status of `h.currentRunID`. It reads `h.currentCmd.Argv`, which panics on nil. -/
def dupRetry (h : Handler) (c : Command) :
    RunStatus × Option RunnerError → Outcome (RunStatus × Option RunnerError)
  | (status, some .queueFull) =>
    match h.currentCmd with
    | some current =>
      pure (if c.argv = current.argv then h.runner.status h.currentRunId else (status, some .queueFull))
    | none => .panics
  | result => pure result

def answerRun (h : Handler) (c : Command) : RunStatus × Option RunnerError → RunStatus × Handler
  | (status, some err) => ({ status with error := some err, state := .badRequest }, h)
  | (status, none) => (status, { h with currentCmd := some c, currentRunId := status.runId })

/-- `Run`. The thrift command converts to the runner's `Command` as it is. -/
def run (h : Handler) (now : Int) (cmd : Command) : Outcome (RunStatus × Handler) := do
  let h ← h.updateTimeLastRpc now
  let started := h.runner.run cmd
  let h := { h with runner := started.2 }
  let result ← h.dupRetry cmd started.1
  pure (h.answerRun cmd result)

def abortStatus (runId : RunID) : RunStatus × Option RunnerError → RunStatus
  | (status, some err) => { status with error := some err, state := .unknown, runId }
  | (status, none) => status

def abort (h : Handler) (now : Int) (runId : RunID) : Outcome (RunStatus × Handler) := do
  let h ← h.updateTimeLastRpc now
  let aborted := h.runner.abort runId
  pure (abortStatus runId aborted.1, { h with runner := aborted.2 })

def erase (h : Handler) (now : Int) (runId : RunID) : Outcome Handler := do
  let h ← h.updateTimeLastRpc now
  pure { h with runner := h.runner.erase runId }

def gauges (h : Handler) (now : Int) (processes : List RunStatus) : Gauges :=
  let numFailed : Int := (processes.filter (·.state = .failed)).length
  let numActive : Int := (processes.filter (!·.state.isDone)).length
  { activeRuns := numActive
    failedCachedRuns := numFailed
    endedCachedRuns := processes.length - numActive
    timeSinceLastContactMs := if numActive > 0 then now - h.timeLastRpc else 0
    uptimeMs := now - h.startTime }

/-- One tick of `stats`: lock `h.mu`, sample `StatusAll`, publish the gauges, unlock. When
`StatusAll` fails, the `continue` skips the unlock. -/
def tick (h : Handler) (now : Int) (answers : Bool) : Outcome (Option Gauges × Handler) := do
  let held ← Outcome.waitFor h.mu.lock
  let h := { h with mu := held }
  match h.runner.statusAll answers with
  | (_, some _) => pure (none, h)
  | (processes, none) => pure (some (h.gauges now processes), { h with mu := h.mu.unlock })

end Handler

inductive Rpc where
  | queryWorker (answers : Bool)
  | run (cmd : Command)
  | abort (runId : RunID)
  | erase (runId : RunID)
  deriving DecidableEq, Repr

inductive Reply where
  | workerStatus (runs : List RunStatus)
  | runStatus (status : RunStatus)
  | erased
  deriving DecidableEq, Repr

inductive Event where
  | rpc (now : Int) (call : Rpc)
  | tick (now : Int) (answers : Bool)
  | progress (runId : RunID) (state : ProcessState)
  deriving DecidableEq, Repr

namespace Handler

def call (h : Handler) (now : Int) : Rpc → Outcome (Reply × Handler)
  | .queryWorker answers => do
    let answer ← h.queryWorker now answers
    pure (.workerStatus answer.1, answer.2)
  | .run cmd => do
    let answer ← h.run now cmd
    pure (.runStatus answer.1, answer.2)
  | .abort runId => do
    let answer ← h.abort now runId
    pure (.runStatus answer.1, answer.2)
  | .erase runId => do
    let next ← h.erase now runId
    pure (.erased, next)

def step (h : Handler) : Event → Outcome Handler
  | .rpc now call => do pure (← h.call now call).2
  | .tick now answers => do pure (← h.tick now answers).2
  | .progress runId state => pure { h with runner := h.runner.advance runId state }

def runEvents (h : Handler) : List Event → Outcome Handler
  | [] => .returns h
  | event :: events => do (← h.step event).runEvents events

end Handler

namespace Handler

variable {h : Handler}

theorem updateTimeLastRpc_free (h : Handler) (now : Int) (free : h.mu = ⟨false⟩) :
    h.updateTimeLastRpc now = .returns { h with timeLastRpc := now } := by
  obtain ⟨runner, time, mu, cmd, runId, start⟩ := h
  subst free
  rfl

theorem updateTimeLastRpc_held (h : Handler) (now : Int) (held : h.mu = ⟨true⟩) :
    h.updateTimeLastRpc now = .blocks := by
  simp [updateTimeLastRpc, held]

/-- Every run that is going is `h.currentRunID` and was started with the argv of
`h.currentCmd`. -/
def Tracks (h : Handler) : Prop :=
  ∀ run ∈ h.runner.runs, run.live = true →
    run.status.runId = h.currentRunId ∧
      ∃ current, h.currentCmd = some current ∧ current.argv = run.cmd.argv

theorem Tracks.liveFrom {next : Handler} (tracks : h.Tracks) (runner : next.runner.LiveFrom h.runner)
    (cmd : next.currentCmd = h.currentCmd) (runId : next.currentRunId = h.currentRunId) :
    next.Tracks := by
  intro run mem live
  obtain ⟨old, old_mem, old_live, same_id, same_cmd⟩ := runner run mem live
  obtain ⟨is_current, current, current_eq, argv⟩ := tracks old old_mem old_live
  refine ⟨by rw [runId, ← same_id, is_current], current, by rw [cmd, current_eq], ?_⟩
  rw [← same_cmd, argv]

theorem run_idle (h : Handler) (now : Int) (cmd : Command) (free : h.mu = ⟨false⟩)
    (idle : h.runner.busy = false) :
    h.run now cmd = .returns (⟨h.runner.nextRunId, .pending, none⟩,
      { h with
        timeLastRpc := now
        runner := (h.runner.run cmd).2
        currentCmd := some cmd
        currentRunId := h.runner.nextRunId }) := by
  simp only [run, updateTimeLastRpc_free h now free, Outcome.returns_bind,
    (h.runner.run_idle cmd idle).1, dupRetry, Outcome.pure_eq, answerRun]

theorem run_replay (h : Handler) (now : Int) (cmd : Command) (tracks : h.Tracks)
    (free : h.mu = ⟨false⟩) {going : RunRecord} (mem : going ∈ h.runner.runs)
    (live : going.live = true) (same : going.cmd.argv = cmd.argv) :
    h.run now cmd = .returns (going.status,
      { h with
        timeLastRpc := now
        currentCmd := some cmd
        currentRunId := going.status.runId }) := by
  obtain ⟨is_current, current, current_eq, argv⟩ := tracks going mem live
  have busy : h.runner.busy = true := h.runner.busy_iff.mpr ⟨going, mem, live⟩
  simp only [run, updateTimeLastRpc_free h now free, Outcome.returns_bind,
    h.runner.run_busy cmd busy, dupRetry, current_eq, argv, same, if_true, ← is_current,
    h.runner.status_of_mem mem, Outcome.pure_eq, answerRun]

theorem run_refused (h : Handler) (now : Int) (cmd : Command) (tracks : h.Tracks)
    (free : h.mu = ⟨false⟩) (busy : h.runner.busy = true)
    (other : ∀ run ∈ h.runner.runs, run.live = true → run.cmd.argv ≠ cmd.argv) :
    h.run now cmd = .returns ({ RunStatus.zero with error := some .queueFull, state := .badRequest },
      { h with timeLastRpc := now }) := by
  obtain ⟨going, mem, live⟩ := h.runner.busy_iff.mp busy
  obtain ⟨-, current, current_eq, argv⟩ := tracks going mem live
  have differs : ¬cmd.argv = current.argv := by rw [argv]; exact Ne.symm (other going mem live)
  simp only [run, updateTimeLastRpc_free h now free, Outcome.returns_bind,
    h.runner.run_busy cmd busy, dupRetry, current_eq, differs, if_false, Outcome.pure_eq, answerRun]

/-- A handler that tracks its runs, with `mu` free, answers every RPC, goes on tracking its
runs, and leaves `mu` free. In particular `Run` never reads a nil `h.currentCmd`. -/
theorem call_tracks (h : Handler) (now : Int) (rpc : Rpc) (tracks : h.Tracks)
    (free : h.mu = ⟨false⟩) :
    ∃ reply next, h.call now rpc = .returns (reply, next) ∧ next.Tracks ∧ next.mu = ⟨false⟩ := by
  have stamped : ({ h with timeLastRpc := now } : Handler).Tracks :=
    tracks.liveFrom (Runner.LiveFrom.refl _) rfl rfl
  cases rpc with
  | queryWorker answers =>
    simp only [call, queryWorker, updateTimeLastRpc_free h now free, Outcome.returns_bind]
    exact ⟨_, _, rfl, stamped, free⟩
  | run cmd =>
    simp only [call]
    cases idle : h.runner.busy
    · rw [run_idle h now cmd free idle]
      refine ⟨_, _, rfl, fun run mem live => ?_, free⟩
      obtain rfl := (h.runner.run_idle cmd idle).2 run mem live
      exact ⟨rfl, cmd, rfl, rfl⟩
    · by_cases same : ∃ going ∈ h.runner.runs, going.live = true ∧ going.cmd.argv = cmd.argv
      · obtain ⟨going, mem, live, same⟩ := same
        rw [run_replay h now cmd tracks free mem live same]
        refine ⟨_, _, rfl, fun run other live' => ?_, free⟩
        have ids : run.status.runId = going.status.runId :=
          (tracks run other live').1.trans (tracks going mem live).1.symm
        obtain rfl := h.runner.eq_of_find? (h.runner.find?_of_mem mem) other ids
        exact ⟨rfl, cmd, rfl, same.symm⟩
      · push_neg at same
        rw [run_refused h now cmd tracks free idle same]
        exact ⟨_, _, rfl, stamped, free⟩
  | abort runId =>
    simp only [call, abort, updateTimeLastRpc_free h now free, Outcome.returns_bind]
    exact ⟨_, _, rfl, tracks.liveFrom (h.runner.abort_liveFrom runId) rfl rfl, free⟩
  | erase runId =>
    simp only [call, erase, updateTimeLastRpc_free h now free, Outcome.returns_bind]
    exact ⟨_, _, rfl, tracks.liveFrom (h.runner.erase_liveFrom runId) rfl rfl, free⟩

/-- The handler states reached from a new handler over an idle runner by RPCs that returned
and by runs moving along their states, one RPC at a time: each RPC is `call`, which is what its
goroutine does when no other moves meanwhile (`Handler.solo_eq_call`). Overlapping RPCs are
`Serving` steps. -/
inductive Served : Handler → Prop
  | idle (now : Int) : Served (new .idle now)
  | rpc {h next : Handler} {now : Int} {call : Rpc} {reply : Reply} :
      Served h → h.call now call = .returns (reply, next) → Served next
  | progress {h : Handler} (runId : RunID) (state : ProcessState) :
      Served h → Served { h with runner := h.runner.advance runId state }

theorem Served.tracks (served : Served h) : h.Tracks ∧ h.mu = ⟨false⟩ := by
  induction served with
  | idle now => exact ⟨fun run mem => by simp [new, Runner.idle] at mem, rfl⟩
  | rpc _ returned ih =>
    obtain ⟨reply, next, answered, tracks, free⟩ := call_tracks _ _ _ ih.1 ih.2
    rw [answered] at returned
    cases returned
    exact ⟨tracks, free⟩
  | progress runId state _ ih =>
    exact ⟨ih.1.liveFrom (Runner.advance_liveFrom _ _ _) rfl rfl, ih.2⟩

/-- Whatever RPCs came before and however runs moved along, `Run` returns, and a command
with the argv of the run that is going gets that run's status, with no new run. -/
theorem run_replays_live_command (served : Served h) (now : Int) (cmd : Command) :
    h.Tracks ∧ (∃ reply next, h.run now cmd = .returns (reply, next)) ∧
      ∀ going ∈ h.runner.runs, going.live = true → going.cmd.argv = cmd.argv →
        ∃ next, h.run now cmd = .returns (going.status, next) ∧ next.runner = h.runner := by
  obtain ⟨tracks, free⟩ := served.tracks
  refine ⟨tracks, ?_, fun going mem live same =>
    ⟨_, run_replay h now cmd tracks free mem live same, rfl⟩⟩
  obtain ⟨reply, next, answered, -⟩ := call_tracks h now (.run cmd) tracks free
  obtain ⟨answer, ran, -⟩ := Outcome.bind_eq_returns.mp answered
  exact ⟨answer.1, answer.2, ran⟩

theorem run_replays_live_command_on_retry :
    let h : Handler := ⟨(Runner.idle.run ⟨["sleep"]⟩).2, 0, ⟨false⟩, some ⟨["sleep"]⟩, 1, 0⟩
    h.Tracks ∧ (∃ reply next, h.run 1 ⟨["sleep"]⟩ = .returns (reply, next)) ∧
      ∀ going ∈ h.runner.runs, going.live = true → going.cmd.argv = ["sleep"] →
        ∃ next, h.run 1 ⟨["sleep"]⟩ = .returns (going.status, next) ∧ next.runner = h.runner :=
  run_replays_live_command (@Served.rpc _ _ 0 (.run ⟨["sleep"]⟩) (.runStatus ⟨1, .pending, none⟩)
    (Served.idle 0) rfl) 1 ⟨["sleep"]⟩

theorem tick_answered (h : Handler) (now : Int) (free : h.mu = ⟨false⟩) :
    h.tick now true = .returns (some (h.gauges now (h.runner.runs.map (·.status))), h) := by
  obtain ⟨runner, time, mu, cmd, runId, start⟩ := h
  subst free
  rfl

theorem step_served (served : Served h) (event : Event)
    (answered : ∀ now answers, event = .tick now answers → answers = true) :
    ∃ next, h.step event = .returns next ∧ Served next := by
  obtain ⟨tracks, free⟩ := served.tracks
  cases event with
  | rpc now call =>
    obtain ⟨reply, next, replied, -⟩ := call_tracks h now call tracks free
    exact ⟨next, by simp [step, replied], served.rpc replied⟩
  | tick now answers =>
    obtain rfl := answered now answers rfl
    exact ⟨h, by simp [step, tick_answered h now free], served⟩
  | progress runId state => exact ⟨_, rfl, served.progress runId state⟩

/-- Whatever RPCs, ticks and run progress come, in any order, a served handler never blocks
and never panics as long as every tick's `StatusAll` reaches the runner. -/
theorem served_events_never_block (served : Served h) (events : List Event)
    (answered : ∀ now answers, Event.tick now answers ∈ events → answers = true) :
    ∃ next, h.runEvents events = .returns next ∧ Served next := by
  induction events generalizing h with
  | nil => exact ⟨h, rfl, served⟩
  | cons event events ih =>
    obtain ⟨mid, stepped, midServed⟩ := step_served served event fun now answers same =>
      answered now answers (same ▸ List.mem_cons_self _ _)
    obtain ⟨next, ran, nextServed⟩ := ih midServed fun now answers mem =>
      answered now answers (List.mem_cons_of_mem _ mem)
    exact ⟨next, by simp [runEvents, stepped, ran], nextServed⟩

theorem served_events_never_block_from_new :
    ∃ next, (new .idle 0).runEvents [.rpc 1 (.run ⟨["sleep"]⟩), .tick 2 true,
      .progress 1 .running, .rpc 3 (.run ⟨["ls"]⟩), .rpc 4 (.abort 1), .tick 5 true] =
        .returns next ∧ Served next :=
  served_events_never_block (Served.idle 0) _ fun _ _ mem => by
    simp at mem; exact mem.elim And.right And.right

/-- A tick whose `StatusAll` fails leaves `h.mu` locked; from then on every RPC waits in
`updateTimeLastRpc` and every tick waits in its own `Lock`. -/
theorem failed_tick_keeps_lock (h : Handler) (now : Int) (free : h.mu = ⟨false⟩) :
    h.tick now false = .returns (none, { h with mu := ⟨true⟩ }) ∧
      (∀ later rpc, ({ h with mu := ⟨true⟩ } : Handler).call later rpc = .blocks) ∧
      ∀ later answers, ({ h with mu := ⟨true⟩ } : Handler).tick later answers = .blocks := by
  refine ⟨by simp [tick, free, Runner.statusAll], fun later rpc => ?_, fun _ _ => by simp [tick]⟩
  cases rpc <;> simp [call, queryWorker, run, abort, erase, updateTimeLastRpc_held]

theorem failed_tick_keeps_lock_at_start :
    (new .idle 0).mu = ⟨false⟩ ∧
      (new .idle 0).tick 500 false = .returns (none, { new .idle 0 with mu := ⟨true⟩ }) ∧
      (∀ later rpc, ({ new .idle 0 with mu := ⟨true⟩ } : Handler).call later rpc = .blocks) ∧
      ∀ later answers, ({ new .idle 0 with mu := ⟨true⟩ } : Handler).tick later answers = .blocks :=
  ⟨rfl, failed_tick_keeps_lock _ 500 rfl⟩

end Handler

end Scoot.Worker
