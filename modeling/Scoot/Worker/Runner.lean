import Mathlib.Data.List.Nodup
import Scoot.Go

/-! The worker's runner (`runner.Service`), whose code is not among the sources: its contract
as the spec states it. A worker runs at most one command at a time; `Run` while a run is
going fails with `QueueFull`. Each run keeps the command it was started with, so that a
retried command can be compared with it. -/
namespace Scoot.Worker

inductive ProcessState where
  | unknown
  | pending
  | preparing
  | running
  | complete
  | failed
  | aborted
  | timedOut
  | badRequest
  deriving DecidableEq, Repr

namespace ProcessState

def isDone : ProcessState → Bool
  | complete | failed | aborted | timedOut | badRequest => true
  | _ => false

def stage : ProcessState → Nat
  | unknown => 0
  | pending => 1
  | preparing => 2
  | running => 3
  | _ => 4

end ProcessState

/-- A `RunID`. The runner numbers its runs from 1, so 0 stands for the zero RunID `""`, which
names no run. -/
abbrev RunID := Nat

structure Command where
  argv : List String
  deriving DecidableEq, Repr

/-- Modelled from the spec: the runner's errors: `QueueFull`, `Unreachable`, and a RunID the
runner does not know. -/
inductive RunnerError where
  | queueFull
  | unreachable
  | unknownRun (runId : RunID)
  deriving DecidableEq, Repr

/-- `RunStatus`, with the fields the handler reads and writes. An error's text is kept as the
error itself; `none` is the empty `Error`. -/
structure RunStatus where
  runId : RunID
  state : ProcessState
  error : Option RunnerError
  deriving DecidableEq, Repr

def RunStatus.zero : RunStatus := ⟨0, .unknown, none⟩

structure RunRecord where
  status : RunStatus
  cmd : Command
  deriving DecidableEq, Repr

def RunRecord.live (run : RunRecord) : Bool := !run.status.state.isDone

/-- Modelled from the spec: the runner's cache of runs in creation order and the next RunID
it hands out. RunIDs are fresh and distinct. -/
structure Runner where
  runs : List RunRecord
  nextRunId : RunID
  fresh : ∀ run ∈ runs, run.status.runId < nextRunId
  distinct : (runs.map (·.status.runId)).Nodup

namespace Runner

def idle : Runner := ⟨[], 1, by simp, by simp⟩

def busy (runner : Runner) : Bool := runner.runs.any RunRecord.live

/-- Modelled from the spec: `Run`. It fails with `QueueFull` while a run is going, and else
starts a pending run under a fresh RunID. -/
def run (runner : Runner) (cmd : Command) : (RunStatus × Option RunnerError) × Runner :=
  if runner.busy then ((.zero, some .queueFull), runner)
  else
    let status : RunStatus := ⟨runner.nextRunId, .pending, none⟩
    ((status, none), ⟨runner.runs ++ [⟨status, cmd⟩], runner.nextRunId + 1,
      by
        simp only [List.mem_append, List.mem_singleton]
        rintro run (old | rfl)
        · exact Nat.lt_succ_of_lt (runner.fresh run old)
        · exact Nat.lt_succ_self _,
      by
        rw [List.map_append, List.nodup_append]
        refine ⟨runner.distinct, List.nodup_singleton _, fun id old new => ?_⟩
        obtain ⟨run, mem, rfl⟩ := List.mem_map.mp old
        rw [List.map_singleton, List.mem_singleton] at new
        exact Nat.ne_of_lt (runner.fresh run mem) new⟩)

def status (runner : Runner) (runId : RunID) : RunStatus × Option RunnerError :=
  match runner.runs.find? (·.status.runId = runId) with
  | some run => (run.status, none)
  | none => (.zero, some (.unknownRun runId))

/-- Modelled from the spec: `StatusAll`; `answers` says whether the runner could be reached. -/
def statusAll (runner : Runner) (answers : Bool) : List RunStatus × Option RunnerError :=
  if answers then (runner.runs.map (·.status), none) else ([], some .unreachable)

def setState (runner : Runner) (runId : RunID) (state : ProcessState) : Runner where
  runs := runner.runs.map fun run =>
    if run.status.runId = runId then { run with status := { run.status with state } } else run
  nextRunId := runner.nextRunId
  fresh := by
    simp only [List.mem_map]
    rintro _ ⟨run, mem, rfl⟩
    split <;> exact runner.fresh run mem
  distinct := by
    rw [List.map_map]
    convert runner.distinct using 2
    funext run
    simp only [Function.comp_apply]
    split <;> rfl

/-- Modelled from the spec: `Abort`. A run that is going ends as aborted; one that has ended
is left as it is. -/
def abort (runner : Runner) (runId : RunID) : (RunStatus × Option RunnerError) × Runner :=
  match runner.runs.find? (·.status.runId = runId) with
  | some run =>
    if run.status.state.isDone then ((run.status, none), runner)
    else (({ run.status with state := .aborted }, none), runner.setState runId .aborted)
  | none => ((.zero, some (.unknownRun runId)), runner)

def erase (runner : Runner) (runId : RunID) : Runner where
  runs := runner.runs.filter (·.status.runId ≠ runId)
  nextRunId := runner.nextRunId
  fresh := fun run mem => runner.fresh run (List.mem_of_mem_filter mem)
  distinct := runner.distinct.sublist ((List.filter_sublist _).map _)

/-- Modelled from the spec: the process adapter moving a going run further along its states. -/
def advance (runner : Runner) (runId : RunID) (state : ProcessState) : Runner :=
  match runner.runs.find? (·.status.runId = runId) with
  | some run =>
    if run.live && run.status.state.stage < state.stage then runner.setState runId state
    else runner
  | none => runner

theorem busy_iff (runner : Runner) : runner.busy = true ↔ ∃ run ∈ runner.runs, run.live = true := by
  simp [busy]

private theorem find?_id_of_mem {runs : List RunRecord} (distinct : (runs.map (·.status.runId)).Nodup)
    {run : RunRecord} (mem : run ∈ runs) :
    runs.find? (·.status.runId = run.status.runId) = some run := by
  induction runs with
  | nil => simp at mem
  | cons first runs ih =>
    obtain ⟨outside, distinct⟩ := List.nodup_cons.mp distinct
    rcases List.mem_cons.mp mem with rfl | later
    · simp
    · have other : first.status.runId ≠ run.status.runId :=
        fun same => outside (List.mem_map.mpr ⟨run, later, same.symm⟩)
      simpa [other] using ih distinct later

theorem find?_of_mem (runner : Runner) {run : RunRecord} (mem : run ∈ runner.runs) :
    runner.runs.find? (·.status.runId = run.status.runId) = some run :=
  find?_id_of_mem runner.distinct mem

theorem eq_of_find? (runner : Runner) {runId : RunID} {found old : RunRecord}
    (find : runner.runs.find? (·.status.runId = runId) = some found) (mem : old ∈ runner.runs)
    (same : old.status.runId = runId) : old = found := by
  rw [← same, runner.find?_of_mem mem] at find
  exact Option.some.inj find

theorem status_of_mem (runner : Runner) {run : RunRecord} (mem : run ∈ runner.runs) :
    runner.status run.status.runId = (run.status, none) := by
  simp [status, runner.find?_of_mem mem]

theorem run_busy (runner : Runner) (cmd : Command) (busy : runner.busy = true) :
    runner.run cmd = ((.zero, some .queueFull), runner) := by
  simp [run, busy]

theorem run_idle (runner : Runner) (cmd : Command) (idle : runner.busy = false) :
    (runner.run cmd).1 = (⟨runner.nextRunId, .pending, none⟩, none) ∧
      ∀ run ∈ (runner.run cmd).2.runs, run.live = true →
        run = ⟨⟨runner.nextRunId, .pending, none⟩, cmd⟩ := by
  simp only [Runner.run, idle]
  refine ⟨rfl, fun run mem live => ?_⟩
  rcases List.mem_append.mp mem with old | new
  · have : runner.busy = true := (runner.busy_iff).mpr ⟨run, old, live⟩
    simp_all
  · exact List.mem_singleton.mp new

/-- Every run of `after` that is going was going in `before`, under the same RunID and
command: no run starts. -/
def LiveFrom (after before : Runner) : Prop :=
  ∀ run ∈ after.runs, run.live = true →
    ∃ old ∈ before.runs, old.live = true ∧ old.status.runId = run.status.runId ∧ old.cmd = run.cmd

theorem LiveFrom.refl (runner : Runner) : LiveFrom runner runner :=
  fun run mem live => ⟨run, mem, live, rfl, rfl⟩

theorem setState_liveFrom (runner : Runner) {runId : RunID} {state : ProcessState}
    (going : ∀ old ∈ runner.runs, old.status.runId = runId → state.isDone = false →
      old.live = true) :
    LiveFrom (runner.setState runId state) runner := by
  intro run mem live
  obtain ⟨old, old_mem, rfl⟩ := List.mem_map.mp mem
  by_cases same : old.status.runId = runId
  · rw [if_pos same] at live ⊢
    have : state.isDone = false := by simpa [RunRecord.live] using live
    exact ⟨old, old_mem, going old old_mem same this, rfl, rfl⟩
  · rw [if_neg same] at live ⊢
    exact ⟨old, old_mem, live, rfl, rfl⟩

theorem abort_liveFrom (runner : Runner) (runId : RunID) :
    LiveFrom (runner.abort runId).2 runner := by
  unfold abort
  split
  · split
    · exact LiveFrom.refl _
    · exact runner.setState_liveFrom fun _ _ _ done => by simp [ProcessState.isDone] at done
  · exact LiveFrom.refl _

theorem erase_liveFrom (runner : Runner) (runId : RunID) : LiveFrom (runner.erase runId) runner :=
  fun run mem live => ⟨run, List.mem_of_mem_filter mem, live, rfl, rfl⟩

theorem advance_liveFrom (runner : Runner) (runId : RunID) (state : ProcessState) :
    LiveFrom (runner.advance runId state) runner := by
  unfold advance
  split
  · rename_i found find
    split
    · rename_i moves
      refine runner.setState_liveFrom fun old mem same _ => ?_
      rw [runner.eq_of_find? find mem same]
      simp only [Bool.and_eq_true] at moves
      exact moves.1
    · exact LiveFrom.refl _
  · exact LiveFrom.refl _

theorem abort_idle (runner : Runner) {runId : RunID}
    (only : ∀ run ∈ runner.runs, run.live = true → run.status.runId = runId) :
    (runner.abort runId).2.busy = false := by
  rw [← Bool.not_eq_true, busy_iff]
  rintro ⟨run, mem, live⟩
  unfold abort at mem
  split at mem
  · rename_i found find
    split at mem
    · rename_i done
      obtain rfl := runner.eq_of_find? find mem (only run mem live)
      simp [RunRecord.live, done] at live
    · obtain ⟨old, old_mem, rfl⟩ := List.mem_map.mp mem
      split at live
      · simp [RunRecord.live, ProcessState.isDone] at live
      · rename_i other
        exact other (only old old_mem live)
  · rename_i missing
    have := List.find?_eq_none.mp missing run mem
    simp [only run mem live] at this

end Runner

end Scoot.Worker
