import Scoot.Worker.Handler

/-! The worker's handler under concurrent RPCs. The thrift server serves each connection on a
goroutine of its own, and `Run` reads and writes `h.currentCmd` and `h.currentRunID` without
holding `h.mu`. A goroutine here moves one step at a time: `updateTimeLastRpc` under `h.mu`,
one call on the runner, or one read or write of `h.currentCmd` or `h.currentRunID`; a tick of
`stats` holds `h.mu` throughout and is one step. Alone, a goroutine answers as `Handler.call`
does. With at most one `Run` in flight nothing panics, whatever else interleaves; with two, the
second can read a nil `h.currentCmd`. -/
namespace Scoot.Worker
open Scoot.Go

/-- Where the goroutine serving one RPC stands: before `updateTimeLastRpc`, before its call on
the runner, and then the steps of `Run`'s dup-retry check and of its end. -/
inductive Pc where
  | stamp (call : Rpc)
  | body (call : Rpc)
  | dupCheck (cmd : Command) (status : RunStatus)
  | recover (cmd : Command)
  | query (cmd : Command) (runId : RunID)
  | finish (cmd : Command) (result : RunStatus × Option RunnerError)
  | record (status : RunStatus)
  | done (reply : Reply)
  deriving DecidableEq, Repr

namespace Handler

/-- One step of the goroutine at `pc`, at `now`. A goroutine that has answered does not move. -/
def move (h : Handler) (now : Int) : Pc → Outcome (Pc × Handler)
  | .stamp call => do pure (.body call, ← h.updateTimeLastRpc now)
  | .body (.queryWorker answers) => pure (.done (.workerStatus (workerStatus h.runner answers)), h)
  | .body (.run cmd) =>
    let started := h.runner.run cmd
    let h := { h with runner := started.2 }
    match started.1 with
    | (status, some .queueFull) => pure (.dupCheck cmd status, h)
    | result => pure (.finish cmd result, h)
  | .body (.abort runId) =>
    let aborted := h.runner.abort runId
    pure (.done (.runStatus (abortStatus runId aborted.1)), { h with runner := aborted.2 })
  | .body (.erase runId) => pure (.done .erased, { h with runner := h.runner.erase runId })
  | .dupCheck cmd status =>
    match h.currentCmd with
    | some current =>
      pure (if cmd.argv = current.argv then .recover cmd else .finish cmd (status, some .queueFull), h)
    | none => .panics
  | .recover cmd => pure (.query cmd h.currentRunId, h)
  | .query cmd runId => pure (.finish cmd (h.runner.status runId), h)
  | .finish _ (status, some err) =>
    pure (.done (.runStatus { status with error := some err, state := .badRequest }), h)
  | .finish cmd (status, none) => pure (.record status, { h with currentCmd := some cmd })
  | .record status => pure (.done (.runStatus status), { h with currentRunId := status.runId })
  | .done _ => .blocks

def solo (h : Handler) (now : Int) : Nat → Pc → Outcome (Reply × Handler)
  | _, .done reply => pure (reply, h)
  | 0, _ => .blocks
  | fuel + 1, pc => do
    let (pc, h) ← h.move now pc
    h.solo now fuel pc

end Handler

/-- A worker under concurrent RPCs: the handler, and where the goroutine of every RPC it
accepted stands. -/
structure Serving where
  handler : Handler
  calls : List Pc

/-- What happens next: an RPC is accepted on a goroutine of its own, goroutine `i` moves one
step at `now`, `stats` ticks, or a run moves along. -/
inductive Sched where
  | accept (call : Rpc)
  | move (i : Nat) (now : Int)
  | tick (now : Int) (answers : Bool)
  | progress (runId : RunID) (state : ProcessState)
  deriving DecidableEq, Repr

namespace Serving

def new (now : Int) : Serving := ⟨Handler.new .idle now, []⟩

def step (s : Serving) : Sched → Outcome Serving
  | .accept call => pure { s with calls := s.calls ++ [.stamp call] }
  | .move i now =>
    match s.calls[i]? with
    | some pc => do
      let (pc, h) ← s.handler.move now pc
      pure ⟨h, s.calls.set i pc⟩
    | none => .blocks
  | .tick now answers => do
    let (_, h) ← s.handler.tick now answers
    pure { s with handler := h }
  | .progress runId state =>
    pure { s with handler := { s.handler with runner := s.handler.runner.advance runId state } }

def runAll (s : Serving) : List Sched → Outcome Serving
  | [] => .returns s
  | sched :: rest => do (← s.step sched).runAll rest

end Serving

namespace Pc

def running : Pc → Bool
  | body (.run _) | dupCheck .. | recover _ | query .. | finish .. | record _ => true
  | _ => false

/-- `h.currentCmd` and `h.currentRunID` once the goroutine has made the writes it is about to
make. -/
def settle : Pc → Option Command × RunID → Option Command × RunID
  | finish cmd (status, none), _ => (some cmd, status.runId)
  | record status, (cmd, _) => (cmd, status.runId)
  | _, current => current

/-- What `Run`'s dup-retry check has read of `h.currentCmd` and `h.currentRunID` and goes on
from, and what it will read. -/
def Consistent (current : Option Command × RunID) : Pc → Prop
  | dupCheck .. => current.1.isSome
  | recover cmd => ∃ c, current.1 = some c ∧ c.argv = cmd.argv
  | query cmd runId => runId = current.2 ∧ ∃ c, current.1 = some c ∧ c.argv = cmd.argv
  | _ => True

theorem settle_of_running_eq_false {pc : Pc} (quiet : pc.running = false)
    (current : Option Command × RunID) : pc.settle current = current := by
  rcases pc with _ | ⟨_ | _ | _ | _⟩ | _ | _ | _ | _ | _ | _ <;> simp_all [running, settle]

theorem consistent_of_running_eq_false {pc : Pc} (quiet : pc.running = false)
    (current : Option Command × RunID) : pc.Consistent current := by
  rcases pc with _ | ⟨_ | _ | _ | _⟩ | _ | _ | _ | _ | _ | _ <;> simp_all [running, Consistent]

theorem foldr_settle_quiet {calls : List Pc} (quiet : ∀ pc ∈ calls, pc.running = false)
    (current : Option Command × RunID) : calls.foldr settle current = current := by
  induction calls with
  | nil => rfl
  | cons pc calls ih =>
    rw [List.foldr_cons, ih fun other mem => quiet other (.tail _ mem),
      settle_of_running_eq_false (quiet pc (.head _))]

end Pc

namespace Handler

theorem updateTimeLastRpc_keeps {h next : Handler} {now : Int}
    (stamped : h.updateTimeLastRpc now = .returns next) :
    next.runner = h.runner ∧ next.currentCmd = h.currentCmd ∧ next.currentRunId = h.currentRunId := by
  obtain ⟨runner, time, ⟨_ | _⟩, current, runId, start⟩ := h <;>
    simp [updateTimeLastRpc] at stamped
  subst stamped
  exact ⟨rfl, rfl, rfl⟩

theorem tick_keeps {h next : Handler} {now : Int} {answers : Bool} {gauges : Option Gauges}
    (ticked : h.tick now answers = .returns (gauges, next)) :
    next.runner = h.runner ∧ next.currentCmd = h.currentCmd ∧ next.currentRunId = h.currentRunId := by
  obtain ⟨runner, time, ⟨_ | _⟩, current, runId, start⟩ := h <;> cases answers <;>
    simp [tick, Runner.statusAll] at ticked <;> obtain ⟨-, rfl⟩ := ticked <;> exact ⟨rfl, rfl, rfl⟩

theorem tick_ne_panics (h : Handler) (now : Int) (answers : Bool) : h.tick now answers ≠ .panics := by
  obtain ⟨runner, time, ⟨_ | _⟩, current, runId, start⟩ := h <;> cases answers <;>
    simp [tick, Runner.statusAll]

def withCurrent (h : Handler) (current : Option Command × RunID) : Handler :=
  { h with currentCmd := current.1, currentRunId := current.2 }

/-- No step panics but `Run`'s read of a nil `h.currentCmd` in its dup-retry check. -/
theorem move_ne_panics (h : Handler) (now : Int) {pc : Pc}
    (holds : pc.Consistent (h.currentCmd, h.currentRunId)) : h.move now pc ≠ .panics := by
  cases pc with
  | stamp call =>
    cases mu : h.mu with
    | mk locked => cases locked <;> simp [move, updateTimeLastRpc, mu]
  | body call =>
    cases call with
    | run cmd =>
      simp only [move]
      split <;> simp
    | _ => simp [move]
  | dupCheck cmd status =>
    simp only [Pc.Consistent] at holds
    obtain ⟨current, is⟩ := Option.isSome_iff_exists.mp holds
    simp [move, is]
  | finish cmd result => rcases result with ⟨_, _ | _⟩ <;> simp [move]
  | _ => simp [move]

end Handler

theorem Runner.status_runId (runner : Runner) {runId : RunID} {status : RunStatus}
    (found : runner.status runId = (status, none)) : status.runId = runId := by
  unfold Runner.status at found
  split at found
  · rename_i run find
    cases found
    simpa using List.find?_some find
  · cases found

namespace Serving

/-- `h.currentCmd` and `h.currentRunID` once every goroutine has made the writes it is about to
make, and the handler with them. -/
def current (s : Serving) : Option Command × RunID :=
  s.calls.foldr Pc.settle (s.handler.currentCmd, s.handler.currentRunId)

def settled (s : Serving) : Handler := s.handler.withCurrent s.current

def OneRun (s : Serving) : Prop := (s.calls.filter Pc.running).length ≤ 1

instance (s : Serving) : Decidable s.OneRun := inferInstanceAs (Decidable (_ ≤ _))

/-- The handler, once its goroutines have made their writes, tracks its runs, and `Run`'s
dup-retry check goes on from what holds. -/
structure Safe (s : Serving) : Prop where
  tracks : s.settled.Tracks
  consistent : ∀ pc ∈ s.calls, pc.Consistent (s.handler.currentCmd, s.handler.currentRunId)

/-- The states a worker reaches from a new one over an idle runner, as RPCs arrive, their
goroutines move in any order, `stats` ticks and runs move along, with at most one `Run` in
flight at a time. -/
inductive Reachable : Serving → Prop
  | start (now : Int) : Reachable (new now)
  | step {s next : Serving} {sched : Sched} :
      Reachable s → s.step sched = .returns next → next.OneRun → Reachable next

theorem split_calls {calls : List Pc} {i : Nat} {pc : Pc} (found : calls[i]? = some pc) :
    ∃ before after, calls = before ++ pc :: after ∧
      ∀ next, calls.set i next = before ++ next :: after := by
  obtain ⟨inside, rfl⟩ := List.getElem?_eq_some_iff.mp found
  refine ⟨calls.take i, calls.drop (i + 1), ?_, fun next => ?_⟩
  · rw [List.getElem_cons_drop, List.take_append_drop]
  · rw [List.set_eq_take_append_cons_drop, if_pos inside]

theorem others_quiet {before after : List Pc} {pc : Pc}
    (one : ((before ++ pc :: after).filter Pc.running).length ≤ 1) (busy : pc.running = true) :
    ∀ other ∈ before ++ after, other.running = false := by
  simp only [List.filter_append, List.filter_cons, busy, if_true, List.length_append,
    List.length_cons] at one
  have none : (before.filter Pc.running).length = 0 ∧ (after.filter Pc.running).length = 0 := by
    omega
  simp only [List.length_eq_zero, List.filter_eq_nil_iff] at none
  intro other mem
  rcases List.mem_append.mp mem with early | late
  · simpa using none.1 other early
  · simpa using none.2 other late

theorem current_eq {h : Handler} {before after : List Pc} {pc : Pc}
    (others : ∀ other ∈ before ++ after, other.running = false) :
    (⟨h, before ++ pc :: after⟩ : Serving).current = pc.settle (h.currentCmd, h.currentRunId) := by
  simp only [current, List.foldr_append, List.foldr_cons,
    Pc.foldr_settle_quiet (fun other mem => others other (List.mem_append_right _ mem)),
    Pc.foldr_settle_quiet (fun other mem => others other (List.mem_append_left _ mem))]

theorem Safe.frame {s : Serving} (safe : s.Safe) {next : Handler}
    (cmd : next.currentCmd = s.handler.currentCmd) (runId : next.currentRunId = s.handler.currentRunId)
    (runner : next.runner.LiveFrom s.handler.runner) : Safe ⟨next, s.calls⟩ := by
  have same : (⟨next, s.calls⟩ : Serving).current = s.current := by simp only [current, cmd, runId]
  refine ⟨safe.tracks.liveFrom runner (congrArg Prod.fst same) (congrArg Prod.snd same),
    fun pc mem => ?_⟩
  rw [cmd, runId]
  exact safe.consistent pc mem

section Moves

variable {h next : Handler} {before after : List Pc} {pc pc' : Pc}

theorem Safe.quiet_move (safe : Safe ⟨h, before ++ pc :: after⟩)
    (quiet : ∀ current, pc.settle current = current) (quiet' : ∀ current, pc'.settle current = current)
    (cmd : next.currentCmd = h.currentCmd) (runId : next.currentRunId = h.currentRunId)
    (runner : next.runner.LiveFrom h.runner) (holds : pc'.Consistent (h.currentCmd, h.currentRunId)) :
    Safe ⟨next, before ++ pc' :: after⟩ := by
  have same : (⟨next, before ++ pc' :: after⟩ : Serving).current =
      (⟨h, before ++ pc :: after⟩ : Serving).current := by
    simp only [current, List.foldr_append, List.foldr_cons, quiet, quiet', cmd, runId]
  refine ⟨safe.tracks.liveFrom runner (congrArg Prod.fst same) (congrArg Prod.snd same),
    fun other mem => ?_⟩
  rw [cmd, runId]
  simp only [List.mem_append, List.mem_cons] at mem
  rcases mem with early | rfl | late
  · exact safe.consistent other (by simp [early])
  · exact holds
  · exact safe.consistent other (by simp [late])

theorem Safe.quiet_step (safe : Safe ⟨h, before ++ pc :: after⟩)
    (quiet : ∀ current, pc.settle current = current) (quiet' : ∀ current, pc'.settle current = current)
    (holds : pc'.Consistent (h.currentCmd, h.currentRunId)) : Safe ⟨h, before ++ pc' :: after⟩ :=
  safe.quiet_move quiet quiet' rfl rfl (Runner.LiveFrom.refl _) holds

theorem Safe.tracks_only (safe : Safe ⟨h, before ++ pc :: after⟩)
    (others : ∀ other ∈ before ++ after, other.running = false) :
    (h.withCurrent (pc.settle (h.currentCmd, h.currentRunId))).Tracks := by
  have tracks := safe.tracks
  rwa [settled, current_eq others] at tracks

theorem Safe.only_move (others : ∀ other ∈ before ++ after, other.running = false)
    (tracks : (next.withCurrent (pc'.settle (next.currentCmd, next.currentRunId))).Tracks)
    (holds : pc'.Consistent (next.currentCmd, next.currentRunId)) :
    Safe ⟨next, before ++ pc' :: after⟩ := by
  refine ⟨by rwa [settled, current_eq others], fun other mem => ?_⟩
  simp only [List.mem_append, List.mem_cons] at mem
  rcases mem with early | rfl | late
  · exact Pc.consistent_of_running_eq_false (others other (by simp [early])) _
  · exact holds
  · exact Pc.consistent_of_running_eq_false (others other (by simp [late])) _

end Moves

/-- Every step of a goroutine keeps the worker safe while no other `Run` is in flight. -/
theorem Safe.move {s : Serving} (safe : s.Safe) (one : s.OneRun) {i : Nat} {pc : Pc}
    (found : s.calls[i]? = some pc) {now : Int} {pc' : Pc} {next : Handler}
    (moved : s.handler.move now pc = .returns (pc', next)) :
    Safe ⟨next, s.calls.set i pc'⟩ := by
  obtain ⟨h, calls⟩ := s
  obtain ⟨before, after, rfl, set⟩ := split_calls found
  rw [set]
  have only := others_quiet one
  have holds := safe.consistent pc (by simp)
  cases pc with
  | stamp call =>
    obtain ⟨stamped, stampedEq, answered⟩ := Outcome.bind_eq_returns.mp moved
    cases answered
    obtain ⟨runner, cmd, runId⟩ := Handler.updateTimeLastRpc_keeps stampedEq
    exact safe.quiet_move (fun _ => rfl) (fun _ => rfl) cmd runId (runner ▸ Runner.LiveFrom.refl _)
      trivial
  | body call =>
    cases call with
    | queryWorker answers =>
      cases moved
      exact safe.quiet_step (fun _ => rfl) (fun _ => rfl) trivial
    | abort runId =>
      cases moved
      exact safe.quiet_move (fun _ => rfl) (fun _ => rfl) rfl rfl (h.runner.abort_liveFrom runId)
        trivial
    | erase runId =>
      cases moved
      exact safe.quiet_move (fun _ => rfl) (fun _ => rfl) rfl rfl (h.runner.erase_liveFrom runId)
        trivial
    | run cmd =>
      have tracks : h.Tracks := safe.tracks_only (only rfl)
      cases busy : h.runner.busy
      · obtain ⟨started, live⟩ := h.runner.run_idle cmd busy
        simp only [Handler.move, started] at moved
        cases moved
        refine Safe.only_move (only rfl) (fun run mem alive => ?_) trivial
        obtain rfl := live run mem alive
        exact ⟨rfl, cmd, rfl, rfl⟩
      · simp only [Handler.move, h.runner.run_busy cmd busy] at moved
        cases moved
        refine Safe.only_move (only rfl) tracks ?_
        obtain ⟨going, mem, alive⟩ := h.runner.busy_iff.mp busy
        obtain ⟨-, current, is, -⟩ := tracks going mem alive
        simp [Pc.Consistent, is]
  | dupCheck cmd status =>
    simp only [Pc.Consistent] at holds
    obtain ⟨current, is⟩ := Option.isSome_iff_exists.mp holds
    simp only [Handler.move, is] at moved
    cases moved
    refine safe.quiet_step (fun _ => rfl) (by split <;> exact fun _ => rfl) ?_
    split
    · exact ⟨current, is, by simp_all⟩
    · trivial
  | recover cmd =>
    simp only [Pc.Consistent] at holds
    cases moved
    exact safe.quiet_step (fun _ => rfl) (fun _ => rfl) ⟨rfl, holds⟩
  | query cmd runId =>
    simp only [Pc.Consistent] at holds
    obtain ⟨atCurrent, current, is, argv⟩ := holds
    have tracks : h.Tracks := safe.tracks_only (only rfl)
    cases moved
    rcases queried : h.runner.status runId with ⟨status, _ | err⟩
    · refine Safe.only_move (only rfl) (fun run mem alive => ?_) trivial
      obtain ⟨id, current', is', argv'⟩ := tracks run mem alive
      obtain rfl := Option.some.inj (is.symm.trans is')
      refine ⟨?_, cmd, rfl, argv.symm.trans argv'⟩
      simp only [queried, Pc.settle, Handler.withCurrent]
      rw [id, ← atCurrent, h.runner.status_runId queried]
    · exact safe.quiet_step (fun _ => rfl) (fun _ => rfl) (by simp [queried, Pc.Consistent])
  | finish cmd result =>
    rcases result with ⟨status, _ | err⟩ <;> cases moved
    · exact Safe.only_move (only rfl) (safe.tracks_only (only rfl)) trivial
    · exact safe.quiet_step (fun _ => rfl) (fun _ => rfl) trivial
  | record status =>
    cases moved
    exact Safe.only_move (only rfl) (safe.tracks_only (only rfl)) trivial
  | done reply => cases moved

/-- Every step keeps the worker safe while no other `Run` is in flight. -/
theorem Safe.step {s next : Serving} (safe : s.Safe) (one : s.OneRun) {sched : Sched}
    (stepped : s.step sched = .returns next) : next.Safe := by
  cases sched with
  | accept call =>
    cases stepped
    have same : (⟨s.handler, s.calls ++ [.stamp call]⟩ : Serving).current = s.current := by
      simp only [current, List.foldr_append, List.foldr_cons, List.foldr_nil]
      rfl
    refine ⟨safe.tracks.liveFrom (Runner.LiveFrom.refl _) (congrArg Prod.fst same)
      (congrArg Prod.snd same), fun pc mem => ?_⟩
    rcases List.mem_append.mp mem with old | new
    · exact safe.consistent pc old
    · rw [List.mem_singleton.mp new]
      trivial
  | move i now =>
    simp only [Serving.step] at stepped
    split at stepped
    · rename_i pc found
      obtain ⟨⟨pc', h'⟩, moved, answered⟩ := Outcome.bind_eq_returns.mp stepped
      cases answered
      exact safe.move one found moved
    · cases stepped
  | tick now answers =>
    obtain ⟨⟨gauges, h'⟩, ticked, answered⟩ := Outcome.bind_eq_returns.mp stepped
    cases answered
    obtain ⟨runner, cmd, runId⟩ := Handler.tick_keeps ticked
    exact safe.frame cmd runId (runner ▸ Runner.LiveFrom.refl _)
  | progress runId state =>
    cases stepped
    exact safe.frame rfl rfl (s.handler.runner.advance_liveFrom runId state)

theorem Safe.step_ne_panics {s : Serving} (safe : s.Safe) (sched : Sched) :
    s.step sched ≠ .panics := by
  cases sched with
  | accept | progress => simp [Serving.step]
  | tick now answers =>
    cases ticked : s.handler.tick now answers with
    | panics => exact absurd ticked (s.handler.tick_ne_panics now answers)
    | _ => simp [Serving.step, ticked]
  | move i now =>
    simp only [Serving.step]
    split
    · rename_i pc found
      have never := s.handler.move_ne_panics now (safe.consistent pc (List.getElem?_mem found))
      cases moved : s.handler.move now pc with
      | panics => exact absurd moved never
      | _ => simp [moved]
    · simp

theorem Reachable.safe {s : Serving} (reachable : Reachable s) : s.Safe ∧ s.OneRun := by
  induction reachable with
  | start now =>
    exact ⟨⟨fun run mem => by simp [settled, new, Handler.withCurrent, Handler.new, Runner.idle] at mem,
      fun _ mem => by simp [new] at mem⟩, by simp [OneRun, new]⟩
  | step _ stepped one ih => exact ⟨ih.1.step ih.2 stepped, one⟩

/-- With at most one `Run` in flight at a time, the handler never panics, whatever RPCs, ticks
and run progress interleave with it and in whatever order their goroutines move. It keeps
`h.currentCmd` and `h.currentRunID` on the run that is going, so that whenever no `Run` is in
flight and `h.mu` is free, a `Run` of the command of the run that is going, served with no RPC
overlapping it, is answered with that run's status and starts none. -/
theorem one_run_in_flight_never_panics {s : Serving} (reachable : Reachable s) :
    (∀ sched, s.step sched ≠ .panics) ∧
      ((∀ pc ∈ s.calls, pc.running = false) → s.handler.mu = ⟨false⟩ →
        ∀ now cmd going, going ∈ s.handler.runner.runs → going.live = true →
          going.cmd.argv = cmd.argv →
          s.handler.call now (.run cmd) = .returns (.runStatus going.status,
            { s.handler with
              timeLastRpc := now, currentCmd := some cmd, currentRunId := going.status.runId })) := by
  obtain ⟨safe, -⟩ := reachable.safe
  refine ⟨safe.step_ne_panics, fun idle free now cmd going mem live same => ?_⟩
  have tracks : s.handler.Tracks := by
    have settledTracks := safe.tracks
    rwa [settled, current, Pc.foldr_settle_quiet idle] at settledTracks
  simp only [Handler.call, Handler.run_replay _ now cmd tracks free mem live same,
    Outcome.returns_bind, Outcome.pure_eq]

theorem one_run_in_flight_never_panics_after_run :
    let sleep : Command := ⟨["sleep"]⟩
    let s : Serving := ⟨{ Handler.new .idle 0 with
      runner := (Runner.idle.run sleep).2, timeLastRpc := 1, currentCmd := some sleep,
      currentRunId := 1 },
      [.done (.runStatus ⟨1, .pending, none⟩)]⟩
    Reachable s ∧ (∀ sched, s.step sched ≠ .panics) ∧
      ((∀ pc ∈ s.calls, pc.running = false) → s.handler.mu = ⟨false⟩ →
        ∀ now cmd going, going ∈ s.handler.runner.runs → going.live = true →
          going.cmd.argv = cmd.argv →
          s.handler.call now (.run cmd) = .returns (.runStatus going.status,
            { s.handler with
              timeLastRpc := now, currentCmd := some cmd, currentRunId := going.status.runId })) := by
  intro sleep s
  have reachable : Reachable s :=
    @Reachable.step _ _ (.move 0 1) (@Reachable.step _ _ (.move 0 1)
      (@Reachable.step _ _ (.move 0 1) (@Reachable.step _ _ (.move 0 1)
        (@Reachable.step _ _ (.accept (.run sleep)) (.start 0) rfl (by decide))
        rfl (by decide)) rfl (by decide)) rfl (by decide)) rfl (by decide)
  exact ⟨reachable, one_run_in_flight_never_panics reachable⟩

end Serving

end Scoot.Worker
