import Scoot.Saga.Log

/-! The in-memory saga log under concurrent callers. Each call is cut into the steps it
takes on the shared `RWMutex` and `sagas` map (lock, map read, map write, unlock), and the
goroutines take those steps in any interleaving. Every run stands for the calls made one at
a time in the order they took the lock: the map, and every reply each goroutine gets, are
those of that sequential history. -/
namespace Scoot.Saga
open Scoot.Go InMemorySagaLog

inductive Frame where
  | idle
  | logLocked (msg : SagaMessage)
  | logRead (msg : SagaMessage) (msgs : List SagaMessage)
  | logWritten (msg : SagaMessage)
  | startLocked (sagaId : String) (job : List UInt8)
  | startWritten (sagaId : String) (job : List UInt8)
  | getLocked (sagaId : String)
  | getRead (sagaId : String) (found : Option (List SagaMessage))
  deriving DecidableEq, Repr

structure Goroutine where
  calls : List Call
  frame : Frame
  deriving DecidableEq, Repr

/-- What the other goroutines and the trace of a run can see: a call taking the lock, and a
call returning. -/
inductive Event where
  | acquired (goroutine : Nat) (call : Call)
  | returned (goroutine : Nat) (call : Call) (reply : Reply)
  deriving DecidableEq, Repr

structure World where
  log : InMemorySagaLog
  goroutines : List Goroutine

/-- One step of goroutine `g`, as the source orders it; `none` while it waits for the lock,
and once it has nothing left to do. -/
def Goroutine.step (g : Nat) (log : InMemorySagaLog) :
    Goroutine → Option (Goroutine × InMemorySagaLog × List Event)
  | ⟨.logMessage msg :: calls, .idle⟩ => log.mutex.lock.map fun mutex =>
      (⟨calls, .logLocked msg⟩, { log with mutex }, [.acquired g (.logMessage msg)])
  | ⟨.startSaga sagaId job :: calls, .idle⟩ => log.mutex.lock.map fun mutex =>
      (⟨calls, .startLocked sagaId job⟩, { log with mutex }, [.acquired g (.startSaga sagaId job)])
  | ⟨.getMessages sagaId :: calls, .idle⟩ => log.mutex.rLock.map fun mutex =>
      (⟨calls, .getLocked sagaId⟩, { log with mutex }, [.acquired g (.getMessages sagaId)])
  | ⟨[], .idle⟩ => none
  | ⟨calls, .logLocked msg⟩ => some <| match log.sagas msg.sagaId with
    | none => (⟨calls, .idle⟩, log,
        [.returned g (.logMessage msg) (.err (some (notStarted msg.sagaId)))])
    | some msgs => (⟨calls, .logRead msg msgs⟩, log, [])
  | ⟨calls, .logRead msg msgs⟩ => some (⟨calls, .logWritten msg⟩,
      { log with sagas := Function.update log.sagas msg.sagaId (some (msgs ++ [msg])) }, [])
  | ⟨calls, .logWritten msg⟩ => some (⟨calls, .idle⟩, { log with mutex := log.mutex.unlock },
      [.returned g (.logMessage msg) (.err none)])
  | ⟨calls, .startLocked sagaId job⟩ => some (⟨calls, .startWritten sagaId job⟩,
      { log with sagas := Function.update log.sagas sagaId (some [startSagaMessageFactory sagaId job]) },
      [])
  | ⟨calls, .startWritten sagaId job⟩ => some (⟨calls, .idle⟩,
      { log with mutex := log.mutex.unlock }, [.returned g (.startSaga sagaId job) (.err none)])
  | ⟨calls, .getLocked sagaId⟩ => some (⟨calls, .getRead sagaId (log.sagas sagaId)⟩, log, [])
  | ⟨calls, .getRead sagaId found⟩ => some (⟨calls, .idle⟩, { log with mutex := log.mutex.rUnlock },
      [.returned g (.getMessages sagaId) (.messages (found.getD []))])

namespace World

def start (programs : List (List Call)) : World :=
  ⟨.empty, programs.map fun calls => ⟨calls, .idle⟩⟩

def step (w : World) (g : Nat) : Option (World × List Event) :=
  match w.goroutines[g]? with
  | none => none
  | some goroutine => (goroutine.step g w.log).map fun (next, log, events) =>
      (⟨log, w.goroutines.set g next⟩, events)

def run (w : World) : List Nat → World × List Event
  | [] => (w, [])
  | g :: schedule => match w.step g with
    | none => w.run schedule
    | some (next, events) =>
      let (final, rest) := next.run schedule
      (final, events ++ rest)

def Finished (w : World) : Prop := ∀ goroutine ∈ w.goroutines, goroutine = ⟨[], .idle⟩

instance (w : World) : Decidable w.Finished := inferInstanceAs (Decidable (∀ _ ∈ _, _))

end World

/-- The worlds and traces that some interleaving of the programs reaches. -/
inductive Reach (programs : List (List Call)) : World → List Event → Prop where
  | start : Reach programs (World.start programs) []
  | step {w next : World} {trace events : List Event} (g : Nat) :
      Reach programs w trace → w.step g = some (next, events) → Reach programs next (trace ++ events)

theorem Reach.run {programs : List (List Call)} {w : World} {trace : List Event}
    (reach : Reach programs w trace) (schedule : List Nat) :
    Reach programs (w.run schedule).1 (trace ++ (w.run schedule).2) := by
  induction schedule generalizing w trace with
  | nil => simpa [World.run] using reach
  | cons g schedule ih =>
    unfold World.run
    cases stepped : w.step g with
    | none => exact ih reach
    | some result =>
      obtain ⟨next, events⟩ := result
      simpa [List.append_assoc] using ih (reach.step g stepped)

/-! ### The sequential history of a trace -/

def tagged (trace : List Event) : List (Nat × Call) :=
  trace.filterMap fun
    | .acquired g call => some (g, call)
    | .returned .. => none

def acquired (trace : List Event) : List Call := (tagged trace).map Prod.snd

def acquiredBy (g : Nat) (trace : List Event) : List Call :=
  (tagged trace).filterMap fun (g', call) => if g' = g then some call else none

def returnedBy (g : Nat) (trace : List Event) : List (Call × Reply) :=
  trace.filterMap fun
    | .acquired .. => none
    | .returned g' call reply => if g' = g then some (call, reply) else none

/-- The calls goroutine `g` began, with the replies of the sequential history. -/
def sequentialBy (g : Nat) (trace : List Event) (replies : List Reply) : List (Call × Reply) :=
  ((tagged trace).zip replies).filterMap fun ((g', call), reply) =>
    if g' = g then some (call, reply) else none

section Projections

variable (trace : List Event) (g g' : Nat) (call : Call) (reply : Reply)

@[simp] theorem tagged_nil : tagged [] = [] := rfl

@[simp] theorem tagged_acquired : tagged (trace ++ [.acquired g call]) = tagged trace ++ [(g, call)] := by
  simp [tagged]

@[simp] theorem tagged_returned : tagged (trace ++ [.returned g call reply]) = tagged trace := by
  simp [tagged]

@[simp] theorem acquired_acquired : acquired (trace ++ [.acquired g call]) = acquired trace ++ [call] := by
  simp [acquired]

@[simp] theorem acquired_returned : acquired (trace ++ [.returned g call reply]) = acquired trace := by
  simp [acquired]

@[simp] theorem acquiredBy_acquired :
    acquiredBy g' (trace ++ [.acquired g call]) = acquiredBy g' trace ++ if g = g' then [call] else [] := by
  by_cases same : g = g' <;> simp [acquiredBy, same]

@[simp] theorem acquiredBy_returned : acquiredBy g' (trace ++ [.returned g call reply]) = acquiredBy g' trace := by
  simp [acquiredBy]

@[simp] theorem returnedBy_acquired : returnedBy g' (trace ++ [.acquired g call]) = returnedBy g' trace := by
  simp [returnedBy]

@[simp] theorem returnedBy_returned :
    returnedBy g' (trace ++ [.returned g call reply]) =
      returnedBy g' trace ++ if g = g' then [(call, reply)] else [] := by
  by_cases same : g = g' <;> simp [returnedBy, same]

@[simp] theorem sequentialBy_returned (replies : List Reply) :
    sequentialBy g' (trace ++ [.returned g call reply]) replies = sequentialBy g' trace replies := by
  simp [sequentialBy]

theorem sequentialBy_acquired {replies : List Reply} (aligned : replies.length = (tagged trace).length) :
    sequentialBy g' (trace ++ [.acquired g call]) (replies ++ [reply]) =
      sequentialBy g' trace replies ++ if g = g' then [(call, reply)] else [] := by
  by_cases same : g = g' <;> simp [sequentialBy, List.zip_append aligned.symm, same]

end Projections

/-! ### What each frame holds and still owes -/

namespace Frame

def writing : Frame → Bool
  | .logLocked _ | .logRead .. | .logWritten _ | .startLocked .. | .startWritten .. => true
  | _ => false

def reading : Frame → Bool
  | .getLocked _ | .getRead .. => true
  | _ => false

def finish (sagas : String → Option (List SagaMessage)) : Frame → String → Option (List SagaMessage)
  | .logLocked msg => match sagas msg.sagaId with
    | some msgs => Function.update sagas msg.sagaId (some (msgs ++ [msg]))
    | none => sagas
  | .logRead msg msgs => Function.update sagas msg.sagaId (some (msgs ++ [msg]))
  | .startLocked sagaId job => Function.update sagas sagaId (some [startSagaMessageFactory sagaId job])
  | _ => sagas

/-- The frame's call will return with the lock still held: a `LogMessage` about to read a
saga that has no entry. -/
def leaks (sagas : String → Option (List SagaMessage)) : Frame → Bool
  | .logLocked msg => (sagas msg.sagaId).isNone
  | _ => false

def pending (sagas : String → Option (List SagaMessage)) : Frame → Option (Call × Reply)
  | .idle => none
  | .logLocked msg => some (.logMessage msg,
      .err (if (sagas msg.sagaId).isSome then none else some (notStarted msg.sagaId)))
  | .logRead msg _ | .logWritten msg => some (.logMessage msg, .err none)
  | .startLocked sagaId job | .startWritten sagaId job => some (.startSaga sagaId job, .err none)
  | .getLocked sagaId => some (.getMessages sagaId, .messages ((sagas sagaId).getD []))
  | .getRead sagaId found => some (.getMessages sagaId, .messages (found.getD []))

@[simp] theorem idle_writing : idle.writing = false := rfl

@[simp] theorem idle_reading : idle.reading = false := rfl

@[simp] theorem getLocked_reading (sagaId : String) : (getLocked sagaId).reading = true := rfl

@[simp] theorem getRead_reading (sagaId : String) (found : Option (List SagaMessage)) :
    (getRead sagaId found).reading = true := rfl

@[simp] theorem idle_pending (sagas : String → Option (List SagaMessage)) :
    idle.pending sagas = none := rfl

theorem not_reading_of_writing {frame : Frame} (writing : frame.writing = true) :
    frame.reading = false := by
  cases frame <;> simp_all [Frame.writing, Frame.reading]

end Frame

namespace World

def frameOf (w : World) (g : Nat) : Frame := (w.goroutines[g]?.map (·.frame)).getD .idle

def callsOf (w : World) (g : Nat) : List Call := (w.goroutines[g]?.map (·.calls)).getD []

def readers (w : World) : Nat := w.goroutines.countP (·.frame.reading)

variable {w : World} {g : Nat} {goroutine next : Goroutine}

theorem frameOf_of_get (at_g : w.goroutines[g]? = some goroutine) : w.frameOf g = goroutine.frame := by
  simp [frameOf, at_g]

theorem callsOf_of_get (at_g : w.goroutines[g]? = some goroutine) : w.callsOf g = goroutine.calls := by
  simp [callsOf, at_g]

theorem frameOf_set (at_g : w.goroutines[g]? = some goroutine) (log : InMemorySagaLog) (g' : Nat) :
    (⟨log, w.goroutines.set g next⟩ : World).frameOf g' = if g' = g then next.frame else w.frameOf g' := by
  have inside : g < w.goroutines.length := (List.getElem?_eq_some_iff.mp at_g).1
  by_cases same : g' = g
  · subst same; simp [frameOf, inside]
  · simp [frameOf, same, List.getElem?_set_ne (Ne.symm same)]

theorem callsOf_set (at_g : w.goroutines[g]? = some goroutine) (log : InMemorySagaLog) (g' : Nat) :
    (⟨log, w.goroutines.set g next⟩ : World).callsOf g' = if g' = g then next.calls else w.callsOf g' := by
  have inside : g < w.goroutines.length := (List.getElem?_eq_some_iff.mp at_g).1
  by_cases same : g' = g
  · subst same; simp [callsOf, inside]
  · simp [callsOf, same, List.getElem?_set_ne (Ne.symm same)]

theorem callsOf_set_frame {calls : List Call} {frame : Frame}
    (at_g : w.goroutines[g]? = some ⟨calls, frame⟩) (log : InMemorySagaLog) (frame' : Frame) :
    (⟨log, w.goroutines.set g ⟨calls, frame'⟩⟩ : World).callsOf = w.callsOf := by
  funext g'
  rw [callsOf_set at_g]
  split
  · subst_vars
    exact (callsOf_of_get at_g).symm
  · rfl

theorem readers_set (at_g : w.goroutines[g]? = some goroutine) (log : InMemorySagaLog)
    (after : Goroutine) :
    (⟨log, w.goroutines.set g after⟩ : World).readers + (if goroutine.frame.reading then 1 else 0) =
      w.readers + (if after.frame.reading then 1 else 0) := by
  obtain ⟨inside, found⟩ := List.getElem?_eq_some_iff.mp at_g
  have counted := List.countP_set (fun goroutine : Goroutine => goroutine.frame.reading) w.goroutines g after inside
  have positive : (if goroutine.frame.reading then 1 else 0) ≤ w.readers := by
    split
    · exact List.countP_pos_iff.mpr ⟨goroutine, found ▸ List.getElem_mem inside, by simpa⟩
    · exact Nat.zero_le _
  simp only [readers, found] at counted positive ⊢
  split <;> split <;> simp_all

theorem not_reading_of_readers (none_reading : w.readers = 0) (g : Nat) : (w.frameOf g).reading = false := by
  cases at_g : w.goroutines[g]? with
  | none => simp [frameOf, at_g]
  | some goroutine =>
    rw [frameOf_of_get at_g]
    have member : goroutine ∈ w.goroutines := List.getElem?_mem at_g
    simpa using List.countP_eq_zero.mp none_reading goroutine member

theorem step_get (stepped : w.step g = some (next', events)) :
    ∃ goroutine after log, w.goroutines[g]? = some goroutine ∧
      goroutine.step g w.log = some (after, log, events) ∧ next' = ⟨log, w.goroutines.set g after⟩ := by
  unfold step at stepped
  split at stepped
  · cases stepped
  · rename_i goroutine at_g
    obtain ⟨⟨after, log, events'⟩, took, same⟩ := Option.map_eq_some'.mp stepped
    cases same
    exact ⟨goroutine, after, log, at_g, took, rfl⟩

end World

/-! ### Every run stands for its sequential history -/

/-- How the lock is held, and how the map stands to `seq`, the log the sequential history
ends in. -/
inductive Phase (w : World) (seq : InMemorySagaLog) : Prop where
  /-- No writer: the goroutines reading hold the lock, and the map is the sequential one. -/
  | shared (noWriter : ∀ g, (w.frameOf g).writing = false)
      (mutex : w.log.mutex = ⟨false, w.readers⟩) (sagas : w.log.sagas = seq.sagas)
      (free : seq.mutex = .unlocked)
  /-- Goroutine `g` holds the write lock: the map is the sequential one once `g` has written. -/
  | exclusive (g : Nat) (writing : (w.frameOf g).writing = true)
      (others : ∀ g', g' ≠ g → w.frameOf g' = .idle) (mutex : w.log.mutex = ⟨true, 0⟩)
      (sagas : (w.frameOf g).finish w.log.sagas = seq.sagas)
      (seqMutex : seq.mutex = if (w.frameOf g).leaks w.log.sagas then ⟨true, 0⟩ else .unlocked)
  /-- A `LogMessage` returned with the lock held, which nobody takes again. -/
  | leaked (idle : ∀ g, w.frameOf g = .idle) (mutex : w.log.mutex = ⟨true, 0⟩)
      (sagas : w.log.sagas = seq.sagas) (seqMutex : seq.mutex = ⟨true, 0⟩)

/-- The run stands for the calls made one at a time in the order they took the lock: that
history ends in `seq` with `replies`, every goroutine has returned, or is bound to return,
the replies the history gives its calls, and has begun its program's calls in order. -/
structure Linearized (programs : List (List Call)) (w : World) (trace : List Event)
    (replies : List Reply) (seq : InMemorySagaLog) : Prop where
  ran : empty.runCalls (acquired trace) = .returns (replies, seq)
  phase : Phase w seq
  replied : ∀ g, returnedBy g trace ++ ((w.frameOf g).pending w.log.sagas).toList =
    sequentialBy g trace replies
  begun : ∀ g, acquiredBy g trace ++ w.callsOf g = programs.getD g []

theorem Frame.eq_idle {frame : Frame} (notWriting : frame.writing = false)
    (notReading : frame.reading = false) : frame = .idle := by
  cases frame <;> simp_all [Frame.writing, Frame.reading]

theorem World.readers_eq_zero {w : World} (notReading : ∀ g, (w.frameOf g).reading = false) :
    w.readers = 0 := by
  refine List.countP_eq_zero.mpr fun goroutine member => ?_
  obtain ⟨g, inside, found⟩ := List.getElem_of_mem member
  have reading := notReading g
  rw [World.frameOf_of_get (List.getElem?_eq_some_iff.mpr ⟨inside, found⟩)] at reading
  simp [reading]

variable {programs : List (List Call)} {w : World} {trace : List Event} {replies : List Reply}
  {seq : InMemorySagaLog} {g : Nat}

namespace Phase

theorem of_free (phase : Phase w seq) (free : w.log.mutex = .unlocked) :
    seq.mutex = .unlocked ∧ w.log.sagas = seq.sagas ∧ ∀ g, w.frameOf g = .idle := by
  cases phase with
  | shared noWriter mutex sagas seqFree =>
    rw [free] at mutex
    have none_reading := World.not_reading_of_readers (by simp [RWMutex.unlocked] at mutex; exact mutex.symm)
    exact ⟨seqFree, sagas, fun g => Frame.eq_idle (noWriter g) (none_reading g)⟩
  | exclusive _ _ _ mutex => simp [free, RWMutex.unlocked] at mutex
  | leaked _ mutex => simp [free, RWMutex.unlocked] at mutex

theorem of_writer (phase : Phase w seq) (writing : (w.frameOf g).writing = true) :
    (∀ g', g' ≠ g → w.frameOf g' = .idle) ∧ w.log.mutex = ⟨true, 0⟩ ∧
      (w.frameOf g).finish w.log.sagas = seq.sagas ∧
      seq.mutex = if (w.frameOf g).leaks w.log.sagas then ⟨true, 0⟩ else .unlocked := by
  cases phase with
  | shared noWriter => simp [noWriter g] at writing
  | exclusive holder _ others mutex sagas seqMutex =>
    by_cases same : g = holder
    · subst same; exact ⟨others, mutex, sagas, seqMutex⟩
    · simp [others g same] at writing
  | leaked idle => simp [idle g] at writing

theorem of_reader (phase : Phase w seq) (reading : (w.frameOf g).reading = true) :
    (∀ g', (w.frameOf g').writing = false) ∧ w.log.mutex = ⟨false, w.readers⟩ ∧
      w.log.sagas = seq.sagas ∧ seq.mutex = .unlocked := by
  cases phase with
  | shared noWriter mutex sagas free => exact ⟨noWriter, mutex, sagas, free⟩
  | exclusive holder writing others =>
    by_cases same : g = holder
    · subst same; simp [Frame.not_reading_of_writing writing] at reading
    · simp [others g same] at reading
  | leaked idle => simp [idle g] at reading

end Phase

theorem Linearized.aligned (inv : Linearized programs w trace replies seq) :
    replies.length = (tagged trace).length := by
  simpa [acquired] using runCalls_length inv.ran

theorem Linearized.start : Linearized programs (World.start programs) [] [] empty := by
  have idle : ∀ g, (World.start programs).frameOf g = .idle := fun g => by
    cases found : programs[g]? <;> simp [World.frameOf, World.start, found]
  refine ⟨rfl, .shared (fun g => by simp [idle g]) ?_ rfl rfl, fun g => by simp [idle g, returnedBy, sequentialBy],
    fun g => ?_⟩
  · rw [World.readers_eq_zero fun g => by simp [idle g]]; rfl
  · cases found : programs[g]? <;> simp [World.callsOf, World.start, found, acquiredBy, List.getD]

/-- The frame a call takes the write lock into: what the call does, run alone on a free log,
is what the frame still owes. -/
def Locks (call : Call) (frame : Frame) : Prop :=
  ∀ log : InMemorySagaLog, log.mutex = .unlocked → ∃ reply next,
    log.apply call = .returns (reply, next) ∧ frame.finish log.sagas = next.sagas ∧
    next.mutex = (if frame.leaks log.sagas then ⟨true, 0⟩ else .unlocked) ∧
    frame.pending log.sagas = some (call, reply)

theorem locks_logMessage (msg : SagaMessage) : Locks (.logMessage msg) (.logLocked msg) := by
  intro log free
  cases stored : log.sagas msg.sagaId with
  | none => exact ⟨.err (some (notStarted msg.sagaId)), { log with mutex := ⟨true, 0⟩ },
      by simp [apply, logMessage_unstarted free stored], by simp [Frame.finish, stored],
      by simp [Frame.leaks, stored], by simp [Frame.pending, stored]⟩
  | some msgs => exact ⟨.err none, ⟨Function.update log.sagas msg.sagaId (some (msgs ++ [msg])), .unlocked⟩,
      by simp [apply, logMessage_started free stored], by simp [Frame.finish, stored],
      by simp [Frame.leaks, stored], by simp [Frame.pending, stored]⟩

theorem locks_startSaga (sagaId : String) (job : List UInt8) :
    Locks (.startSaga sagaId job) (.startLocked sagaId job) := fun log free =>
  ⟨.err none, ⟨Function.update log.sagas sagaId (some [startSagaMessageFactory sagaId job]), .unlocked⟩,
    by simp [apply, startSaga_free free], rfl, rfl, rfl⟩

namespace Linearized

variable {calls : List Call}

theorem acquire_write (inv : Linearized programs w trace replies seq) {call : Call} {frame : Frame}
    (at_g : w.goroutines[g]? = some ⟨call :: calls, .idle⟩) (free : w.log.mutex = .unlocked)
    (writing : frame.writing = true) (locks : Locks call frame) :
    ∃ replies' seq', Linearized programs
      ⟨{ w.log with mutex := ⟨true, 0⟩ }, w.goroutines.set g ⟨calls, frame⟩⟩
      (trace ++ [.acquired g call]) replies' seq' := by
  obtain ⟨seqFree, sameSagas, idle⟩ := inv.phase.of_free free
  obtain ⟨reply, seq', applied, finished, leaks, pending⟩ := locks seq seqFree
  refine ⟨replies ++ [reply], seq', by simpa using runCalls_snoc inv.ran applied,
    .exclusive g (by simp [World.frameOf_set at_g, writing])
      (fun g' differ => by simp [World.frameOf_set at_g, differ, idle]) rfl
      (by simp [World.frameOf_set at_g, sameSagas, finished])
      (by simp [World.frameOf_set at_g, sameSagas, leaks]), fun g' => ?_, fun g' => ?_⟩
  · rw [sequentialBy_acquired _ _ _ _ _ inv.aligned, ← inv.replied g']
    by_cases same : g' = g
    · subst same; simp [World.frameOf_set at_g, idle, sameSagas, pending]
    · simp [World.frameOf_set at_g, same, Ne.symm same, idle]
  · rw [acquiredBy_acquired, ← inv.begun g']
    by_cases same : g' = g
    · subst same; simp [World.callsOf_set at_g, World.callsOf_of_get at_g]
    · simp [World.callsOf_set at_g, same, Ne.symm same]

theorem acquire_read (inv : Linearized programs w trace replies seq) {sagaId : String}
    (at_g : w.goroutines[g]? = some ⟨.getMessages sagaId :: calls, .idle⟩)
    (noWriter : w.log.mutex.writer = false) :
    ∃ replies' seq', Linearized programs
      ⟨{ w.log with mutex := ⟨false, w.log.mutex.readers + 1⟩ },
        w.goroutines.set g ⟨calls, .getLocked sagaId⟩⟩
      (trace ++ [.acquired g (.getMessages sagaId)]) replies' seq' := by
  have shared : (∀ g', (w.frameOf g').writing = false) ∧ w.log.mutex = ⟨false, w.readers⟩ ∧
      w.log.sagas = seq.sagas ∧ seq.mutex = .unlocked := by
    cases inv.phase with
    | shared noWriter' mutex sagas free => exact ⟨noWriter', mutex, sagas, free⟩
    | exclusive _ _ _ mutex => simp [mutex] at noWriter
    | leaked _ mutex => simp [mutex] at noWriter
  obtain ⟨noWriters, mutex, sameSagas, seqFree⟩ := shared
  have applied : seq.apply (.getMessages sagaId) =
      .returns (.messages ((seq.sagas sagaId).getD []), seq) := by
    simp [apply, getMessages_free (by simp [seqFree, RWMutex.unlocked] : seq.mutex.writer = false)]
  have counted := World.readers_set at_g { w.log with mutex := ⟨false, w.log.mutex.readers + 1⟩ }
    ⟨calls, .getLocked sagaId⟩
  refine ⟨replies ++ [.messages ((seq.sagas sagaId).getD [])], seq,
    by simpa using runCalls_snoc inv.ran applied,
    .shared (fun g' => ?_) ?_ sameSagas seqFree, fun g' => ?_, fun g' => ?_⟩
  · by_cases same : g' = g
    · subst same; simp [World.frameOf_set at_g, Frame.writing]
    · simp [World.frameOf_set at_g, same, noWriters g']
  · simp only [World.readers, Frame.idle_reading, Frame.getLocked_reading, Bool.false_eq_true,
      if_true, if_false] at counted
    rw [mutex]
    simp only [World.readers, RWMutex.mk.injEq, true_and]
    omega
  · rw [sequentialBy_acquired _ _ _ _ _ inv.aligned, ← inv.replied g']
    by_cases same : g' = g
    · subst same; simp [World.frameOf_set at_g, World.frameOf_of_get at_g, sameSagas, Frame.pending]
    · simp [World.frameOf_set at_g, same, Ne.symm same]
  · rw [acquiredBy_acquired, ← inv.begun g']
    by_cases same : g' = g
    · subst same; simp [World.callsOf_set at_g, World.callsOf_of_get at_g]
    · simp [World.callsOf_set at_g, same, Ne.symm same]

theorem write_silent (inv : Linearized programs w trace replies seq) {frame : Frame}
    (at_g : w.goroutines[g]? = some ⟨calls, frame⟩) (writing : frame.writing = true)
    (frame' : Frame) (sagas' : String → Option (List SagaMessage)) (writing' : frame'.writing = true)
    (finish : frame'.finish sagas' = frame.finish w.log.sagas)
    (leaks : frame'.leaks sagas' = frame.leaks w.log.sagas)
    (pending : frame'.pending sagas' = frame.pending w.log.sagas) :
    Linearized programs ⟨{ w.log with sagas := sagas' }, w.goroutines.set g ⟨calls, frame'⟩⟩
      (trace ++ []) replies seq := by
  have frame_g : w.frameOf g = frame := World.frameOf_of_get at_g
  rw [← frame_g] at writing finish leaks pending
  obtain ⟨others, mutex, sagas, seqMutex⟩ := inv.phase.of_writer writing
  refine ⟨by simpa using inv.ran, .exclusive g (by simp [World.frameOf_set at_g, writing'])
      (fun g' differ => by simp [World.frameOf_set at_g, differ, others g' differ]) mutex
      (by simp [World.frameOf_set at_g, finish, sagas]) (by simp [World.frameOf_set at_g, leaks, seqMutex]),
    fun g' => ?_, fun g' => ?_⟩
  · rw [List.append_nil, ← inv.replied g']
    by_cases same : g' = g
    · subst same; simp [World.frameOf_set at_g, pending]
    · simp [World.frameOf_set at_g, same, others g' same]
  · rw [World.callsOf_set_frame at_g, List.append_nil]
    exact inv.begun g'

theorem write_return (inv : Linearized programs w trace replies seq) {frame : Frame}
    (at_g : w.goroutines[g]? = some ⟨calls, frame⟩) (writing : frame.writing = true)
    (written : frame.finish w.log.sagas = w.log.sagas) (kept : frame.leaks w.log.sagas = false)
    {call : Call} {reply : Reply} (pending : frame.pending w.log.sagas = some (call, reply)) :
    Linearized programs ⟨{ w.log with mutex := w.log.mutex.unlock }, w.goroutines.set g ⟨calls, .idle⟩⟩
      (trace ++ [.returned g call reply]) replies seq := by
  have frame_g : w.frameOf g = frame := World.frameOf_of_get at_g
  rw [← frame_g] at writing written kept pending
  obtain ⟨others, mutex, sagas, seqMutex⟩ := inv.phase.of_writer writing
  have idle : ∀ g', (World.frameOf ⟨{ w.log with mutex := w.log.mutex.unlock },
      w.goroutines.set g ⟨calls, .idle⟩⟩ g') = .idle := fun g' => by
    by_cases same : g' = g <;> simp [World.frameOf_set at_g, same, others g']
  refine ⟨by simpa using inv.ran, .shared (fun g' => by simp [idle g'])
      (by rw [World.readers_eq_zero fun g' => by simp [idle g']]; simp [mutex, RWMutex.unlock])
      (by rw [← sagas, written]) (by simp [seqMutex, kept]), fun g' => ?_, fun g' => ?_⟩
  · rw [sequentialBy_returned, ← inv.replied g', idle g']
    by_cases same : g' = g
    · subst same; simp [pending]
    · simp [same, Ne.symm same, others g' same]
  · rw [World.callsOf_set_frame at_g, acquiredBy_returned]
    exact inv.begun g'

theorem leak (inv : Linearized programs w trace replies seq) {msg : SagaMessage}
    (at_g : w.goroutines[g]? = some ⟨calls, .logLocked msg⟩) (unstarted : w.log.sagas msg.sagaId = none) :
    Linearized programs ⟨w.log, w.goroutines.set g ⟨calls, .idle⟩⟩
      (trace ++ [.returned g (.logMessage msg) (.err (some (notStarted msg.sagaId)))]) replies seq := by
  have writing : (w.frameOf g).writing = true := by simp [World.frameOf_of_get at_g, Frame.writing]
  obtain ⟨others, mutex, sagas, seqMutex⟩ := inv.phase.of_writer writing
  rw [World.frameOf_of_get at_g] at sagas seqMutex
  have idle : ∀ g', (World.frameOf ⟨w.log, w.goroutines.set g ⟨calls, .idle⟩⟩ g') = .idle := fun g' => by
    by_cases same : g' = g <;> simp [World.frameOf_set at_g, same, others g']
  refine ⟨by simpa using inv.ran, .leaked idle mutex (by simpa [Frame.finish, unstarted] using sagas)
      (by simpa [Frame.leaks, unstarted] using seqMutex), fun g' => ?_, fun g' => ?_⟩
  · rw [sequentialBy_returned, ← inv.replied g', idle g']
    by_cases same : g' = g
    · subst same; simp [World.frameOf_of_get at_g, Frame.pending, unstarted]
    · simp [same, Ne.symm same, others g' same]
  · rw [World.callsOf_set_frame at_g, acquiredBy_returned]
    exact inv.begun g'

theorem read_silent (inv : Linearized programs w trace replies seq) {sagaId : String}
    (at_g : w.goroutines[g]? = some ⟨calls, .getLocked sagaId⟩) :
    Linearized programs ⟨w.log, w.goroutines.set g ⟨calls, .getRead sagaId (w.log.sagas sagaId)⟩⟩
      (trace ++ []) replies seq := by
  have reading : (w.frameOf g).reading = true := by simp [World.frameOf_of_get at_g]
  obtain ⟨noWriters, mutex, sagas, free⟩ := inv.phase.of_reader reading
  have counted := World.readers_set at_g w.log ⟨calls, .getRead sagaId (w.log.sagas sagaId)⟩
  simp only [Frame.getLocked_reading, Frame.getRead_reading, if_true, Nat.add_right_cancel_iff] at counted
  refine ⟨by simpa using inv.ran, .shared (fun g' => ?_) (by rw [counted]; exact mutex) sagas free,
    fun g' => ?_, fun g' => ?_⟩
  · by_cases same : g' = g
    · subst same; simp [World.frameOf_set at_g, Frame.writing]
    · simp [World.frameOf_set at_g, same, noWriters g']
  · rw [List.append_nil, ← inv.replied g']
    by_cases same : g' = g
    · subst same; simp [World.frameOf_set at_g, World.frameOf_of_get at_g, Frame.pending]
    · simp [World.frameOf_set at_g, same]
  · rw [World.callsOf_set_frame at_g, List.append_nil]
    exact inv.begun g'

theorem read_return (inv : Linearized programs w trace replies seq) {sagaId : String}
    {found : Option (List SagaMessage)} (at_g : w.goroutines[g]? = some ⟨calls, .getRead sagaId found⟩) :
    Linearized programs ⟨{ w.log with mutex := w.log.mutex.rUnlock }, w.goroutines.set g ⟨calls, .idle⟩⟩
      (trace ++ [.returned g (.getMessages sagaId) (.messages (found.getD []))]) replies seq := by
  have reading : (w.frameOf g).reading = true := by simp [World.frameOf_of_get at_g]
  obtain ⟨noWriters, mutex, sagas, free⟩ := inv.phase.of_reader reading
  have counted := World.readers_set at_g { w.log with mutex := w.log.mutex.rUnlock } ⟨calls, .idle⟩
  simp only [World.readers, Frame.getRead_reading, Frame.idle_reading, Bool.false_eq_true, if_true,
    if_false] at counted
  refine ⟨by simpa using inv.ran, .shared (fun g' => ?_) ?_ sagas free, fun g' => ?_, fun g' => ?_⟩
  · by_cases same : g' = g
    · subst same; simp [World.frameOf_set at_g]
    · simp [World.frameOf_set at_g, same, noWriters g']
  · simp only [World.readers, mutex, RWMutex.rUnlock] at counted ⊢
    simp only [RWMutex.mk.injEq, true_and]
    omega
  · rw [sequentialBy_returned, ← inv.replied g']
    by_cases same : g' = g
    · subst same; simp [World.frameOf_set at_g, World.frameOf_of_get at_g, Frame.pending]
    · simp [World.frameOf_set at_g, same, Ne.symm same]
  · rw [World.callsOf_set_frame at_g, acquiredBy_returned]
    exact inv.begun g'

/-- Every step of every goroutine keeps the run standing for its sequential history. -/
theorem step (inv : Linearized programs w trace replies seq) {next : World} {events : List Event}
    (stepped : w.step g = some (next, events)) :
    ∃ replies' seq', Linearized programs next (trace ++ events) replies' seq' := by
  obtain ⟨⟨calls, frame⟩, after, log, at_g, took, rfl⟩ := World.step_get stepped
  cases frame with
  | idle =>
    cases calls with
    | nil => simp [Goroutine.step] at took
    | cons call calls =>
      cases call with
      | logMessage msg =>
        obtain ⟨mutex, locked, same⟩ := Option.map_eq_some'.mp took
        obtain ⟨free, rfl⟩ := RWMutex.lock_eq_some locked
        cases same
        exact inv.acquire_write at_g free rfl (locks_logMessage msg)
      | startSaga sagaId job =>
        obtain ⟨mutex, locked, same⟩ := Option.map_eq_some'.mp took
        obtain ⟨free, rfl⟩ := RWMutex.lock_eq_some locked
        cases same
        exact inv.acquire_write at_g free rfl (locks_startSaga sagaId job)
      | getMessages sagaId =>
        obtain ⟨mutex, locked, same⟩ := Option.map_eq_some'.mp took
        obtain ⟨noWriter, rfl⟩ := RWMutex.rLock_eq_some locked
        cases same
        exact inv.acquire_read at_g noWriter
  | logLocked msg =>
    simp only [Goroutine.step, Option.some.injEq] at took
    cases stored : w.log.sagas msg.sagaId with
    | none =>
      rw [stored] at took
      cases took
      exact ⟨_, _, inv.leak at_g stored⟩
    | some msgs =>
      rw [stored] at took
      cases took
      exact ⟨_, _, inv.write_silent at_g rfl (.logRead msg msgs) w.log.sagas rfl
        (by simp [Frame.finish, stored]) (by simp [Frame.leaks, stored]) (by simp [Frame.pending, stored])⟩
  | logRead msg msgs =>
    simp only [Goroutine.step, Option.some.injEq, Prod.mk.injEq] at took
    obtain ⟨rfl, rfl, rfl⟩ := took
    exact ⟨_, _, inv.write_silent at_g rfl (.logWritten msg) _ rfl rfl rfl rfl⟩
  | logWritten msg =>
    simp only [Goroutine.step, Option.some.injEq, Prod.mk.injEq] at took
    obtain ⟨rfl, rfl, rfl⟩ := took
    exact ⟨_, _, inv.write_return at_g rfl rfl rfl rfl⟩
  | startLocked sagaId job =>
    simp only [Goroutine.step, Option.some.injEq, Prod.mk.injEq] at took
    obtain ⟨rfl, rfl, rfl⟩ := took
    exact ⟨_, _, inv.write_silent at_g rfl (.startWritten sagaId job) _ rfl rfl rfl rfl⟩
  | startWritten sagaId job =>
    simp only [Goroutine.step, Option.some.injEq, Prod.mk.injEq] at took
    obtain ⟨rfl, rfl, rfl⟩ := took
    exact ⟨_, _, inv.write_return at_g rfl rfl rfl rfl⟩
  | getLocked sagaId =>
    simp only [Goroutine.step, Option.some.injEq, Prod.mk.injEq] at took
    obtain ⟨rfl, rfl, rfl⟩ := took
    exact ⟨_, _, inv.read_silent at_g⟩
  | getRead sagaId found =>
    simp only [Goroutine.step, Option.some.injEq, Prod.mk.injEq] at took
    obtain ⟨rfl, rfl, rfl⟩ := took
    exact ⟨_, _, inv.read_return at_g⟩

end Linearized

/-- Every interleaving stands for the calls made one at a time in the order they took the
lock. -/
theorem Reach.linearized (reach : Reach programs w trace) :
    ∃ replies seq, Linearized programs w trace replies seq := by
  induction reach with
  | start => exact ⟨[], empty, Linearized.start⟩
  | step g _ stepped ih =>
    obtain ⟨replies, seq, inv⟩ := ih
    exact inv.step stepped

theorem mem_sequentialBy {call : Call} {reply : Reply}
    (member : (call, reply) ∈ sequentialBy g trace replies) : (call, reply) ∈ (acquired trace).zip replies := by
  obtain ⟨⟨⟨g', call'⟩, reply'⟩, inside, picked⟩ := List.mem_filterMap.mp member
  by_cases same : g' = g
  · simp only [same, if_true, Option.some.injEq, Prod.mk.injEq] at picked
    obtain ⟨rfl, rfl⟩ := picked
    rw [acquired, List.zip_map_left]
    exact List.mem_map.mpr ⟨_, inside, rfl⟩
  · simp [same] at picked

private theorem calls_of_zip (pick : Nat) (tags : List (Nat × Call)) {answers : List Reply}
    (aligned : answers.length = tags.length) :
    ((tags.zip answers).filterMap fun ((g', call), reply) =>
        if g' = pick then some (call, reply) else none).map Prod.fst =
      tags.filterMap fun (g', call) => if g' = pick then some call else none := by
  induction tags generalizing answers with
  | nil => simp
  | cons tag tags ih =>
    cases answers with
    | nil => simp at aligned
    | cons answer answers =>
      obtain ⟨g', call⟩ := tag
      by_cases same : g' = pick <;> simp [same, ih (Nat.succ.inj aligned)]

theorem World.Finished.frameOf (finished : w.Finished) (g : Nat) : w.frameOf g = .idle := by
  cases found : w.goroutines[g]? with
  | none => simp [World.frameOf, found]
  | some goroutine => simp [World.frameOf, found, finished goroutine (List.getElem?_mem found)]

theorem World.Finished.callsOf (finished : w.Finished) (g : Nat) : w.callsOf g = [] := by
  cases found : w.goroutines[g]? with
  | none => simp [World.callsOf, found]
  | some goroutine => simp [World.callsOf, found, finished goroutine (List.getElem?_mem found)]

/-- Any interleaving of the goroutines' steps in which every saga is started once, before any
`LogMessage` for it, ends with each saga's entry holding its start message and then the
messages logged for it, in the order their calls took the write lock; each goroutine made
each of its calls once; every `LogMessage` returned `nil`, and every `GetMessages` returned a
prefix of the final entry. -/
theorem goroutines_log_in_lock_order (reach : Reach programs w trace) (finished : w.Finished)
    (first : startsFirst [] (acquired trace) = true) :
    (∀ sagaId, w.log.sagas sagaId = (startedJob sagaId (acquired trace)).map fun job =>
      startSagaMessageFactory sagaId job :: logged sagaId (acquired trace)) ∧
    (∀ g, acquiredBy g trace = programs.getD g [] ∧ (returnedBy g trace).map Prod.fst = acquiredBy g trace) ∧
    ∀ g call reply, Event.returned g call reply ∈ trace → Answered w.log call reply := by
  obtain ⟨replies, seq, inv⟩ := reach.linearized
  obtain ⟨replies', final, ran, -, entries, answered⟩ :=
    @runCalls_startsFirst empty [] _ rfl (fun _ => rfl) first
  rw [inv.ran, Outcome.returns.injEq, Prod.mk.injEq] at ran
  obtain ⟨rfl, rfl⟩ := ran
  have sameSagas : w.log.sagas = seq.sagas := by
    cases inv.phase with
    | shared _ _ sagas => exact sagas
    | exclusive g writing => simp [finished.frameOf g] at writing
    | leaked _ _ sagas => exact sagas
  have replied : ∀ g, returnedBy g trace = sequentialBy g trace replies := fun g => by
    simpa [finished.frameOf g] using inv.replied g
  refine ⟨fun sagaId => by rw [sameSagas, entries]; rfl,
    fun g => ⟨by simpa [finished.callsOf g] using inv.begun g, by
      rw [replied g, sequentialBy, calls_of_zip g _ inv.aligned]; rfl⟩, fun g call reply member => ?_⟩
  have returned : (call, reply) ∈ returnedBy g trace :=
    List.mem_filterMap.mpr ⟨_, member, by simp⟩
  have fromHistory := answered _ (mem_sequentialBy (replied g ▸ returned))
  cases call <;> simpa [Answered, sameSagas] using fromHistory

theorem goroutines_log_in_lock_order_writer_and_reader :
    let run := (World.start [[.startSaga "j" [], .logMessage ⟨"j", .startTask, [], "t"⟩],
      [.getMessages "j"]]).run [0, 0, 0, 1, 1, 1, 0, 0, 0, 0]
    run.1.Finished ∧ startsFirst [] (acquired ([] ++ run.2)) = true ∧
    ((∀ sagaId, run.1.log.sagas sagaId = (startedJob sagaId (acquired ([] ++ run.2))).map fun job =>
        startSagaMessageFactory sagaId job :: logged sagaId (acquired ([] ++ run.2))) ∧
      (∀ g, acquiredBy g ([] ++ run.2) =
          [[.startSaga "j" [], .logMessage ⟨"j", .startTask, [], "t"⟩], [.getMessages "j"]].getD g [] ∧
        (returnedBy g ([] ++ run.2)).map Prod.fst = acquiredBy g ([] ++ run.2)) ∧
      ∀ g call reply, Event.returned g call reply ∈ [] ++ run.2 → Answered run.1.log call reply) :=
  ⟨by decide, by decide, goroutines_log_in_lock_order (Reach.start.run _) (by decide) (by decide)⟩

end Scoot.Saga
