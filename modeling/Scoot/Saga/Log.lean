import Mathlib.Logic.Function.Basic
import Mathlib.Data.List.Infix
import Scoot.Go

/-! Saga messages, the rules the design document asks of a stored saga, and the in-memory
saga log with one call at a time. A Go `error` is an `Option String`: `none` is `nil`. -/
namespace Scoot.Saga
open Scoot.Go

inductive SagaMessageType where
  | startSaga | endSaga | abortSaga | startTask | endTask | startCompTask | endCompTask
  deriving DecidableEq, Repr

structure SagaMessage where
  sagaId : String
  msgType : SagaMessageType
  data : List UInt8
  taskId : String
  deriving DecidableEq, Repr

/-- Modelled from the spec: `StartSagaMessageFactory`, whose message carries "jobId,
serialized JobDefinition". -/
def startSagaMessageFactory (sagaId : String) (job : List UInt8) : SagaMessage :=
  ⟨sagaId, .startSaga, job, ""⟩

/-! ### The saga rules -/

def taskRunning (before : List SagaMessage) (taskId : String) : Bool :=
  match (before.filter fun m => m.taskId == taskId &&
      (m.msgType == .startTask || m.msgType == .endTask)).getLast? with
  | some last => last.msgType == .startTask
  | none => false

/-- Whether the rules let `msg` follow `before`: nothing after `EndSaga`, one `StartSaga`,
an `EndTask` only for a running task, after `AbortSaga` only compensation and `EndSaga`, and
a `StartCompTask` only for a started task. -/
def admits (before : List SagaMessage) (msg : SagaMessage) : Bool :=
  !before.any (·.msgType == .endSaga) &&
    let aborted := before.any (·.msgType == .abortSaga)
    match msg.msgType with
    | .startSaga => false
    | .endSaga => true
    | .abortSaga => !aborted
    | .startTask => !aborted
    | .endTask => !aborted && taskRunning before msg.taskId
    | .startCompTask => before.any fun m => m.msgType == .startTask && m.taskId == msg.taskId
    | .endCompTask => true

/-- A stored sequence keeps the rules: it opens with `StartSaga` and every later message is
admitted by the ones before it. -/
def followsRules (msgs : List SagaMessage) : Bool :=
  match msgs with
  | [] => false
  | first :: _ => first.msgType == .startSaga &&
      msgs.enum.all fun (i, msg) => i == 0 || admits (msgs.take i) msg

/-! ### The log -/

/-- `inMemorySagaLog`: the `sagas` map and its lock. -/
structure InMemorySagaLog where
  sagas : String → Option (List SagaMessage)
  mutex : RWMutex

inductive Call where
  | startSaga (sagaId : String) (job : List UInt8)
  | logMessage (msg : SagaMessage)
  | getMessages (sagaId : String)
  deriving DecidableEq, Repr

/-- What a call returns: the error of `StartSaga` and `LogMessage`, the messages of
`GetMessages` (whose error is always `nil`). -/
inductive Reply where
  | err (err : Option String)
  | messages (msgs : List SagaMessage)
  deriving DecidableEq, Repr

namespace InMemorySagaLog

def empty : InMemorySagaLog := ⟨fun _ => none, .unlocked⟩

def notStarted (sagaId : String) : String := "Saga: " ++ sagaId ++ " is not Started yet."

/-- `LogMessage` appends whatever message it is given to a started saga. The early return
for an unknown saga id leaves the write lock held. -/
def logMessage (log : InMemorySagaLog) (msg : SagaMessage) :
    Outcome (Option String × InMemorySagaLog) := do
  let mutex ← Outcome.waitFor log.mutex.lock
  match log.sagas msg.sagaId with
  | none => return (some (notStarted msg.sagaId), { log with mutex })
  | some msgs =>
    return (none, ⟨Function.update log.sagas msg.sagaId (some (msgs ++ [msg])), mutex.unlock⟩)

def startSaga (log : InMemorySagaLog) (sagaId : String) (job : List UInt8) :
    Outcome (Option String × InMemorySagaLog) := do
  let mutex ← Outcome.waitFor log.mutex.lock
  return (none, ⟨Function.update log.sagas sagaId (some [startSagaMessageFactory sagaId job]),
    mutex.unlock⟩)

def getMessages (log : InMemorySagaLog) (sagaId : String) :
    Outcome (List SagaMessage × InMemorySagaLog) := do
  let mutex ← Outcome.waitFor log.mutex.rLock
  return ((log.sagas sagaId).getD [], { log with mutex := mutex.rUnlock })

def apply (log : InMemorySagaLog) : Call → Outcome (Reply × InMemorySagaLog)
  | .startSaga sagaId job => do
    let (err, next) ← log.startSaga sagaId job
    return (.err err, next)
  | .logMessage msg => do
    let (err, next) ← log.logMessage msg
    return (.err err, next)
  | .getMessages sagaId => do
    let (msgs, next) ← log.getMessages sagaId
    return (.messages msgs, next)

def runCalls (log : InMemorySagaLog) : List Call → Outcome (List Reply × InMemorySagaLog)
  | [] => .returns ([], log)
  | call :: calls => do
    let (reply, next) ← log.apply call
    let (replies, final) ← next.runCalls calls
    return (reply :: replies, final)

/-- The states that calls made one at a time reach from the empty log. -/
inductive Reachable : InMemorySagaLog → Prop where
  | empty : Reachable empty
  | call {log next : InMemorySagaLog} {reply : Reply} (call : Call) :
      Reachable log → log.apply call = .returns (reply, next) → Reachable next

variable {log : InMemorySagaLog}

/-! ### One lemma per call -/

theorem logMessage_held (held : log.mutex ≠ .unlocked) (msg : SagaMessage) :
    log.logMessage msg = .blocks := by
  simp [logMessage, RWMutex.lock, held]

theorem logMessage_unstarted (free : log.mutex = .unlocked) {msg : SagaMessage}
    (unstarted : log.sagas msg.sagaId = none) :
    log.logMessage msg = .returns (some (notStarted msg.sagaId), { log with mutex := ⟨true, 0⟩ }) := by
  simp [logMessage, free, unstarted]

theorem logMessage_started (free : log.mutex = .unlocked) {msg : SagaMessage}
    {msgs : List SagaMessage} (started : log.sagas msg.sagaId = some msgs) :
    log.logMessage msg =
      .returns (none, ⟨Function.update log.sagas msg.sagaId (some (msgs ++ [msg])), .unlocked⟩) := by
  simp [logMessage, free, started]; rfl

theorem startSaga_held (held : log.mutex ≠ .unlocked) (sagaId : String) (job : List UInt8) :
    log.startSaga sagaId job = .blocks := by
  simp [startSaga, RWMutex.lock, held]

theorem startSaga_free (free : log.mutex = .unlocked) (sagaId : String) (job : List UInt8) :
    log.startSaga sagaId job = .returns (none,
      ⟨Function.update log.sagas sagaId (some [startSagaMessageFactory sagaId job]), .unlocked⟩) := by
  simp [startSaga, free]; rfl

theorem getMessages_free (free : log.mutex.writer = false) (sagaId : String) :
    log.getMessages sagaId = .returns ((log.sagas sagaId).getD [], log) := by
  obtain ⟨sagas, writer, readers⟩ := log
  simp_all [getMessages, RWMutex.rLock, RWMutex.rUnlock]

theorem getMessages_held (held : log.mutex.writer = true) (sagaId : String) :
    log.getMessages sagaId = .blocks := by
  simp [getMessages, RWMutex.rLock, held]

theorem apply_held (held : log.mutex.writer = true) (call : Call) : log.apply call = .blocks := by
  have locked : log.mutex ≠ .unlocked := fun free => by simp [free, RWMutex.unlocked] at held
  cases call <;> simp [apply, logMessage_held locked, startSaga_held locked, getMessages_held held]

/-- Everything a call that returns can have done. -/
theorem apply_cases {call : Call} {reply : Reply} {next : InMemorySagaLog}
    (ret : log.apply call = .returns (reply, next)) :
    (∃ sagaId job, call = .startSaga sagaId job ∧ log.mutex = .unlocked ∧ reply = .err none ∧
      next = ⟨Function.update log.sagas sagaId (some [startSagaMessageFactory sagaId job]),
        .unlocked⟩) ∨
    (∃ msg, call = .logMessage msg ∧ log.mutex = .unlocked ∧ log.sagas msg.sagaId = none ∧
      reply = .err (some (notStarted msg.sagaId)) ∧ next = { log with mutex := ⟨true, 0⟩ }) ∨
    (∃ msg msgs, call = .logMessage msg ∧ log.mutex = .unlocked ∧ log.sagas msg.sagaId = some msgs ∧
      reply = .err none ∧
      next = ⟨Function.update log.sagas msg.sagaId (some (msgs ++ [msg])), .unlocked⟩) ∨
    (∃ sagaId, call = .getMessages sagaId ∧ log.mutex.writer = false ∧
      reply = .messages ((log.sagas sagaId).getD []) ∧ next = log) := by
  cases call with
  | startSaga sagaId job =>
    by_cases free : log.mutex = .unlocked
    · simp only [apply, startSaga_free free, Outcome.returns_bind, Outcome.pure_eq,
        Outcome.returns.injEq, Prod.mk.injEq] at ret
      exact .inl ⟨sagaId, job, rfl, free, ret.1.symm, ret.2.symm⟩
    · simp [apply, startSaga_held free] at ret
  | logMessage msg =>
    by_cases free : log.mutex = .unlocked
    · cases started : log.sagas msg.sagaId with
      | none =>
        simp only [apply, logMessage_unstarted free started, Outcome.returns_bind, Outcome.pure_eq,
          Outcome.returns.injEq, Prod.mk.injEq] at ret
        exact .inr (.inl ⟨msg, rfl, free, started, ret.1.symm, ret.2.symm⟩)
      | some msgs =>
        simp only [apply, logMessage_started free started, Outcome.returns_bind, Outcome.pure_eq,
          Outcome.returns.injEq, Prod.mk.injEq] at ret
        exact .inr (.inr (.inl ⟨msg, msgs, rfl, free, started, ret.1.symm, ret.2.symm⟩))
    · simp [apply, logMessage_held free] at ret
  | getMessages sagaId =>
    cases writer : log.mutex.writer
    · simp only [apply, getMessages_free writer, Outcome.returns_bind, Outcome.pure_eq,
        Outcome.returns.injEq, Prod.mk.injEq] at ret
      exact .inr (.inr (.inr ⟨sagaId, rfl, rfl, ret.1.symm, ret.2.symm⟩))
    · simp [apply_held writer] at ret

theorem runCalls_snoc {calls : List Call} {replies : List Reply} {mid : InMemorySagaLog}
    (ran : log.runCalls calls = .returns (replies, mid)) {call : Call} {reply : Reply}
    {final : InMemorySagaLog} (applied : mid.apply call = .returns (reply, final)) :
    log.runCalls (calls ++ [call]) = .returns (replies ++ [reply], final) := by
  induction calls generalizing log replies with
  | nil =>
    cases ran
    simp [runCalls, applied]
  | cons first calls ih =>
    obtain ⟨⟨answer, next⟩, took, rest⟩ := Outcome.bind_eq_returns.mp ran
    obtain ⟨⟨others, last⟩, ran', done⟩ := Outcome.bind_eq_returns.mp rest
    cases done
    simp [runCalls, took, ih ran']

theorem runCalls_length {calls : List Call} {replies : List Reply} {final : InMemorySagaLog}
    (ran : log.runCalls calls = .returns (replies, final)) : replies.length = calls.length := by
  induction calls generalizing log replies with
  | nil => cases ran; rfl
  | cons call calls ih =>
    obtain ⟨⟨reply, next⟩, -, rest⟩ := Outcome.bind_eq_returns.mp ran
    obtain ⟨⟨others, last⟩, ran', done⟩ := Outcome.bind_eq_returns.mp rest
    cases done
    simp [ih ran']

/-! ### Every entry opens with its start message -/

def Opens (sagaId : String) : Option (List SagaMessage) → Prop
  | none => True
  | some msgs => ∃ job rest, msgs = startSagaMessageFactory sagaId job :: rest

theorem apply_opens {call : Call} {reply : Reply} {next : InMemorySagaLog}
    (opened : ∀ sagaId, Opens sagaId (log.sagas sagaId))
    (ret : log.apply call = .returns (reply, next)) (sagaId : String) :
    Opens sagaId (next.sagas sagaId) := by
  rcases apply_cases ret with ⟨id, job, -, -, -, rfl⟩ | ⟨msg, -, -, -, -, rfl⟩ |
    ⟨msg, msgs, -, -, started, -, rfl⟩ | ⟨id, -, -, -, rfl⟩
  · by_cases same : sagaId = id
    · subst same; simp [Opens]
    · simpa [Function.update_noteq same] using opened sagaId
  · exact opened sagaId
  · by_cases same : sagaId = msg.sagaId
    · subst same
      obtain ⟨job, rest, stored⟩ := by simpa [started, Opens] using opened msg.sagaId
      simp [Opens, stored]
    · simpa [Function.update_noteq same] using opened sagaId
  · exact opened sagaId

theorem Reachable.opens (reachable : Reachable log) (sagaId : String) :
    Opens sagaId (log.sagas sagaId) := by
  induction reachable generalizing sagaId with
  | empty => trivial
  | call _ _ ret ih => exact apply_opens ih ret sagaId

/-- From every reachable state each stored sequence opens with the start message of its id,
and `LogMessage` checks none of the other saga rules: it waits on a held lock, or refuses a
saga with no entry and leaves the map as it was, or appends the message, whatever its kind. -/
theorem logMessage_appends_any_message (reachable : Reachable log) :
    (∀ sagaId, Opens sagaId (log.sagas sagaId)) ∧
    ∀ msg : SagaMessage,
      (log.mutex ≠ .unlocked ∧ log.logMessage msg = .blocks) ∨
      (log.sagas msg.sagaId = none ∧ ∃ next,
        log.logMessage msg = .returns (some (notStarted msg.sagaId), next) ∧ next.sagas = log.sagas) ∨
      (∃ msgs, log.sagas msg.sagaId = some msgs ∧ ∃ next, log.logMessage msg = .returns (none, next) ∧
        next.sagas = Function.update log.sagas msg.sagaId (some (msgs ++ [msg]))) := by
  refine ⟨reachable.opens, fun msg => ?_⟩
  by_cases free : log.mutex = .unlocked
  · cases started : log.sagas msg.sagaId with
    | none => exact .inr (.inl ⟨rfl, _, logMessage_unstarted free started, rfl⟩)
    | some msgs => exact .inr (.inr ⟨msgs, rfl, _, logMessage_started free started, rfl⟩)
  · exact .inl ⟨free, logMessage_held free msg⟩

theorem logMessage_appends_any_message_on_empty :
    (∀ sagaId, Opens sagaId (empty.sagas sagaId)) ∧
    ∀ msg : SagaMessage,
      (empty.mutex ≠ .unlocked ∧ empty.logMessage msg = .blocks) ∨
      (empty.sagas msg.sagaId = none ∧ ∃ next,
        empty.logMessage msg = .returns (some (notStarted msg.sagaId), next) ∧
          next.sagas = empty.sagas) ∨
      (∃ msgs, empty.sagas msg.sagaId = some msgs ∧ ∃ next,
        empty.logMessage msg = .returns (none, next) ∧
          next.sagas = Function.update empty.sagas msg.sagaId (some (msgs ++ [msg]))) :=
  logMessage_appends_any_message Reachable.empty

/-- The log stores an `EndTask` for a task that never started. -/
theorem endTask_without_startTask_is_stored :
    ∃ log, Reachable log ∧
      log.sagas "j" = some [startSagaMessageFactory "j" [], ⟨"j", .endTask, [], "t"⟩] ∧
      followsRules [startSagaMessageFactory "j" [], ⟨"j", .endTask, [], "t"⟩] = false :=
  ⟨_, .call (.logMessage ⟨"j", .endTask, [], "t"⟩) (.call (.startSaga "j" []) .empty rfl) rfl,
    rfl, by decide⟩

/-- `after` extends the stored sequence `before`: an entry may appear, and a stored sequence
only grows. -/
def Extends (before after : Option (List SagaMessage)) : Prop :=
  ∀ msgs, before = some msgs → ∃ more, after = some (msgs ++ more)

/-- `LogMessage` only ever extends the stored sequences. `StartSaga` with the lock free returns
`nil` after setting its saga's entry to the start message alone, leaving every other entry as it
was and the lock free; with the lock held, as after `LogMessage` leaked it, it waits for good. -/
theorem logMessage_extends_startSaga_resets :
    (∀ (log : InMemorySagaLog) msg err next, log.logMessage msg = .returns (err, next) →
      ∀ sagaId, Extends (log.sagas sagaId) (next.sagas sagaId)) ∧
    (∀ (log : InMemorySagaLog) sagaId job,
      (log.mutex = .unlocked → ∃ next, log.startSaga sagaId job = .returns (none, next) ∧
        next.mutex = .unlocked ∧ next.sagas sagaId = some [startSagaMessageFactory sagaId job] ∧
        ∀ other, other ≠ sagaId → next.sagas other = log.sagas other) ∧
      (log.mutex ≠ .unlocked → log.startSaga sagaId job = .blocks)) := by
  constructor
  · intro log msg err next ret sagaId msgs stored
    by_cases free : log.mutex = .unlocked
    · cases started : log.sagas msg.sagaId with
      | none =>
        rw [logMessage_unstarted free started] at ret
        cases ret
        exact ⟨[], by simpa using stored⟩
      | some before =>
        rw [logMessage_started free started] at ret
        cases ret
        by_cases same : sagaId = msg.sagaId
        · subst same
          rw [started] at stored
          cases stored
          exact ⟨[msg], by simp⟩
        · exact ⟨[], by simpa [Function.update_noteq same] using stored⟩
    · simp [logMessage_held free] at ret
  · intro log sagaId job
    refine ⟨fun free => ⟨_, startSaga_free free sagaId job, rfl, by simp, fun other differ => ?_⟩,
      fun held => startSaga_held held sagaId job⟩
    simp [Function.update_noteq differ]

/-- `StartSaga` on a saga that has logged a message throws that message away. -/
theorem startSaga_drops_logged_messages :
    ∃ log next, Reachable log ∧ log.startSaga "j" [] = .returns (none, next) ∧
      ¬ Extends (log.sagas "j") (next.sagas "j") := by
  refine ⟨_, _, .call (.logMessage ⟨"j", .startTask, [], "t"⟩) (.call (.startSaga "j" []) .empty rfl) rfl,
    rfl, fun extended => ?_⟩
  obtain ⟨more, stored⟩ := extended _ rfl
  simp [Function.update_apply] at stored

/-- `LogMessage` for a saga with no entry returns its error with the write lock still held,
and from then on every call on the log waits. -/
theorem logMessage_unstarted_keeps_lock (free : log.mutex = .unlocked) {msg : SagaMessage}
    (unstarted : log.sagas msg.sagaId = none) :
    log.logMessage msg = .returns (some (notStarted msg.sagaId), { log with mutex := ⟨true, 0⟩ }) ∧
      ∀ call, ({ log with mutex := ⟨true, 0⟩ } : InMemorySagaLog).apply call = .blocks :=
  ⟨logMessage_unstarted free unstarted, apply_held rfl⟩

theorem logMessage_unstarted_keeps_lock_on_empty :
    empty.logMessage ⟨"j", .startTask, [], "t"⟩ =
        .returns (some (notStarted "j"), { empty with mutex := ⟨true, 0⟩ }) ∧
      ∀ call, ({ empty with mutex := ⟨true, 0⟩ } : InMemorySagaLog).apply call = .blocks :=
  logMessage_unstarted_keeps_lock rfl rfl

/-! ### Histories that start each saga before logging to it -/

/-- Every saga is started once, before any `LogMessage` for it; `started` are the sagas
started so far. -/
def startsFirst (started : List String) : List Call → Bool
  | [] => true
  | .startSaga sagaId _ :: calls => !started.contains sagaId && startsFirst (sagaId :: started) calls
  | .logMessage msg :: calls => started.contains msg.sagaId && startsFirst started calls
  | .getMessages _ :: calls => startsFirst started calls

def startedJob (sagaId : String) : List Call → Option (List UInt8)
  | [] => none
  | .startSaga id job :: calls => if id = sagaId then some job else startedJob sagaId calls
  | _ :: calls => startedJob sagaId calls

def logged (sagaId : String) (calls : List Call) : List SagaMessage :=
  calls.filterMap fun
    | .logMessage msg => if msg.sagaId = sagaId then some msg else none
    | _ => none

def afterCalls (sagaId : String) (calls : List Call) : Option (List SagaMessage) → Option (List SagaMessage)
  | some msgs => some (msgs ++ logged sagaId calls)
  | none => (startedJob sagaId calls).map fun job =>
      startSagaMessageFactory sagaId job :: logged sagaId calls

/-- What a call of a history may answer, `final` being the log the history ends in: `nil`
from `StartSaga` and `LogMessage`, and from `GetMessages` a prefix of the final entry. -/
def Answered (final : InMemorySagaLog) : Call → Reply → Prop
  | .startSaga _ _, reply => reply = .err none
  | .logMessage _, reply => reply = .err none
  | .getMessages sagaId, reply => ∃ msgs, reply = .messages msgs ∧ msgs <+: (final.sagas sagaId).getD []

theorem afterCalls_prefix (sagaId : String) (calls : List Call) (stored : Option (List SagaMessage)) :
    stored.getD [] <+: (afterCalls sagaId calls stored).getD [] := by
  cases stored <;> simp [afterCalls, List.prefix_append]

theorem runCalls_startsFirst {started : List String} {calls : List Call}
    (free : log.mutex = .unlocked)
    (known : ∀ sagaId, (log.sagas sagaId).isSome = started.contains sagaId)
    (first : startsFirst started calls = true) :
    ∃ replies final, log.runCalls calls = .returns (replies, final) ∧ final.mutex = .unlocked ∧
      (∀ sagaId, final.sagas sagaId = afterCalls sagaId calls (log.sagas sagaId)) ∧
      ∀ pair ∈ calls.zip replies, Answered final pair.1 pair.2 := by
  induction calls generalizing log started with
  | nil =>
    refine ⟨[], log, rfl, free, fun sagaId => ?_, by simp⟩
    cases stored : log.sagas sagaId <;> simp [afterCalls, startedJob, logged]
  | cons call calls ih =>
    cases call with
    | startSaga id job =>
      simp only [startsFirst, Bool.and_eq_true, Bool.not_eq_true'] at first
      have fresh : log.sagas id = none :=
        Option.not_isSome_iff_eq_none.mp (by rw [known id, first.1]; exact Bool.false_ne_true)
      obtain ⟨replies, final, ran, unlocked, entries, answered⟩ :=
        @ih ⟨Function.update log.sagas id (some [startSagaMessageFactory id job]), .unlocked⟩ (id :: started)
          rfl (fun k => by by_cases same : k = id <;> simp [Function.update_apply, same, known k]) first.2
      refine ⟨.err none :: replies, final, ?_, unlocked, fun sagaId => ?_, ?_⟩
      · simp [runCalls, apply, startSaga_free free, ran]
      · rw [entries sagaId]
        by_cases same : sagaId = id
        · subst same; simp [afterCalls, fresh, startedJob, logged]
        · simp [Function.update_noteq same, afterCalls, startedJob, Ne.symm same, logged]
      · simpa [Answered] using answered
    | logMessage msg =>
      simp only [startsFirst, Bool.and_eq_true] at first
      obtain ⟨msgs, stored⟩ : ∃ msgs, log.sagas msg.sagaId = some msgs :=
        Option.isSome_iff_exists.mp (by rw [known]; exact first.1)
      obtain ⟨replies, final, ran, unlocked, entries, answered⟩ :=
        @ih ⟨Function.update log.sagas msg.sagaId (some (msgs ++ [msg])), .unlocked⟩ started
          rfl (fun k => by
            by_cases same : k = msg.sagaId
            · subst same; simpa [stored] using first.1
            · simp [Function.update_noteq same, known k]) first.2
      refine ⟨.err none :: replies, final, ?_, unlocked, fun sagaId => ?_, ?_⟩
      · simp [runCalls, apply, logMessage_started free stored, ran]
      · rw [entries sagaId]
        by_cases same : sagaId = msg.sagaId
        · subst same; simp [afterCalls, stored, logged]
        · cases entry : log.sagas sagaId <;>
            simp [Function.update_noteq same, afterCalls, entry, startedJob, logged, Ne.symm same]
      · simpa [Answered] using answered
    | getMessages id =>
      simp only [startsFirst] at first
      obtain ⟨replies, final, ran, unlocked, entries, answered⟩ := ih free known first
      refine ⟨.messages ((log.sagas id).getD []) :: replies, final, ?_, unlocked, fun sagaId => ?_, ?_⟩
      · have reading : log.mutex.writer = false := by simp [free, RWMutex.unlocked]
        simp [runCalls, apply, getMessages_free reading, ran]
      · rw [entries sagaId]
        cases log.sagas sagaId <;> simp [afterCalls, startedJob, logged]
      · simp only [List.zip_cons_cons, List.mem_cons, forall_eq_or_imp]
        refine ⟨⟨_, rfl, ?_⟩, answered⟩
        rw [entries id]
        exact afterCalls_prefix id (.getMessages id :: calls) (log.sagas id)

end InMemorySagaLog

end Scoot.Saga
