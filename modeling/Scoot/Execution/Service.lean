import Scoot.Cas.Server

/-! The Execution API server (`executionServer`). `Execute` turns a Bazel `ExecuteRequest` into
a Scoot job of one placeholder task, validates it, hands it to the scheduler and answers a
completed long-running operation; `GetOperation` answers every name as completed. The
scheduler and the helpers of `bazel`, `scootproto`, `time`, `sched` and `ptypes` are not among
the sources, so the server is modelled over any implementation of them. `Execute` also returns
the jobs it handed to `ScheduleJob`, which is all the scheduler sees of it. -/
namespace Scoot.Execution
open Scoot.Cas

structure Duration where
  seconds : Int
  nanos : Int
  deriving DecidableEq, Repr

structure Action where
  commandDigest : Option Digest
  inputRootDigest : Option Digest
  timeout : Option Duration
  deriving DecidableEq, Repr

structure ExecuteRequest where
  action : Option Action
  deriving DecidableEq, Repr

def getDigest : Option Digest → Digest
  | none => ⟨"", 0⟩
  | some digest => digest

def getAction (req : Option ExecuteRequest) : Option Action := req.bind (·.action)

def commandDigest (req : Option ExecuteRequest) : Digest :=
  getDigest ((getAction req).bind (·.commandDigest))

def inputRootDigest (req : Option ExecuteRequest) : Digest :=
  getDigest ((getAction req).bind (·.inputRootDigest))

structure Command where
  argv : List String
  envVars : List (String × String)
  timeout : Int
  snapshotID : String
  executeRequest : Option ExecuteRequest
  deriving DecidableEq, Repr

structure TaskDefinition where
  command : Command
  taskID : String
  deriving DecidableEq, Repr

structure JobDefinition where
  priority : Nat
  tasks : List TaskDefinition
  deriving DecidableEq, Repr

def P0 : Nat := 0

inductive Stage where
  | completed
  deriving DecidableEq, Repr

structure ExecuteOperationMetadata where
  stage : Stage
  actionDigest : Option Digest
  deriving DecidableEq, Repr

structure ActionResult where
  exitCode : Int
  deriving DecidableEq, Repr

structure ExecuteResponse where
  result : Option ActionResult
  cachedResult : Bool
  deriving DecidableEq, Repr

inductive Message where
  | metadata (eom : ExecuteOperationMetadata)
  | response (res : ExecuteResponse)
  deriving DecidableEq, Repr

structure Operation (α : Type) where
  name : String
  done : Bool
  metadata : α
  response : α
  deriving DecidableEq, Repr

/-- How a handler fails: a gRPC status, or an error returned as it is (which gRPC answers
with code Unknown). -/
inductive Failure where
  | status (code : Code) (message : String)
  | plain (message : String)
  deriving DecidableEq, Repr

/-- What `executionServer` takes from other packages: `bazel.IsValidDigest` and
`bazel.DigestSnapshotID`, `scootproto.GetSha256` and `scootproto.GetMsFromDuration`,
`time.ParseDuration`, `sched.ValidateJob`, and `ptypes.MarshalAny` into `Any`s of type `α`. -/
structure Packages (α : Type) where
  isValidDigest : String → Int → Bool
  digestSnapshotID : Digest → String
  getSha256 : Option Action → Except String (String × Int)
  getMsFromDuration : Option Duration → Int
  parseDuration : String → Except String Int
  validateJob : JobDefinition → Except String Unit
  marshalAny : Message → Except String α

structure Scheduler where
  scheduleJob : JobDefinition → Except String String

/-! The binds of Go's `if err != nil { return ... }` chains, for `simp`. -/

section Binds

variable {ε ε' α β : Type}

@[simp] theorem ok_bind (value : α) (next : α → Except ε β) : (Except.ok value >>= next) = next value :=
  rfl

@[simp] theorem error_bind (err : ε) (next : α → Except ε β) :
    (Except.error err >>= next) = Except.error err :=
  rfl

@[simp] theorem mapError_ok (f : ε → ε') (value : α) : (Except.ok value).mapError f = .ok value :=
  rfl

@[simp] theorem mapError_error (f : ε → ε') (err : ε) :
    (Except.error err : Except ε α).mapError f = .error (f err) :=
  rfl

end Binds

section Server

variable {α : Type} (pkg : Packages α)

def validateExecRequest (req : Option ExecuteRequest) : Except String Unit :=
  match req with
  | none => .error "Unexpected nil execute request"
  | some _ =>
    if !pkg.isValidDigest (commandDigest req).hash (commandDigest req).sizeBytes then
      .error "Request action command digest is invalid"
    else if !pkg.isValidDigest (inputRootDigest req).hash (inputRootDigest req).sizeBytes then
      .error "Request action input root digest is invalid"
    else .ok ()

def timeoutText (req : Option ExecuteRequest) : String :=
  toString (pkg.getMsFromDuration ((getAction req).bind (·.timeout))) ++ "ms"

/-- `execReqToScoot`: a job of priority P0 with one task, whose command is a placeholder to be
looked up in the CAS by the worker, and which carries the request. `now` is the Unix time. -/
def execReqToScoot (now : Int) (req : Option ExecuteRequest) (actionSha : String) :
    Except String JobDefinition := do
  validateExecRequest pkg req
  let d ← pkg.parseDuration (timeoutText pkg req)
  let command : Command :=
    ⟨["BZ_PLACEHOLDER"], [], d, pkg.digestSnapshotID (inputRootDigest req), req⟩
  pure ⟨P0, [⟨command, "Bazel_ExecuteRequest_" ++ actionSha ++ "_" ++ toString now⟩]⟩

/-- The operation both handlers answer: done, its metadata at stage COMPLETED with the given
action digest, its response exit code 0 and not cached, each marshalled by `marshalAny`. -/
def completedOperation (name : String) (actionDigest : Option Digest) :
    Except String (Operation α) := do
  let metadata ← pkg.marshalAny (.metadata ⟨.completed, actionDigest⟩)
  let response ← pkg.marshalAny (.response ⟨some ⟨0⟩, false⟩)
  pure ⟨name, true, metadata, response⟩

/-- The stages of `Execute` before `ScheduleJob`, each failure answered Internal with its own
text: the server's scheduler, the action's digest, and the job, converted and validated. -/
def prepare (server : Option Scheduler) (now : Int) (req : Option ExecuteRequest) :
    Except Failure (Scheduler × Digest × JobDefinition) := do
  let scheduler ← match server with
    | none => .error (.status .internal "Server not initialized")
    | some scheduler => pure scheduler
  let (actionSha, actionLen) ← (pkg.getSha256 (getAction req)).mapError fun err =>
    .status .internal ("Error serializing action: " ++ err)
  let job ← (execReqToScoot pkg now req actionSha).mapError fun err =>
    .status .internal ("Error converting request to internal definition: " ++ err)
  (pkg.validateJob job).mapError fun err =>
    .status .internal ("Internal job definition invalid: " ++ err)
  pure (scheduler, ⟨actionSha, actionLen⟩, job)

def execute (server : Option Scheduler) (now : Int) (req : Option ExecuteRequest) :
    Except Failure (Operation α) × List JobDefinition :=
  match prepare pkg server now req with
  | .error failure => (.error failure, [])
  | .ok (scheduler, actionDigest, job) =>
    match scheduler.scheduleJob job with
    | .error err => (.error (.status .internal ("Failed to schedule Scoot job: " ++ err)), [job])
    | .ok id =>
      ((completedOperation pkg ("operations/" ++ id) (some actionDigest)).mapError
        fun err => .status .internal err, [job])

/-- `GetOperation`: the named operation, completed, whatever the scheduler holds. A failed
marshal is returned as it is. -/
def getOperation (server : Option Scheduler) (name : String) : Except Failure (Operation α) :=
  match server with
  | none => .error (.status .internal "Server not initialized")
  | some _ => (completedOperation pkg name none).mapError .plain

end Server

section Lemmas

variable {α : Type} (pkg : Packages α)

structure Accepted (req : Option ExecuteRequest) : Prop where
  nonNil : req.isSome
  command : pkg.isValidDigest (commandDigest req).hash (commandDigest req).sizeBytes = true
  inputRoot : pkg.isValidDigest (inputRootDigest req).hash (inputRootDigest req).sizeBytes = true

theorem validateExecRequest_ok {req : Option ExecuteRequest} :
    validateExecRequest pkg req = .ok () ↔ Accepted pkg req := by
  cases req with
  | none => simp only [validateExecRequest]; exact ⟨nofun, fun accepted => nomatch accepted.nonNil⟩
  | some r =>
    simp only [validateExecRequest]
    split_ifs with command inputRoot
    · exact ⟨nofun, fun accepted => by simp [accepted.command] at command⟩
    · exact ⟨nofun, fun accepted => by simp [accepted.inputRoot] at inputRoot⟩
    · simp_all only [Bool.not_eq_true', Bool.not_eq_false, true_iff]
      exact ⟨rfl, command, inputRoot⟩

theorem execReqToScoot_ok {now : Int} {req : Option ExecuteRequest} {actionSha : String}
    {job : JobDefinition} (converted : execReqToScoot pkg now req actionSha = .ok job) :
    Accepted pkg req ∧ ∃ timeout, pkg.parseDuration (timeoutText pkg req) = .ok timeout ∧
      job = ⟨P0, [⟨⟨["BZ_PLACEHOLDER"], [], timeout, pkg.digestSnapshotID (inputRootDigest req), req⟩,
        "Bazel_ExecuteRequest_" ++ actionSha ++ "_" ++ toString now⟩]⟩ := by
  simp only [execReqToScoot] at converted
  cases valid : validateExecRequest pkg req with
  | error err => simp [valid] at converted
  | ok _ =>
    cases parsed : pkg.parseDuration (timeoutText pkg req) with
    | error err => simp [valid, parsed] at converted
    | ok timeout =>
      simp only [valid, parsed, ok_bind, pure, Except.pure, Except.ok.injEq] at converted
      exact ⟨(validateExecRequest_ok pkg).mp valid, timeout, rfl, converted.symm⟩

/-- Everything the stages before `ScheduleJob` can do: fail with code Internal, or pass with the
server's scheduler, the action's digest, and the converted job, which `ValidateJob` passed. -/
theorem prepare_cases (server : Option Scheduler) (now : Int) (req : Option ExecuteRequest) :
    (∃ message, prepare pkg server now req = .error (.status .internal message)) ∨
      ∃ scheduler actionDigest job, prepare pkg server now req = .ok (scheduler, actionDigest, job) ∧
        server = some scheduler ∧
        pkg.getSha256 (getAction req) = .ok (actionDigest.hash, actionDigest.sizeBytes) ∧
        execReqToScoot pkg now req actionDigest.hash = .ok job ∧ pkg.validateJob job = .ok () := by
  cases server with
  | none => exact .inl ⟨_, rfl⟩
  | some scheduler =>
    cases sha : pkg.getSha256 (getAction req) with
    | error err => exact .inl ⟨"Error serializing action: " ++ err, by simp [prepare, sha]⟩
    | ok digest =>
      cases converted : execReqToScoot pkg now req digest.1 with
      | error err =>
        exact .inl ⟨"Error converting request to internal definition: " ++ err,
          by simp [prepare, sha, converted]⟩
      | ok job =>
        cases validated : pkg.validateJob job with
        | error err =>
          exact .inl ⟨"Internal job definition invalid: " ++ err,
            by simp [prepare, sha, converted, validated]⟩
        | ok _ =>
          exact .inr ⟨scheduler, ⟨digest.1, digest.2⟩, job,
            by simp [prepare, sha, converted, validated], rfl, rfl, converted, validated⟩

theorem completedOperation_cases (name : String) (actionDigest : Option Digest) :
    (∃ err, completedOperation pkg name actionDigest = .error err ∧
      (pkg.marshalAny (.metadata ⟨.completed, actionDigest⟩) = .error err ∨
        ∃ metadata, pkg.marshalAny (.metadata ⟨.completed, actionDigest⟩) = .ok metadata ∧
          pkg.marshalAny (.response ⟨some ⟨0⟩, false⟩) = .error err)) ∨
    ∃ op, completedOperation pkg name actionDigest = .ok op ∧ op.name = name ∧ op.done = true := by
  cases metadata : pkg.marshalAny (.metadata ⟨.completed, actionDigest⟩) with
  | error err => exact .inl ⟨err, by simp [completedOperation, metadata], .inl rfl⟩
  | ok metadataAny =>
    cases response : pkg.marshalAny (.response ⟨some ⟨0⟩, false⟩) with
    | error err =>
      exact .inl ⟨err, by simp [completedOperation, metadata, response], .inr ⟨_, rfl, rfl⟩⟩
    | ok responseAny =>
      exact .inr ⟨⟨name, true, metadataAny, responseAny⟩,
        by simp [completedOperation, metadata, response], rfl, rfl⟩

/-- `Execute` hands the scheduler at most one job, and only for a request that
`validateExecRequest` accepts: a job of priority P0 that `ValidateJob` passed, whose one task
runs the placeholder command on the input root's snapshot with the parsed timeout and carries
the request. An operation it answers is done and named after the id the scheduler gave that
job. -/
theorem execute_schedules_accepted_job (server : Option Scheduler) (now : Int)
    (req : Option ExecuteRequest) :
    let run := execute pkg server now req
    run.2.length ≤ 1 ∧
      (∀ job ∈ run.2, Accepted pkg req ∧ pkg.validateJob job = .ok () ∧
        ∃ timeout taskID, pkg.parseDuration (timeoutText pkg req) = .ok timeout ∧
          job = ⟨P0, [⟨⟨["BZ_PLACEHOLDER"], [], timeout, pkg.digestSnapshotID (inputRootDigest req),
            req⟩, taskID⟩]⟩) ∧
      ∀ op, run.1 = .ok op → ∃ scheduler job id, server = some scheduler ∧ run.2 = [job] ∧
        scheduler.scheduleJob job = .ok id ∧ op.name = "operations/" ++ id ∧ op.done = true := by
  intro run
  rcases prepare_cases pkg server now req with ⟨message, prepared⟩ |
    ⟨scheduler, actionDigest, job, prepared, rfl, -, converted, validated⟩
  · simp [run, execute, prepared]
  have calls : run.2 = [job] := by
    simp only [run, execute, prepared]
    split <;> rfl
  obtain ⟨accepted, timeout, parsed, rfl⟩ := execReqToScoot_ok pkg converted
  refine ⟨by simp [calls], ?_, ?_⟩
  · simp only [calls, List.mem_singleton, forall_eq]
    exact ⟨accepted, validated, timeout, _, parsed, rfl⟩
  intro op answered
  simp only [run, execute, prepared] at answered
  split at answered
  · cases answered
  · rename_i id scheduled
    rcases completedOperation_cases pkg ("operations/" ++ id) (some actionDigest) with
      ⟨err, failed, -⟩ | ⟨built, built_eq, named, done⟩
    · simp [failed] at answered
    · simp only [built_eq, mapError_ok, Except.ok.injEq] at answered
      exact ⟨scheduler, _, id, rfl, calls, scheduled, answered ▸ named, answered ▸ done⟩

example :
    let pkg : Packages Message := ⟨fun _ _ => true, Digest.hash, fun _ => .ok ("abc", 3),
      fun _ => 5, fun _ => .ok 5000000, fun _ => .ok (), .ok⟩
    execute pkg (some ⟨fun _ => .ok "7"⟩) 0 (some ⟨none⟩) =
      (.ok ⟨"operations/7", true, .metadata ⟨.completed, some ⟨"abc", 3⟩⟩, .response ⟨some ⟨0⟩, false⟩⟩,
        [⟨P0, [⟨⟨["BZ_PLACEHOLDER"], [], 5000000, "", some ⟨none⟩⟩, "Bazel_ExecuteRequest_abc_0"⟩]⟩]) :=
  rfl

/-- Every error `Execute` answers has code Internal, also for a nil request or a digest that
`IsValidDigest` rejects, which are the client's faults. A failed `Execute` leaves a job with the
scheduler only if the scheduler refused it, or accepted it and `marshalAny` then failed on the
operation's metadata or response. -/
theorem execute_fails_internal (server : Option Scheduler) (now : Int)
    (req : Option ExecuteRequest) {failure : Failure}
    (failed : (execute pkg server now req).1 = .error failure) :
    (∃ message, failure = .status .internal message) ∧
      ∀ job ∈ (execute pkg server now req).2, ∃ scheduler, server = some scheduler ∧
        ((∃ err, scheduler.scheduleJob job = .error err) ∨
          ∃ id actionDigest err, scheduler.scheduleJob job = .ok id ∧
            (pkg.marshalAny (.metadata ⟨.completed, some actionDigest⟩) = .error err ∨
              pkg.marshalAny (.response ⟨some ⟨0⟩, false⟩) = .error err)) := by
  rcases prepare_cases pkg server now req with ⟨message, prepared⟩ |
    ⟨scheduler, actionDigest, job, prepared, rfl, -⟩
  · simp only [execute, prepared] at failed ⊢
    exact ⟨⟨message, (Except.error.inj failed).symm⟩, nofun⟩
  cases scheduled : scheduler.scheduleJob job with
  | error err =>
    simp only [execute, prepared, scheduled] at failed ⊢
    exact ⟨⟨_, (Except.error.inj failed).symm⟩, by simp [scheduled]⟩
  | ok id =>
    simp only [execute, prepared, scheduled] at failed ⊢
    rcases completedOperation_cases pkg ("operations/" ++ id) (some actionDigest) with
      ⟨err, built, marshalled⟩ | ⟨_, built, -⟩
    · simp only [built, mapError_error, Except.error.injEq] at failed
      refine ⟨⟨err, failed.symm⟩, ?_⟩
      simp only [List.mem_singleton, forall_eq]
      refine ⟨scheduler, rfl, .inr ⟨id, actionDigest, err, scheduled, ?_⟩⟩
      rcases marshalled with metadata | ⟨_, -, response⟩
      exacts [.inl metadata, .inr response]
    · simp [built] at failed

theorem execute_fails_internal_on_nil_request :
    let pkg : Packages Message := ⟨fun _ _ => true, Digest.hash, fun _ => .ok ("abc", 3),
      fun _ => 5, fun _ => .ok 5000000, fun _ => .ok (), .ok⟩
    let server : Option Scheduler := some ⟨fun _ => .ok "7"⟩
    let failure : Failure :=
      .status .internal "Error converting request to internal definition: Unexpected nil execute request"
    (execute pkg server 0 none).1 = .error failure ∧
      (∃ message, failure = .status .internal message) ∧
      ∀ job ∈ (execute pkg server 0 none).2, ∃ scheduler, server = some scheduler ∧
        ((∃ err, scheduler.scheduleJob job = .error err) ∨
          ∃ id actionDigest err, scheduler.scheduleJob job = .ok id ∧
            (pkg.marshalAny (.metadata ⟨.completed, some actionDigest⟩) = .error err ∨
              pkg.marshalAny (.response ⟨some ⟨0⟩, false⟩) = .error err)) := by
  intro pkg server failure
  have failed : (execute pkg server 0 none).1 = .error failure := rfl
  exact ⟨failed, execute_fails_internal pkg server 0 none failed⟩

end Lemmas

end Scoot.Execution
