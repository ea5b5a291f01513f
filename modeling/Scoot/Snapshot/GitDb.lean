import Mathlib.Data.List.Basic

/-! `snapshot/git/gitdb/create.go`: ingesting a directory, a commit or a git working directory
into the data repository. The code's whole logic is which commands it runs, in which order,
with which environment, and what it does with their answers; git, `cp`, the temp-dir maker
and `moveCommit` are the world, answering each effect from the events before it. -/
namespace Scoot.GitDb

structure Repository where
  dir : String
  deriving DecidableEq, Repr

structure DB where
  dataRepo : Repository
  deriving DecidableEq, Repr

inductive SnapshotKind where
  | fsSnapshot
  | gitCommitSnapshot
  deriving DecidableEq, Repr

structure LocalSnapshot where
  sha : String
  kind : SnapshotKind
  deriving DecidableEq, Repr

/-- What the ingest functions ask of the world: `db.tmp.TempDir`, `os.RemoveAll`, a `cp`, a git
command in a repository (with the environment the code sets, or `none` for the process's own),
and `moveCommit` from one repository to another. -/
inductive Effect where
  | tempDir (pattern : String)
  | removeAll (path : String)
  | cp (src dst : String)
  | git (repo : Repository) (args : List String) (env : Option (List String))
  | moveCommit (src dst : Repository) (sha : String)
  deriving DecidableEq, Repr

structure Event where
  effect : Effect
  answer : Except String String

/-- The world outside the code: the process environment `os.Environ()`, and how it answers an
effect after the events `history`. -/
structure World where
  environ : List String
  answer : List Event → Effect → Except String String

/-- Code that acts on the world: run after the events `history`, it ends with a result or an
error, and with the events it caused, in order. -/
def Shell (α : Type) := List Event → Except String α × List Event

namespace Shell

variable {α β : Type}

def bind (first : Shell α) (next : α → Shell β) : Shell β := fun history =>
  match first history with
  | (.error err, events) => (.error err, events)
  | (.ok value, events) =>
    let (result, rest) := next value (history ++ events)
    (result, events ++ rest)

instance : Monad Shell where
  pure value := fun _ => (.ok value, [])
  bind := bind

def attempt (m : Shell α) : Shell (Except String α) := fun history =>
  (.ok (m history).1, (m history).2)

def ofExcept (result : Except String α) : Shell α := fun _ => (result, [])

def mapError (f : String → String) (m : Shell α) : Shell α := fun history =>
  ((m history).1.mapError f, (m history).2)

@[simp] theorem pure_apply (value : α) (history : List Event) :
    (pure value : Shell α) history = (.ok value, []) := rfl

@[simp] theorem ofExcept_apply (result : Except String α) (history : List Event) :
    ofExcept result history = (result, []) := rfl

theorem attempt_bind (m : Shell α) (next : Except String α → Shell β) (history : List Event) :
    (attempt m >>= next) history =
      ((next (m history).1 (history ++ (m history).2)).1,
        (m history).2 ++ (next (m history).1 (history ++ (m history).2)).2) := rfl

theorem bind_cases {first : Shell α} {next : α → Shell β} {history : List Event}
    {result : Except String β} {events : List Event}
    (ran : (first >>= next) history = (result, events)) :
    (∃ err, first history = (.error err, events) ∧ result = .error err) ∨
      ∃ value before after, first history = (.ok value, before) ∧
        next value (history ++ before) = (result, after) ∧ events = before ++ after := by
  change bind first next history = _ at ran
  rcases firstRan : first history with ⟨_ | value, before⟩ <;>
    simp only [bind, firstRan, Prod.mk.injEq] at ran
  · exact .inl ⟨_, ran.2 ▸ rfl, ran.1.symm⟩
  · exact .inr ⟨value, before, _, rfl, Prod.ext ran.1 rfl, ran.2.symm⟩

theorem bind_eq_ok {first : Shell α} {next : α → Shell β} {history : List Event} {value : β}
    {events : List Event} (ran : (first >>= next) history = (.ok value, events)) :
    ∃ middle before after, first history = (.ok middle, before) ∧
      next middle (history ++ before) = (.ok value, after) ∧ events = before ++ after :=
  (bind_cases ran).resolve_left fun ⟨_, _, failed⟩ => Except.noConfusion failed

/-- Every event of every run of `m` satisfies `p`. -/
def Issues (m : Shell α) (p : Effect → Prop) : Prop :=
  ∀ history result events, m history = (result, events) → ∀ event ∈ events, p event.effect

namespace Issues

variable {p : Effect → Prop}

theorem pure (value : α) : Issues (pure value : Shell α) p := by
  rintro _ _ _ ⟨⟩ _ ⟨⟩

theorem bind {first : Shell α} {next : α → Shell β} (issues : Issues first p)
    (nextIssues : ∀ value, Issues (next value) p) : Issues (first >>= next) p := by
  intro history result events ran event mem
  rcases bind_cases ran with ⟨_, firstRan, -⟩ | ⟨value, before, after, firstRan, nextRan, rfl⟩
  · exact issues _ _ _ firstRan event mem
  rcases List.mem_append.mp mem with mem | mem
  · exact issues _ _ _ firstRan event mem
  · exact nextIssues value _ _ _ nextRan event mem

end Issues

end Shell

open Shell

section Ingest

variable (world : World)

def issue (effect : Effect) : Shell String := fun history =>
  (world.answer history effect, [⟨effect, world.answer history effect⟩])

@[simp] theorem issue_apply (effect : Effect) (history : List Event) :
    issue world effect history =
      (world.answer history effect, [⟨effect, world.answer history effect⟩]) := rfl

theorem Shell.Issues.issue {p : Effect → Prop} {effect : Effect} (holds : p effect) :
    Issues (GitDb.issue world effect) p := by
  rintro _ _ _ ⟨⟩ _ (_ | ⟨_, ⟨⟩⟩)
  exact holds

theorem issue_bind_eq_ok {β : Type} {effect : Effect} {next : String → Shell β}
    {history : List Event} {value : β} {events : List Event}
    (ran : (issue world effect >>= next) history = (.ok value, events)) :
    ∃ out after, world.answer history effect = .ok out ∧
      next out (history ++ [⟨effect, .ok out⟩]) = (.ok value, after) ∧
      events = ⟨effect, .ok out⟩ :: after := by
  obtain ⟨out, _, after, issued, nextRan, rfl⟩ := bind_eq_ok ran
  simp only [issue_apply, Prod.mk.injEq] at issued
  obtain ⟨answered, rfl⟩ := issued
  exact ⟨out, after, answered, by rwa [answered] at nextRan, by rw [answered]; rfl⟩

/-- `filepath.Join` of a directory and a name in it. `Join` also cleans the path, which the
directories joined here (made by `TempDir`, or a repository's) do not need. -/
def join (dir name : String) : String := dir ++ "/" ++ name

/-- `TempDir(pattern)` followed by `defer os.RemoveAll(dir)`: the body runs in the new
directory, the directory is removed whatever the body did, and the removal's own error is
dropped. A failed `TempDir` returns its error at once. -/
def withTempDir {α : Type} (pattern : String) (body : String → Shell α) : Shell α := do
  let dir ← issue world (.tempDir pattern)
  let result ← attempt (body dir)
  let _ ← attempt (issue world (.removeAll dir))
  ofExcept result

def ingestDirWithRepo (repo : Repository) (index dir : String) : Shell LocalSnapshot := do
  let gitEnv := ["GIT_INDEX_FILE=" ++ index, "GIT_WORK_TREE=" ++ dir]
  let env := world.environ ++ gitEnv
  let _ ← issue world (.git repo ["add", "--all"] (some env))
  let sha ← issue world (.git repo ["write-tree"] (some env))
  pure ⟨sha, .fsSnapshot⟩

def ingestDir (db : DB) (dir : String) : Shell LocalSnapshot :=
  withTempDir world "git-index" fun indexDir =>
    ingestDirWithRepo world db.dataRepo (join indexDir "index") dir

def shaPresent (db : DB) (sha : String) : Shell Unit := do
  let _ ← issue world (.git db.dataRepo ["rev-parse", "--verify", sha ++ "^\x7bobject\x7d"] none)
  pure ()

def ingestGitCommit (db : DB) (ingestRepo : Repository) (commitish : String) :
    Shell LocalSnapshot := do
  let sha ← mapError (fun err => "not a valid commit: " ++ commitish ++ ", " ++ err)
    (issue world (.git ingestRepo ["rev-parse", "--verify", commitish ++ "^\x7bcommit\x7d"] none))
  match ← attempt (shaPresent world db sha) with
  | .ok () => pure ⟨sha, .gitCommitSnapshot⟩
  | .error _ =>
    let _ ← issue world (.moveCommit ingestRepo db.dataRepo sha)
    pure ⟨sha, .gitCommitSnapshot⟩

def ingestGitWorkingDir (db : DB) (ingestRepo : Repository) : Shell LocalSnapshot :=
  withTempDir world "git-index" fun indexDir => do
    let _ ← issue world (.cp (join ingestRepo.dir ".git/index") indexDir)
    let s ← ingestDirWithRepo world ingestRepo (join indexDir "index") ingestRepo.dir
    let sha ← issue world
      (.git ingestRepo ["commit-tree", "-p", "HEAD", "-m", "__scoot_commit", s.sha] none)
    let _ ← issue world (.moveCommit ingestRepo db.dataRepo sha)
    pure ⟨sha, .gitCommitSnapshot⟩

/-- Everything `withTempDir` can do: fail at `TempDir` and do nothing else, or make a directory,
run the body after that and remove the directory last. -/
theorem withTempDir_cases {α : Type} {pattern : String} {body : String → Shell α}
    {history : List Event} {result : Except String α} {events : List Event}
    (ran : withTempDir world pattern body history = (result, events)) :
    (∃ err, events = [⟨.tempDir pattern, .error err⟩] ∧ result = .error err) ∨
      ∃ dir bodyEvents removed,
        body dir (history ++ [⟨.tempDir pattern, .ok dir⟩]) = (result, bodyEvents) ∧
        events = ⟨.tempDir pattern, .ok dir⟩ :: bodyEvents ++ [⟨.removeAll dir, removed⟩] := by
  rcases bind_cases ran with ⟨err, made, rfl⟩ | ⟨dir, _, after, made, bodyRan, rfl⟩
  · simp only [issue_apply, Prod.mk.injEq] at made
    exact .inl ⟨err, by rw [← made.2, made.1], rfl⟩
  · simp only [issue_apply, Prod.mk.injEq] at made
    obtain ⟨answered, rfl⟩ := made
    rw [attempt_bind, attempt_bind] at bodyRan
    simp only [issue_apply, ofExcept_apply, List.append_nil, Prod.mk.injEq] at bodyRan
    rw [answered] at bodyRan ⊢
    exact .inr ⟨dir, _, _, Prod.ext bodyRan.1 rfl, by rw [← bodyRan.2]; rfl⟩

def ingestEnv (index dir : String) : List String :=
  world.environ ++ ["GIT_INDEX_FILE=" ++ index, "GIT_WORK_TREE=" ++ dir]

theorem ingestDirWithRepo_ok {repo : Repository} {index dir : String} {history : List Event}
    {snap : LocalSnapshot} {events : List Event}
    (ran : ingestDirWithRepo world repo index dir history = (.ok snap, events)) :
    snap.kind = .fsSnapshot ∧ ∃ added, events =
      [⟨.git repo ["add", "--all"] (some (ingestEnv world index dir)), .ok added⟩,
        ⟨.git repo ["write-tree"] (some (ingestEnv world index dir)), .ok snap.sha⟩] := by
  obtain ⟨added, _, -, treeRan, rfl⟩ := issue_bind_eq_ok world ran
  obtain ⟨sha, _, -, done, rfl⟩ := issue_bind_eq_ok world treeRan
  obtain ⟨⟨⟩, rfl⟩ := Prod.mk.inj done
  exact ⟨rfl, added, rfl⟩

theorem shaPresent_apply (db : DB) (sha : String) (history : List Event) :
    shaPresent world db sha history =
      ((world.answer history
          (.git db.dataRepo ["rev-parse", "--verify", sha ++ "^\x7bobject\x7d"] none)).map fun _ => (),
        [⟨.git db.dataRepo ["rev-parse", "--verify", sha ++ "^\x7bobject\x7d"] none,
          world.answer history
            (.git db.dataRepo ["rev-parse", "--verify", sha ++ "^\x7bobject\x7d"] none)⟩]) := by
  unfold shaPresent
  change Shell.bind _ _ history = _
  cases answered : world.answer history
    (.git db.dataRepo ["rev-parse", "--verify", sha ++ "^\x7bobject\x7d"] none) <;>
  simp [Shell.bind, answered, Except.map]

/-- An effect that stays inside the temp dir `indexDir`: it makes and removes no directory, and
a git command given an environment of its own has it end by setting the index to a file in
`indexDir` (`os/exec` keeps the last value of a key set twice, so git uses that index). -/
def Effect.Confined (indexDir : String) : Effect → Prop
  | .tempDir _ | .removeAll _ => False
  | .git _ _ (some env) => ∃ environ workTree,
      env = environ ++ ["GIT_INDEX_FILE=" ++ join indexDir "index", "GIT_WORK_TREE=" ++ workTree]
  | .git _ _ none | .cp _ _ | .moveCommit _ _ _ => True

/-- A run that works in a temp dir: it fails at `TempDir` and does nothing else, or it makes a
directory, stays inside it, and calls `RemoveAll` on it as its last effect. That call may fail:
the deferred call's error is dropped, so the directory can be left behind. -/
def ScopedRun {α : Type} (pattern : String) (result : Except String α) (events : List Event) : Prop :=
  (∃ err, events = [⟨.tempDir pattern, .error err⟩] ∧ result = .error err) ∨
    ∃ indexDir middle removed,
      events = ⟨.tempDir pattern, .ok indexDir⟩ :: middle ++ [⟨.removeAll indexDir, removed⟩] ∧
      ∀ event ∈ middle, event.effect.Confined indexDir

theorem withTempDir_scoped {α : Type} {pattern : String} {body : String → Shell α}
    (confined : ∀ dir, Issues (body dir) (Effect.Confined dir)) {history : List Event}
    {result : Except String α} {events : List Event}
    (ran : withTempDir world pattern body history = (result, events)) :
    ScopedRun pattern result events :=
  (withTempDir_cases world ran).imp_right fun ⟨dir, bodyEvents, removed, bodyRan, events⟩ =>
    ⟨dir, bodyEvents, removed, events, confined dir _ _ _ bodyRan⟩

theorem ingestDirWithRepo_confined (repo : Repository) (indexDir dir : String) :
    Issues (ingestDirWithRepo world repo (join indexDir "index") dir) (Effect.Confined indexDir) :=
  have ends : ∀ args, (Effect.git repo args
      (some (ingestEnv world (join indexDir "index") dir))).Confined indexDir :=
    fun _ => ⟨world.environ, dir, rfl⟩
  .bind (.issue world (ends _)) fun _ => .bind (.issue world (ends _)) fun _ => .pure _

/-- Whatever git, `cp` and the file system answer, `ingestDir` and `ingestGitWorkingDir` fail at
`TempDir` and do nothing else, or call `RemoveAll` on the directory they made as their last
effect, after effects that make or remove no directory and run every git command that has an
environment of its own on an index inside that directory. -/
theorem ingest_confined_to_temp_dir {db : DB} {dir : String} {repo : Repository}
    {history : List Event} {result : Except String LocalSnapshot} {events : List Event}
    (ran : ingestDir world db dir history = (result, events) ∨
      ingestGitWorkingDir world db repo history = (result, events)) :
    ScopedRun "git-index" result events := by
  rcases ran with ran | ran
  · exact withTempDir_scoped world (fun indexDir => ingestDirWithRepo_confined world _ indexDir dir) ran
  · refine withTempDir_scoped world (fun indexDir => ?_) ran
    exact .bind (.issue world trivial) fun _ => .bind (ingestDirWithRepo_confined world _ _ _)
      fun _ => .bind (.issue world trivial) fun _ => .bind (.issue world trivial) fun _ => .pure _

theorem ingest_confined_to_temp_dir_after_failed_write :
    let world : World := ⟨["HOME=/root"], fun _ effect => match effect with
      | .tempDir _ => .ok "/tmp/git-index1"
      | .git _ ["write-tree"] _ => .error "exit status 128"
      | _ => .ok ""⟩
    let db : DB := ⟨⟨"/data"⟩⟩
    (ingestDir world db "/src" []).1 = .error "exit status 128" ∧
      ScopedRun "git-index" (ingestDir world db "/src" []).1 (ingestDir world db "/src" []).2 := by
  intro world db
  exact ⟨rfl, @ingest_confined_to_temp_dir world db "/src" ⟨""⟩ [] _ _ (.inl rfl)⟩

/-- The events show that `repo` holds the object `sha`: its `write-tree` printed it, its
`rev-parse --verify` found it, or `moveCommit` moved it there. -/
def Holds (repo : Repository) (events : List Event) (sha : String) : Prop :=
  (∃ env, (⟨.git repo ["write-tree"] env, .ok sha⟩ : Event) ∈ events) ∨
    (∃ out, (⟨.git repo ["rev-parse", "--verify", sha ++ "^\x7bobject\x7d"] none, .ok out⟩ : Event) ∈
      events) ∨
    ∃ src out, (⟨.moveCommit src repo sha, .ok out⟩ : Event) ∈ events

theorem Holds.mono {repo : Repository} {events events' : List Event} {sha : String}
    (sub : events ⊆ events') : Holds repo events sha → Holds repo events' sha := by
  rintro (⟨env, mem⟩ | ⟨out, mem⟩ | ⟨src, out, mem⟩)
  exacts [.inl ⟨env, sub mem⟩, .inr (.inl ⟨out, sub mem⟩), .inr (.inr ⟨src, out, sub mem⟩)]

/-- Git's promise about a repository, which the ingest functions rely on: an object the events
show it to hold is found by every later `rev-parse --verify`. -/
def World.Keeps (repo : Repository) : Prop :=
  ∀ history sha, Holds repo history sha → ∀ later, ∃ out,
    world.answer (history ++ later)
      (.git repo ["rev-parse", "--verify", sha ++ "^\x7bobject\x7d"] none) = .ok out

theorem ingestDir_holds {db : DB} {dir : String} {history : List Event} {snap : LocalSnapshot}
    {events : List Event} (ran : ingestDir world db dir history = (.ok snap, events)) :
    snap.kind = .fsSnapshot ∧ Holds db.dataRepo events snap.sha := by
  rcases withTempDir_cases world ran with ⟨_, -, ⟨⟩⟩ | ⟨indexDir, _, _, bodyRan, rfl⟩
  obtain ⟨kind, added, rfl⟩ := ingestDirWithRepo_ok world bodyRan
  exact ⟨kind, .inl ⟨some (ingestEnv world (join indexDir "index") dir), by simp⟩⟩

theorem ingestGitCommit_holds {db : DB} {repo : Repository} {commitish : String}
    {history : List Event} {snap : LocalSnapshot} {events : List Event}
    (ran : ingestGitCommit world db repo commitish history = (.ok snap, events)) :
    snap.kind = .gitCommitSnapshot ∧ Holds db.dataRepo events snap.sha := by
  obtain ⟨sha, before, after, -, checked, rfl⟩ := bind_eq_ok ran
  rw [attempt_bind, shaPresent_apply] at checked
  cases found : world.answer (history ++ before)
    (.git db.dataRepo ["rev-parse", "--verify", sha ++ "^\x7bobject\x7d"] none) with
  | ok out =>
    simp only [found, Except.map, pure_apply, Prod.mk.injEq] at checked
    obtain ⟨⟨⟩, rfl⟩ := checked
    exact ⟨rfl, .inr (.inl ⟨out, by simp⟩)⟩
  | error err =>
    simp only [found, Except.map, Prod.mk.injEq] at checked
    obtain ⟨moved, _, -, done, moveEvents⟩ :=
      issue_bind_eq_ok world (Prod.ext checked.1 rfl : _ = (_, _))
    obtain ⟨⟨⟩, -⟩ := Prod.mk.inj done
    have mem := moveEvents ▸ List.mem_cons_self _ _
    exact ⟨rfl, .inr (.inr ⟨repo, moved,
      checked.2 ▸ List.mem_append_right _ (List.mem_append_right _ mem)⟩)⟩

theorem ingestGitWorkingDir_holds {db : DB} {repo : Repository} {history : List Event}
    {snap : LocalSnapshot} {events : List Event}
    (ran : ingestGitWorkingDir world db repo history = (.ok snap, events)) :
    snap.kind = .gitCommitSnapshot ∧ Holds db.dataRepo events snap.sha := by
  rcases withTempDir_cases world ran with ⟨_, -, ⟨⟩⟩ | ⟨indexDir, _, _, bodyRan, rfl⟩
  obtain ⟨_, _, -, treeRan, rfl⟩ := issue_bind_eq_ok world bodyRan
  obtain ⟨_, _, _, -, commitRan, rfl⟩ := bind_eq_ok treeRan
  obtain ⟨sha, _, -, moveRan, rfl⟩ := issue_bind_eq_ok world commitRan
  obtain ⟨moved, _, -, done, rfl⟩ := issue_bind_eq_ok world moveRan
  obtain ⟨⟨⟩, rfl⟩ := Prod.mk.inj done
  exact ⟨rfl, .inr (.inr ⟨repo, moved, by simp⟩)⟩

/-- A snapshot an ingest returns is in the data repository: if git keeps what the data
repository was seen to hold, then after `ingestDir`, `ingestGitCommit` or
`ingestGitWorkingDir` returned a snapshot, `shaPresent` finds its sha at any later time. -/
theorem ingested_sha_present {db : DB} (keeps : world.Keeps db.dataRepo) {dir commitish : String}
    {repo : Repository} {history : List Event} {snap : LocalSnapshot} {events : List Event}
    (ingested : ingestDir world db dir history = (.ok snap, events) ∨
      ingestGitCommit world db repo commitish history = (.ok snap, events) ∨
      ingestGitWorkingDir world db repo history = (.ok snap, events))
    (later : List Event) :
    (shaPresent world db snap.sha (history ++ events ++ later)).1 = .ok () := by
  have holds : Holds db.dataRepo events snap.sha := by
    rcases ingested with ran | ran | ran
    exacts [(ingestDir_holds world ran).2, (ingestGitCommit_holds world ran).2,
      (ingestGitWorkingDir_holds world ran).2]
  obtain ⟨out, found⟩ := keeps _ _ (holds.mono (List.subset_append_right history events)) later
  rw [shaPresent_apply, found]
  rfl

theorem ingested_sha_present_after_working_dir :
    let world : World := ⟨["HOME=/root"], fun _ effect => match effect with
      | .tempDir _ => .ok "/tmp/git-index1"
      | .git _ ["write-tree"] _ => .ok "t1"
      | .git _ ("commit-tree" :: _) _ => .ok "c1"
      | _ => .ok ""⟩
    let db : DB := ⟨⟨"/data"⟩⟩
    let repo : Repository := ⟨"/work"⟩
    (ingestGitWorkingDir world db repo []).1 = .ok ⟨"c1", .gitCommitSnapshot⟩ ∧
      (shaPresent world db "c1" ([] ++ (ingestGitWorkingDir world db repo []).2 ++ [])).1 = .ok () := by
  intro world db repo
  exact ⟨rfl, @ingested_sha_present world db (fun _ _ _ _ => ⟨"", rfl⟩) "" "" repo []
    ⟨"c1", .gitCommitSnapshot⟩ _ (.inr (.inr (Prod.ext rfl rfl))) []⟩

end Ingest

end Scoot.GitDb
