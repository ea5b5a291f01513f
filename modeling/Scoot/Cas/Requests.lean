import Scoot.Cas.Server

/-! The CAS server serving one request after another over its one store: the ByteStream,
ContentAddressableStorage and ActionCache handlers as the transitions of a state machine whose
state is the store, each request served at its own time. gRPC runs each call on a goroutine of
its own; these are the runs in which no two calls overlap. Only `Write` and
`UpdateActionResult` store anything, `Write` only under a name that holds nothing live, and
every entry keeps the TTL set when it was stored. -/
namespace Scoot.Cas
open Scoot.Go

/-- A request to one of the server's handlers. The handlers Scoot does not support read nothing
of their requests. -/
inductive Request (α : Type) where
  | findMissingBlobs (digests : List Digest)
  | batchUpdateBlobs
  | getTree
  | read (req : ReadRequest)
  | write (upload : List WriteRequest)
  | queryWriteStatus
  | getActionResult (digest : Digest)
  | updateActionResult (digest : Digest) (result : Option α)
  deriving DecidableEq, Repr

inductive Reply (α : Type) where
  | missing (reply : MissingReply)
  | read (reply : ReadReply)
  | write (reply : WriteReply)
  | action (reply : ActionReply α)
  | unimplemented (message : String)
  deriving DecidableEq, Repr

section Serve

variable (bz : Bazel) {α : Type} (codec : Codec α)

/-- One request at `now`, answered by its handler. `BatchUpdateBlobs`, `GetTree` and
`QueryWriteStatus` answer Unimplemented whatever the request. -/
def serve (storeConfig : Option Store) (now : Int) : Request α → Outcome (Reply α × Option Store)
  | .findMissingBlobs digests =>
    pure (.missing (findMissingBlobs bz storeConfig now digests), storeConfig)
  | .batchUpdateBlobs =>
    pure (.unimplemented "Currently unsupported in Scoot - update blobs independently", storeConfig)
  | .getTree => pure (.unimplemented "Currently unsupported in Scoot", storeConfig)
  | .queryWriteStatus =>
    pure (.unimplemented "Currently unsupported in Scoot - Writes are not resumable", storeConfig)
  | .read req => pure (.read (read bz storeConfig now req), storeConfig)
  | .write upload => do
    let (reply, next) ← write bz storeConfig now upload
    pure (.write reply, next)
  | .getActionResult digest =>
    pure (.action (getActionResult bz codec storeConfig now digest), storeConfig)
  | .updateActionResult digest result =>
    let (reply, next) := updateActionResult bz codec storeConfig now digest result
    pure (.action reply, next)

def serveAll (storeConfig : Option Store) :
    List (Int × Request α) → Outcome (List (Reply α) × Option Store)
  | [] => pure ([], storeConfig)
  | (now, req) :: reqs => do
    let (reply, next) ← serve bz codec storeConfig now req
    let (replies, final) ← serveAll next reqs
    pure (reply :: replies, final)

def Request.overwrites (name : String) : Request α → Bool
  | .updateActionResult digest _ => bz.digestStoreName digest = name
  | _ => false

def Request.updates : Request α → Bool
  | .updateActionResult _ _ => true
  | _ => false

/-- What a request hands the server to keep under `name`: the upload of a `Write` whose first
request names a digest of that store name, or the marshalled result of an `UpdateActionResult`
for such a digest. -/
def Request.sends (name : String) (data : List UInt8) : Request α → Prop
  | .write (wr :: rest) => ∃ digest, bz.parseWriteResource wr.resourceName = some ⟨digest⟩ ∧
      bz.digestStoreName digest = name ∧ uploaded (wr :: rest) = some data
  | .updateActionResult digest (some ar) =>
      bz.digestStoreName digest = name ∧ codec.marshal ar = some data
  | _ => False

end Serve

def entryAt (storeConfig : Option Store) (name : String) : Option Entry :=
  storeConfig.bind fun store => store name

@[simp] theorem entryAt_write (store : Store) (written name : String) (data : List UInt8)
    (ttl : Option Int) :
    entryAt (some (store.write written data ttl)) name =
      if name = written then some ⟨data, ttl⟩ else store name := by
  by_cases same : name = written
  · subst same
    simp [entryAt, Store.write]
  · simp [entryAt, Store.write, Function.update_noteq same, same]

def Sent (bz : Bazel) {α : Type} (codec : Codec α) (reqs : List (Int × Request α))
    (storeConfig : Option Store) : Prop :=
  ∀ name entry, entryAt storeConfig name = some entry →
    ∃ req ∈ reqs, req.2.sends bz codec name entry.data

def SizesMatch (bz : Bazel) (storeConfig : Option Store) : Prop :=
  ∀ digest, digest.hash ≠ bz.emptySha → ∀ entry,
    entryAt storeConfig (bz.digestStoreName digest) = some entry →
      (entry.data.length : Int) = digest.sizeBytes

section Lemmas

variable (bz : Bazel) {α : Type} (codec : Codec α)

theorem updateActionResult_cases (storeConfig : Option Store) (now : Int) (digest : Digest)
    (result : Option α) :
    (∃ code, updateActionResult bz codec storeConfig now digest result =
        (.failed code, storeConfig)) ∨
      ∃ store ar, storeConfig = some store ∧ result = some ar ∧
        bz.isValidDigest digest.hash digest.sizeBytes = true ∧
        (digest.hash = bz.emptySha ∧ updateActionResult bz codec storeConfig now digest result =
            (.result codec.zero, storeConfig) ∨
          digest.hash ≠ bz.emptySha ∧ ∃ bytes, codec.marshal ar = some bytes ∧
            updateActionResult bz codec storeConfig now digest result =
              (.result ar, some (store.write (bz.digestStoreName digest) bytes (bz.ttlAt now)))) := by
  cases storeConfig with
  | none => exact .inl ⟨_, rfl⟩
  | some store =>
    by_cases valid : bz.isValidDigest digest.hash digest.sizeBytes = true
    swap
    · exact .inl ⟨.invalidArgument, by simp [updateActionResult, valid]⟩
    cases result with
    | none => exact .inl ⟨.invalidArgument, by simp [updateActionResult, valid]⟩
    | some ar =>
      by_cases empty : digest.hash = bz.emptySha
      · refine .inr ⟨store, ar, rfl, rfl, valid, .inl ⟨empty, ?_⟩⟩
        simp only [updateActionResult, valid, Bool.not_true, Bool.false_eq_true, if_false]
        simp [empty]
      cases marshalled : codec.marshal ar with
      | none => exact .inl ⟨.internal, by simp [updateActionResult, valid, empty, marshalled]⟩
      | some bytes =>
        exact .inr ⟨store, ar, rfl, rfl, valid, .inr ⟨empty, bytes, marshalled,
          by simp [updateActionResult, valid, empty, marshalled]⟩⟩

/-- Everything one request can do to the store: leave it, or store bytes it sent under a name
with the TTL of `now`, either as an `UpdateActionResult` of that name or as a `Write` of as
many bytes as a digest's size under the digest's name, which held nothing live at `now`. -/
theorem serve_store_cases {storeConfig : Option Store} {now : Int} {req : Request α}
    {reply : Reply α} {next : Option Store}
    (served : serve bz codec storeConfig now req = .returns (reply, next)) :
    next = storeConfig ∨ ∃ store name data, storeConfig = some store ∧
      next = some (store.write name data (bz.ttlAt now)) ∧ req.sends bz codec name data ∧
      (req.overwrites bz name = true ∨ req.updates = false ∧ store.get now name = none ∧
        ∃ digest, digest.hash ≠ bz.emptySha ∧ bz.digestStoreName digest = name ∧
          (data.length : Int) = digest.sizeBytes) := by
  cases req with
  | findMissingBlobs | batchUpdateBlobs | getTree | read | queryWriteStatus | getActionResult =>
    exact .inl (Prod.mk.inj (Outcome.returns.inj served)).2.symm
  | write upload =>
    obtain ⟨⟨reply', next'⟩, wrote, answered⟩ := Outcome.bind_eq_returns.mp served
    obtain rfl := (Prod.mk.inj (Outcome.returns.inj answered)).2
    cases storeConfig with
    | none => exact .inl (Prod.mk.inj (Outcome.returns.inj wrote)).2.symm
    | some store =>
      rcases write_store_cases bz wrote with
        kept | ⟨wr, rest, digest, data, rfl, parsed, gathered, nonEmpty, sized, fresh, rfl⟩
      · exact .inl kept
      · exact .inr ⟨store, _, data, rfl, rfl, ⟨digest, parsed, rfl, gathered⟩,
          .inr ⟨rfl, fresh, digest, nonEmpty, rfl, sized⟩⟩
  | updateActionResult digest result =>
    cases updated : updateActionResult bz codec storeConfig now digest result with
    | mk reply' next' =>
    simp only [serve, updated, Outcome.pure_eq] at served
    obtain rfl := (Prod.mk.inj (Outcome.returns.inj served)).2
    rcases updateActionResult_cases bz codec storeConfig now digest result with
      ⟨_, same⟩ | ⟨store, ar, rfl, rfl, -, ⟨-, same⟩ | ⟨-, bytes, marshalled, same⟩⟩ <;>
      rw [updated, Prod.mk.injEq] at same
    · exact .inl same.2
    · exact .inl same.2
    · exact .inr ⟨store, _, bytes, rfl, same.2, ⟨rfl, marshalled⟩,
        .inl (by simp [Request.overwrites])⟩

theorem serve_initialized {storeConfig : Option Store} {now : Int} {req : Request α}
    {reply : Reply α} {next : Option Store}
    (served : serve bz codec storeConfig now req = .returns (reply, next))
    (initialized : storeConfig.isSome) : next.isSome := by
  rcases serve_store_cases bz codec served with rfl | ⟨_, _, _, -, rfl, -⟩
  · exact initialized
  · rfl

theorem serve_keeps_entry {storeConfig : Option Store} {now : Int} {req : Request α}
    {reply : Reply α} {next : Option Store}
    (served : serve bz codec storeConfig now req = .returns (reply, next)) {name : String}
    {entry : Entry} (held : entryAt storeConfig name = some entry) (live : entry.live now = true)
    (untouched : req.overwrites bz name = false) : entryAt next name = some entry := by
  rcases serve_store_cases bz codec served with
    rfl | ⟨store, written, data, rfl, rfl, -, stored⟩
  · exact held
  by_cases same : name = written
  · subst same
    rcases stored with over | ⟨-, missing, -⟩
    · simp [untouched] at over
    · simp only [entryAt, Option.some_bind] at held
      simp [Store.get, held, live] at missing
  · simpa [same] using held

theorem serve_sent {all : List (Int × Request α)} {storeConfig : Option Store} {now : Int}
    {req : Request α} (mem : (now, req) ∈ all) (sent : Sent bz codec all storeConfig)
    {reply : Reply α} {next : Option Store}
    (served : serve bz codec storeConfig now req = .returns (reply, next)) :
    Sent bz codec all next := by
  rcases serve_store_cases bz codec served with rfl | ⟨store, written, data, rfl, rfl, sends, -⟩
  · exact sent
  intro name entry held
  by_cases same : name = written
  · subst same
    obtain rfl : (⟨data, bz.ttlAt now⟩ : Entry) = entry := by simpa using held
    exact ⟨_, mem, sends⟩
  · exact sent name entry (by simpa [same] using held)

theorem serve_sizesMatch
    (sizes : ∀ d e, bz.digestStoreName d = bz.digestStoreName e → d.sizeBytes = e.sizeBytes)
    {storeConfig : Option Store} {now : Int} {req : Request α} {reply : Reply α}
    {next : Option Store} (served : serve bz codec storeConfig now req = .returns (reply, next))
    (notUpdate : req.updates = false) (intact : SizesMatch bz storeConfig) :
    SizesMatch bz next := by
  rcases serve_store_cases bz codec served with
    rfl | ⟨store, _, data, rfl, rfl, -, over | ⟨-, -, written, -, rfl, sized⟩⟩
  · exact intact
  · cases req <;> simp [Request.overwrites, Request.updates] at over notUpdate
  intro digest nonEmpty entry held
  by_cases same : bz.digestStoreName digest = bz.digestStoreName written
  · obtain rfl : (⟨data, bz.ttlAt now⟩ : Entry) = entry := by simpa [same] using held
    rw [sized, sizes _ _ same]
  · exact intact digest nonEmpty entry (by simpa [same] using held)

theorem serveAll_cons {storeConfig : Option Store} {now : Int} {req : Request α}
    {reqs : List (Int × Request α)} {replies : List (Reply α)} {final : Option Store}
    (served : serveAll bz codec storeConfig ((now, req) :: reqs) = .returns (replies, final)) :
    ∃ reply next rest, serve bz codec storeConfig now req = .returns (reply, next) ∧
      serveAll bz codec next reqs = .returns (rest, final) := by
  obtain ⟨⟨reply, next⟩, first, later⟩ := Outcome.bind_eq_returns.mp served
  obtain ⟨⟨rest, final'⟩, others, answered⟩ := Outcome.bind_eq_returns.mp later
  obtain rfl := (Prod.mk.inj (Outcome.returns.inj answered)).2
  exact ⟨reply, next, rest, first, others⟩

/-- What every request a run may hold keeps, the run keeps. -/
theorem serveAll_preserves (P : Option Store → Prop) (allowed : Int × Request α → Prop)
    (step : ∀ {storeConfig now req reply next}, allowed (now, req) → P storeConfig →
      serve bz codec storeConfig now req = .returns (reply, next) → P next)
    {storeConfig : Option Store} {reqs : List (Int × Request α)} {replies : List (Reply α)}
    {final : Option Store} (served : serveAll bz codec storeConfig reqs = .returns (replies, final))
    (each : ∀ req ∈ reqs, allowed req) (start : P storeConfig) : P final := by
  induction reqs generalizing storeConfig replies with
  | nil => rwa [← (Prod.mk.inj (Outcome.returns.inj served)).2]
  | cons req reqs ih =>
    obtain ⟨now, req⟩ := req
    obtain ⟨_, _, _, first, later⟩ := serveAll_cons bz codec served
    exact ih later (fun other mem => each other (.tail _ mem))
      (step (each _ (.head _)) start first)

theorem serveAll_keeps_entry {storeConfig : Option Store} {reqs : List (Int × Request α)}
    {replies : List (Reply α)} {final : Option Store}
    (served : serveAll bz codec storeConfig reqs = .returns (replies, final)) {name : String}
    {entry : Entry} (held : entryAt storeConfig name = some entry)
    (untouched : ∀ req ∈ reqs, entry.live req.1 = true ∧ req.2.overwrites bz name = false) :
    entryAt final name = some entry :=
  serveAll_preserves bz codec (entryAt · name = some entry)
    (fun req => entry.live req.1 = true ∧ req.2.overwrites bz name = false)
    (fun allowed kept served => serve_keeps_entry bz codec served kept allowed.1 allowed.2)
    served untouched held

theorem serveAll_initialized {storeConfig : Option Store} {reqs : List (Int × Request α)}
    {replies : List (Reply α)} {final : Option Store}
    (served : serveAll bz codec storeConfig reqs = .returns (replies, final))
    (initialized : storeConfig.isSome) : final.isSome :=
  serveAll_preserves bz codec (·.isSome) (fun _ => True)
    (fun _ before served => serve_initialized bz codec served before) served (fun _ _ => trivial)
    initialized

theorem read_streamed {store : Store} {now : Int} {req : ReadRequest} {digest : Digest}
    (parsed : bz.parseReadResource req.resourceName = some ⟨digest⟩)
    (nonEmpty : digest.hash ≠ bz.emptySha) {data : List UInt8}
    (streams : (read bz (some store) now req).streamed = some data) :
    ∃ bytes, store.get now (bz.digestStoreName digest) = some bytes ∧
      data = bytes.drop req.readOffset.toNat := by
  have capacity := bz.defaultReadCapacity_pos
  cases held : store.get now (bz.digestStoreName digest) with
  | none =>
    simp only [read, parsed, held, nonEmpty, if_false] at streams
    split_ifs at streams <;> simp [ReadReply.streamed] at streams
  | some bytes =>
    refine ⟨bytes, rfl, ?_⟩
    simp only [read, parsed, held, nonEmpty, if_false] at streams
    split_ifs at streams <;> simp only [ReadReply.streamed, reduceCtorEq,
      Option.some.injEq] at streams <;> rw [← streams, join_chunksOf (by omega) _ _ le_rfl]

/-- In a run of requests served one after another, the ActionCache gives back what it was given
until the TTL that `UpdateActionResult` set ends, and not after. After an `UpdateActionResult`
at `now` that answered a result, and any run that returns whose requests are all made before
that TTL ends (at any time, without a TTL config) and hold no `UpdateActionResult` for a digest
of the same store name, `GetActionResult` of the digest at any time `later` answers the same
result if the digest is the empty one or the TTL has not ended at `later`, and else
`NotFound`. -/
theorem getActionResult_until_ttl_ends {store : Store} {now : Int} {digest : Digest}
    {result : Option α} {ar : α} {after : Option Store}
    (updated : updateActionResult bz codec (some store) now digest result = (.result ar, after))
    {reqs : List (Int × Request α)} {replies : List (Reply α)} {final : Option Store}
    (served : serveAll bz codec after reqs = .returns (replies, final))
    (untouched : ∀ req ∈ reqs, (bz.ttlAt now).all (req.1 < ·) = true ∧
      req.2.overwrites bz (bz.digestStoreName digest) = false)
    (later : Int) :
    getActionResult bz codec final later digest =
      if digest.hash = bz.emptySha ∨ (bz.ttlAt now).all (later < ·) = true then .result ar
      else .failed .notFound := by
  rcases updateActionResult_cases bz codec (some store) now digest result with
    ⟨_, same⟩ | ⟨_, _, ⟨⟩, -, valid, ⟨empty, same⟩ | ⟨nonEmpty, bytes, marshalled, same⟩⟩ <;>
    rw [updated, Prod.mk.injEq] at same
  · cases same.1
  · obtain ⟨⟨⟩, rfl⟩ := same
    obtain ⟨cached, rfl⟩ := Option.isSome_iff_exists.mp (serveAll_initialized bz codec served rfl)
    rw [empty] at valid
    simp [getActionResult, valid, empty]
  · obtain ⟨⟨⟩, rfl⟩ := same
    have kept := @serveAll_keeps_entry bz _ codec _ _ _ _ served (bz.digestStoreName digest)
      ⟨bytes, bz.ttlAt now⟩ (by simp) untouched
    obtain ⟨cached, rfl, holds⟩ := Option.bind_eq_some.mp kept
    have found : cached.get later (bz.digestStoreName digest) =
        if (bz.ttlAt now).all (later < ·) then some bytes else none := by
      simp [Store.get, holds, Entry.live]
    by_cases alive : (bz.ttlAt now).all (later < ·) = true
    · rw [if_pos (.inr alive)]
      exact getActionResult_stored bz codec valid nonEmpty (by rw [found, if_pos alive])
        (codec.unmarshal_marshal _ _ marshalled)
    · rw [if_neg (by simp [nonEmpty, alive])]
      simp [getActionResult, valid, nonEmpty, found, alive]

theorem getActionResult_until_ttl_ends_after_write :
    let bz : Bazel := ⟨"", 0, Digest.hash, fun _ _ => true, fun _ => some ⟨⟨"abc", 1⟩⟩,
      fun _ => some ⟨⟨"def", 1⟩⟩, 1, Nat.one_pos, true, 60, by decide⟩
    let codec : Codec UInt8 := ⟨0, fun ar => some [ar], fun | [ar] => some ar | _ => none,
      fun _ _ encoded => by cases encoded; rfl⟩
    let cached := Store.empty.write "abc" [7] (some 60)
    let final := cached.write "def" [5] (some 70)
    let reqs : List (Int × Request UInt8) := [(10, .write [⟨"w", 0, [5], true⟩]),
      (20, .read ⟨"r", 0, 0⟩)]
    updateActionResult bz codec (some Store.empty) 0 ⟨"abc", 1⟩ (some 7) = (.result 7, some cached) ∧
      serveAll bz codec (some cached) reqs =
        .returns ([.write (.committed 1), .read (.chunks [[7]])], some final) ∧
      getActionResult bz codec (some final) 59 ⟨"abc", 1⟩ = .result 7 ∧
      getActionResult bz codec (some final) 60 ⟨"abc", 1⟩ = .failed .notFound := by
  intro bz codec cached final reqs
  have updated : updateActionResult bz codec (some Store.empty) 0 ⟨"abc", 1⟩ (some 7) =
      (.result 7, some cached) := rfl
  have served : serveAll bz codec (some cached) reqs =
      .returns ([.write (.committed 1), .read (.chunks [[7]])], some final) := rfl
  have untouched : ∀ req ∈ reqs, (bz.ttlAt 0).all (req.1 < ·) = true ∧
      req.2.overwrites bz "abc" = false := by decide
  exact ⟨updated, served,
    (getActionResult_until_ttl_ends bz codec updated served untouched 59).trans (by decide),
    (getActionResult_until_ttl_ends bz codec updated served untouched 60).trans (by decide)⟩

/-- The server streams nothing it was not given. After any run of requests served one after
another from the empty store that returns, a `Read` at any time of a digest other than the
empty one streams, if anything, the bytes some request of the run sent under the digest's store
name, from the read's offset on: the upload of a `Write`, or the marshalled result of an
`UpdateActionResult`. -/
theorem read_streams_sent_bytes {reqs : List (Int × Request α)} {replies : List (Reply α)}
    {final : Option Store}
    (served : serveAll bz codec (some Store.empty) reqs = .returns (replies, final)) {now : Int}
    {req : ReadRequest} {digest : Digest}
    (parsed : bz.parseReadResource req.resourceName = some ⟨digest⟩)
    (nonEmpty : digest.hash ≠ bz.emptySha) {data : List UInt8}
    (streams : (read bz final now req).streamed = some data) :
    ∃ sent ∈ reqs, ∃ bytes, sent.2.sends bz codec (bz.digestStoreName digest) bytes ∧
      data = bytes.drop req.readOffset.toNat := by
  have sent := serveAll_preserves bz codec (Sent bz codec reqs) (· ∈ reqs)
    (fun mem sent served => serve_sent bz codec mem sent served) served (fun _ mem => mem)
    (fun _ _ held => by simp [entryAt, Store.empty] at held)
  cases final with
  | none => simp [read, ReadReply.streamed] at streams
  | some store =>
    obtain ⟨bytes, held, rfl⟩ := read_streamed bz parsed nonEmpty streams
    obtain ⟨entry, stored, -, rfl⟩ := Store.get_eq_some.mp held
    obtain ⟨request, mem, sends⟩ := sent (bz.digestStoreName digest) entry (by simp [entryAt, stored])
    exact ⟨request, mem, entry.data, sends, rfl⟩

theorem read_streams_sent_bytes_of_upload :
    let bz : Bazel := ⟨"", 0, Digest.hash, fun _ _ => true, fun _ => some ⟨⟨"abc", 2⟩⟩,
      fun _ => some ⟨⟨"abc", 2⟩⟩, 1, Nat.one_pos, false, 1, Nat.one_pos⟩
    let codec : Codec UInt8 := ⟨0, fun ar => some [ar], fun | [ar] => some ar | _ => none,
      fun _ _ encoded => by cases encoded; rfl⟩
    let final := Store.empty.write "abc" [5, 6] none
    let reqs : List (Int × Request UInt8) := [(0, .write [⟨"w", 0, [5], false⟩, ⟨"", 0, [6], true⟩])]
    serveAll bz codec (some Store.empty) reqs = .returns ([.write (.committed 2)], some final) ∧
      (read bz (some final) 5 ⟨"r", 1, 0⟩).streamed = some [6] ∧
      ∃ sent ∈ reqs, ∃ bytes, sent.2.sends bz codec "abc" bytes ∧ [6] = bytes.drop 1 := by
  intro bz codec final reqs
  have served : serveAll bz codec (some Store.empty) reqs =
      .returns ([.write (.committed 2)], some final) := rfl
  have streams : (read bz (some final) 5 ⟨"r", 1, 0⟩).streamed = some [6] := rfl
  exact ⟨served, streams, read_streams_sent_bytes bz codec served rfl (by decide) streams⟩

section Sizes

-- The store names of `bz` tell sizes apart, as `bazel.DigestStoreName` does by writing the size
-- into the name.
variable (sizes : ∀ d e, bz.digestStoreName d = bz.digestStoreName e → d.sizeBytes = e.sizeBytes)
include sizes

/-- Without `UpdateActionResult` the CAS never streams a blob of the wrong size: from a store
whose names hold their digests' sizes (the empty store, say), after any run of the other
requests served one after another that returns, a `Read` from the start of a digest other than
the empty one streams, if anything, exactly as many bytes as the digest's size. `Write` checks
the length of what it stores, and only it writes. -/
theorem read_streams_digest_size {storeConfig : Option Store} (intact : SizesMatch bz storeConfig)
    {reqs : List (Int × Request α)} {replies : List (Reply α)} {final : Option Store}
    (served : serveAll bz codec storeConfig reqs = .returns (replies, final))
    (noUpdates : ∀ req ∈ reqs, req.2.updates = false) {now : Int} {req : ReadRequest}
    {digest : Digest} (parsed : bz.parseReadResource req.resourceName = some ⟨digest⟩)
    (nonEmpty : digest.hash ≠ bz.emptySha) (start : req.readOffset = 0) {data : List UInt8}
    (streams : (read bz final now req).streamed = some data) :
    (data.length : Int) = digest.sizeBytes := by
  have matched := serveAll_preserves bz codec (SizesMatch bz) (·.2.updates = false)
    (fun notUpdate intact served => serve_sizesMatch bz codec sizes served notUpdate intact)
    served noUpdates intact
  cases final with
  | none => simp [read, ReadReply.streamed] at streams
  | some store =>
    obtain ⟨bytes, held, rfl⟩ := read_streamed bz parsed nonEmpty streams
    obtain ⟨entry, stored, -, rfl⟩ := Store.get_eq_some.mp held
    simpa [start] using matched digest nonEmpty entry (by simp [entryAt, stored])

end Sizes

theorem read_streams_digest_size_after_write :
    let bz : Bazel := ⟨"", 0,
      fun d => ⟨List.replicate d.sizeBytes.natAbs 'x' ++ [if d.sizeBytes < 0 then '-' else '+']⟩,
      fun _ _ => true, fun _ => some ⟨⟨"abc", 2⟩⟩, fun _ => some ⟨⟨"abc", 2⟩⟩, 1, Nat.one_pos,
      false, 1, Nat.one_pos⟩
    let codec : Codec UInt8 := ⟨0, fun ar => some [ar], fun | [ar] => some ar | _ => none,
      fun _ _ encoded => by cases encoded; rfl⟩
    let final := some (Store.empty.write (bz.digestStoreName ⟨"abc", 2⟩) [1, 2] none)
    (∀ d e, bz.digestStoreName d = bz.digestStoreName e → d.sizeBytes = e.sizeBytes) ∧
      serveAll bz codec (some Store.empty) [(0, .write [⟨"w", 0, [1, 2], true⟩])] =
        .returns ([.write (.committed 2)], final) ∧
      (read bz final 0 ⟨"r", 0, 0⟩).streamed = some [1, 2] ∧
      (([1, 2] : List UInt8).length : Int) = (⟨"abc", 2⟩ : Digest).sizeBytes := by
  intro bz codec final
  have sizes : ∀ d e, bz.digestStoreName d = bz.digestStoreName e → d.sizeBytes = e.sizeBytes := by
    intro d e named
    have lengths := congrArg (fun name => name.data.length) named
    have signs := congrArg (fun name => name.data.getLast?) named
    simp only [List.length_append, List.length_replicate, List.length_singleton,
      Nat.add_right_cancel_iff, List.getLast?_append, List.getLast?_singleton, Option.or_some,
      Option.some.injEq, Int.natAbs_eq_natAbs_iff] at lengths signs
    split_ifs at signs <;> first | omega | exact absurd signs (by decide)
  have served : serveAll bz codec (some Store.empty) [(0, .write [⟨"w", 0, [1, 2], true⟩])] =
      .returns ([.write (.committed 2)], final) := rfl
  have streams : (read bz final 0 ⟨"r", 0, 0⟩).streamed = some [1, 2] := rfl
  exact ⟨sizes, served, streams, read_streams_digest_size bz codec sizes
    (fun _ _ _ held => by simp [entryAt, Store.empty] at held) served (by simp [Request.updates])
    rfl (by decide) rfl streams⟩

end Lemmas

end Scoot.Cas
