import Mathlib.Logic.Function.Basic
import Scoot.Go

/-! The CAS server (`casServer`): the ByteStream `Read` and `Write` of blobs, the ActionCache
`GetActionResult` and `UpdateActionResult`, and `FindMissingBlobs`, all over one store of
named blobs. Neither the `bazel` helpers nor the resource-name parsers nor the store are among
the sources, so the server is modelled over any implementation of them. The store maps names to
bytes with the time their TTL ends; a handler runs at one time `now`, when an entry whose TTL
has ended is gone. A handler's `storeConfig` is `none` when the server is not initialized. -/
namespace Scoot.Cas
open Scoot.Go

structure Digest where
  hash : String
  sizeBytes : Int
  deriving DecidableEq, Repr

structure Resource where
  digest : Digest
  deriving DecidableEq, Repr

/-- What `casServer` takes from package `bazel`, the resource-name parsers, the read buffer's
default capacity, and the TTL its writes set: whether `storeConfig.TTLCfg` is set, and
`DefaultTTL`. -/
structure Bazel where
  emptySha : String
  emptySize : Int
  digestStoreName : Digest → String
  isValidDigest : String → Int → Bool
  parseReadResource : String → Option Resource
  parseWriteResource : String → Option Resource
  defaultReadCapacity : Nat
  defaultReadCapacity_pos : 0 < defaultReadCapacity
  ttlConfigured : Bool
  defaultTTL : Nat
  defaultTTL_pos : 0 < defaultTTL

/-- The TTL `Write` and `UpdateActionResult` hand `Store.Write` at `now`: `GetTTLValue` of the
config with its time set `DefaultTTL` after `now`, or nil without a config. -/
def Bazel.ttlAt (bz : Bazel) (now : Int) : Option Int :=
  if bz.ttlConfigured then some (now + bz.defaultTTL) else none

/-- `runtime.maxAlloc` on 64-bit Linux, 2^48: `make` panics for a larger capacity. -/
def maxAlloc : Int := 281474976710656

/-- `proto.Marshal` and `proto.Unmarshal` of an `ActionResult`, its zero value, and the law
that unmarshalling gives back what was marshalled. -/
structure Codec (α : Type) where
  zero : α
  marshal : α → Option (List UInt8)
  unmarshal : List UInt8 → Option α
  unmarshal_marshal : ∀ ar bytes, marshal ar = some bytes → unmarshal bytes = some ar

inductive Code where
  | internal
  | invalidArgument
  | outOfRange
  | notFound
  | unimplemented
  deriving DecidableEq, Repr

structure Entry where
  data : List UInt8
  expires : Option Int
  deriving DecidableEq, Repr

def Entry.live (entry : Entry) (now : Int) : Bool := entry.expires.all (now < ·)

def Store := String → Option Entry

def Store.empty : Store := fun _ => none

def Store.get (store : Store) (now : Int) (name : String) : Option (List UInt8) :=
  (store name).bind fun entry => if entry.live now then some entry.data else none

def Store.write (store : Store) (name : String) (data : List UInt8) (ttl : Option Int) : Store :=
  Function.update store name (some ⟨data, ttl⟩)

structure ReadRequest where
  resourceName : String
  readOffset : Int
  readLimit : Int
  deriving DecidableEq, Repr

structure WriteRequest where
  resourceName : String
  writeOffset : Int
  data : List UInt8
  finishWrite : Bool
  deriving DecidableEq, Repr

inductive ReadReply where
  | chunks (data : List (List UInt8))
  | failed (code : Code)
  deriving DecidableEq, Repr

inductive WriteReply where
  | committed (size : Int)
  | failed (code : Code)
  deriving DecidableEq, Repr

inductive ActionReply (α : Type) where
  | result (ar : α)
  | failed (code : Code)
  deriving DecidableEq, Repr

inductive MissingReply where
  | missing (digests : List Digest)
  | failed (code : Code)
  deriving DecidableEq, Repr

def ReadReply.streamed : ReadReply → Option (List UInt8)
  | chunks data => some data.flatten
  | failed _ => none

def chunksOf (c : Nat) : Nat → List UInt8 → List (List UInt8)
  | 0, _ => []
  | _, [] => []
  | fuel + 1, data => data.take c :: chunksOf c fuel (data.drop c)

theorem join_chunksOf {c : Nat} (positive : 0 < c) (fuel : Nat) (data : List UInt8)
    (enough : data.length ≤ fuel) : (chunksOf c fuel data).flatten = data := by
  induction fuel generalizing data with
  | zero => simp_all [chunksOf]
  | succ fuel ih =>
    cases data with
    | nil => rfl
    | cons byte rest =>
      simp only [chunksOf, List.flatten_cons]
      rw [ih _ (by simp at enough ⊢; omega), List.take_append_drop]

def uploaded : List WriteRequest → Option (List UInt8)
  | [] => none
  | wr :: rest => if wr.finishWrite then some wr.data else (uploaded rest).map (wr.data ++ ·)

section Server

variable (bz : Bazel) {α : Type} (codec : Codec α)

def findMissingBlobs (storeConfig : Option Store) (now : Int) (digests : List Digest) :
    MissingReply :=
  match storeConfig with
  | none => .failed .internal
  | some store => .missing (digests.filter fun digest =>
      digest.hash ≠ bz.emptySha ∧ store.get now (bz.digestStoreName digest) = none)

def read (storeConfig : Option Store) (now : Int) (req : ReadRequest) : ReadReply :=
  match storeConfig with
  | none => .failed .internal
  | some store =>
    match bz.parseReadResource req.resourceName with
    | none => .failed .invalidArgument
    | some resource =>
      if req.readOffset < 0 then .failed .outOfRange
      else if req.readLimit < 0 then .failed .invalidArgument
      else
        let opened := if resource.digest.hash = bz.emptySha then some []
          else store.get now (bz.digestStoreName resource.digest)
        match opened with
        | none => .failed .notFound
        | some data =>
          if (data.length : Int) < req.readOffset then .failed .internal
          else
            let c := if 0 < req.readLimit ∧ req.readLimit < bz.defaultReadCapacity then
              req.readLimit.toNat else bz.defaultReadCapacity
            let rest := data.drop req.readOffset.toNat
            .chunks (chunksOf c rest.length rest)

/-- The receive loop of `Write` once the first request named the resource. A stream that ends
before a request with `FinishWrite` is a failed `Recv`. -/
def receive (resourceName : String) (buffer : List UInt8) :
    List WriteRequest → Except Code (List UInt8)
  | [] => .error .internal
  | wr :: rest =>
    if wr.resourceName ≠ "" ∧ resourceName ≠ wr.resourceName then .error .invalidArgument
    else if 0 < wr.writeOffset then .error .unimplemented
    else if wr.finishWrite then .ok (buffer ++ wr.data)
    else receive resourceName (buffer ++ wr.data) rest

/-- `Write`. `make([]byte, 0, size)` panics for a size below 0 or above `maxAlloc`, before the
`Exists` check. -/
def write (storeConfig : Option Store) (now : Int) (upload : List WriteRequest) :
    Outcome (WriteReply × Option Store) :=
  match storeConfig, upload with
  | none, _ => pure (.failed .internal, storeConfig)
  | some _, [] => pure (.failed .internal, storeConfig)
  | some store, wr :: rest =>
      match bz.parseWriteResource wr.resourceName with
      | none => pure (.failed .invalidArgument, storeConfig)
      | some resource =>
        if resource.digest.hash = bz.emptySha then pure (.committed bz.emptySize, storeConfig)
        else if resource.digest.sizeBytes < 0 ∨ maxAlloc < resource.digest.sizeBytes then .panics
        else
          let storeName := bz.digestStoreName resource.digest
          if (store.get now storeName).isSome then
            pure (.committed resource.digest.sizeBytes, storeConfig)
          else
            match receive wr.resourceName [] (wr :: rest) with
            | .error code => pure (.failed code, storeConfig)
            | .ok buffer =>
              if (buffer.length : Int) ≠ resource.digest.sizeBytes then
                pure (.failed .internal, storeConfig)
              else pure (.committed buffer.length, some (store.write storeName buffer (bz.ttlAt now)))

def getActionResult (storeConfig : Option Store) (now : Int) (digest : Digest) : ActionReply α :=
  match storeConfig with
  | none => .failed .internal
  | some store =>
    if !bz.isValidDigest digest.hash digest.sizeBytes then .failed .invalidArgument
    else if digest.hash = bz.emptySha then .result codec.zero
    else
      match store.get now (bz.digestStoreName digest) with
      | none => .failed .notFound
      | some bytes =>
        match codec.unmarshal bytes with
        | none => .failed .internal
        | some ar => .result ar

def updateActionResult (storeConfig : Option Store) (now : Int) (digest : Digest)
    (result : Option α) : ActionReply α × Option Store :=
  match storeConfig with
  | none => (.failed .internal, storeConfig)
  | some store =>
    if !bz.isValidDigest digest.hash digest.sizeBytes then (.failed .invalidArgument, storeConfig)
    else
      match result with
      | none => (.failed .invalidArgument, storeConfig)
      | some ar =>
        if digest.hash = bz.emptySha then (.result codec.zero, storeConfig)
        else
          match codec.marshal ar with
          | none => (.failed .internal, storeConfig)
          | some bytes =>
            (.result ar, some (store.write (bz.digestStoreName digest) bytes (bz.ttlAt now)))

end Server

section Lemmas

variable (bz : Bazel) {α : Type} (codec : Codec α)

@[simp] theorem Store.get_write_self (store : Store) (name : String) (data : List UInt8)
    (ttl : Option Int) (now : Int) :
    (store.write name data ttl).get now name = if ttl.all (now < ·) then some data else none := by
  simp [Store.get, Store.write, Entry.live]

@[simp] theorem Store.get_write_ne (store : Store) {name other : String} (differ : other ≠ name)
    (data : List UInt8) (ttl : Option Int) (now : Int) :
    (store.write name data ttl).get now other = store.get now other := by
  simp [Store.get, Store.write, Function.update_noteq differ]

theorem Store.get_eq_some {store : Store} {now : Int} {name : String} {bytes : List UInt8} :
    store.get now name = some bytes ↔
      ∃ entry, store name = some entry ∧ entry.live now = true ∧ entry.data = bytes := by
  unfold Store.get
  cases store name with
  | none => simp
  | some entry => by_cases live : entry.live now <;> simp [live]

@[simp] theorem Bazel.ttlAt_live (now : Int) : (bz.ttlAt now).all (now < ·) = true := by
  have positive := bz.defaultTTL_pos
  unfold Bazel.ttlAt
  split <;> simp; omega

theorem read_stored {store : Store} {now : Int} {req : ReadRequest} {digest : Digest}
    {data : List UInt8} (parsed : bz.parseReadResource req.resourceName = some ⟨digest⟩)
    (start : req.readOffset = 0) (limit : 0 ≤ req.readLimit) (nonEmpty : digest.hash ≠ bz.emptySha)
    (stored : store.get now (bz.digestStoreName digest) = some data) :
    (read bz (some store) now req).streamed = some data := by
  have capacity := bz.defaultReadCapacity_pos
  simp only [read, parsed, start, nonEmpty, if_false, stored]
  rw [if_neg (Int.lt_irrefl 0), if_neg (Int.not_lt.mpr limit), if_neg (by omega)]
  simp only [Int.toNat_zero, List.drop_zero, ReadReply.streamed]
  rw [join_chunksOf _ _ _ le_rfl]
  split <;> omega

theorem read_missing {store : Store} {now : Int} {req : ReadRequest} {digest : Digest}
    (parsed : bz.parseReadResource req.resourceName = some ⟨digest⟩)
    (offset : 0 ≤ req.readOffset) (limit : 0 ≤ req.readLimit) (nonEmpty : digest.hash ≠ bz.emptySha)
    (missing : store.get now (bz.digestStoreName digest) = none) :
    read bz (some store) now req = .failed .notFound := by
  simp [read, parsed, Int.not_lt.mpr offset, Int.not_lt.mpr limit, nonEmpty, missing]

theorem receive_ok {name : String} {buffer bytes : List UInt8} {upload : List WriteRequest}
    (received : receive name buffer upload = .ok bytes) :
    ∃ data, uploaded upload = some data ∧ bytes = buffer ++ data := by
  induction upload generalizing buffer with
  | nil => simp [receive] at received
  | cons wr rest ih =>
    simp only [receive] at received
    split_ifs at received with mismatch offset finish
    · cases received
      exact ⟨wr.data, by simp [uploaded, finish], rfl⟩
    · obtain ⟨data, rest_data, rfl⟩ := ih received
      exact ⟨wr.data ++ data, by simp [uploaded, finish, rest_data], by simp⟩

/-- Everything a `Write` that commits can have done: answer the empty digest, find its store
name taken and store nothing, or store exactly the uploaded data, whose length is the size in
the digest, with the TTL of `now`. Nothing compares the data with the digest's hash. -/
theorem write_committed {store : Store} {now : Int} {wr : WriteRequest} {rest : List WriteRequest}
    {digest : Digest} (parsed : bz.parseWriteResource wr.resourceName = some ⟨digest⟩)
    {size : Int} {next : Option Store}
    (wrote : write bz (some store) now (wr :: rest) = .returns (.committed size, next)) :
    digest.hash = bz.emptySha ∧ size = bz.emptySize ∧ next = some store ∨
      digest.hash ≠ bz.emptySha ∧ (store.get now (bz.digestStoreName digest)).isSome ∧
        size = digest.sizeBytes ∧ next = some store ∨
      digest.hash ≠ bz.emptySha ∧ store.get now (bz.digestStoreName digest) = none ∧
        ∃ data, uploaded (wr :: rest) = some data ∧ size = data.length ∧
          (data.length : Int) = digest.sizeBytes ∧
          next = some (store.write (bz.digestStoreName digest) data (bz.ttlAt now)) := by
  simp only [write, parsed] at wrote
  split_ifs at wrote with empty unallocatable taken
  · obtain ⟨⟨⟩, rfl⟩ := Prod.mk.inj (Outcome.returns.inj wrote)
    exact .inl ⟨empty, rfl, rfl⟩
  · obtain ⟨⟨⟩, rfl⟩ := Prod.mk.inj (Outcome.returns.inj wrote)
    exact .inr (.inl ⟨empty, taken, rfl, rfl⟩)
  · split at wrote
    · cases (Prod.mk.inj (Outcome.returns.inj wrote)).1
    · rename_i buffer received
      obtain ⟨_, gathered, rfl⟩ := receive_ok received
      split_ifs at wrote with wrong
      · cases (Prod.mk.inj (Outcome.returns.inj wrote)).1
      · obtain ⟨⟨⟩, rfl⟩ := Prod.mk.inj (Outcome.returns.inj wrote)
        exact .inr (.inr ⟨empty, Option.not_isSome_iff_eq_none.mp taken, buffer, gathered, rfl,
          not_not.mp wrong, rfl⟩)

/-- Whenever `Write` commits a digest whose hash is not the empty one, either the store
already held its store name and nothing was written, or the bytes now stored there are exactly
the uploaded ones, as many as the digest's size. The hash is not checked. -/
theorem write_stores_upload_of_size {store : Store} {now : Int} {wr : WriteRequest}
    {rest : List WriteRequest} {digest : Digest}
    (parsed : bz.parseWriteResource wr.resourceName = some ⟨digest⟩)
    (nonEmpty : digest.hash ≠ bz.emptySha) {size : Int} {next : Option Store}
    (wrote : write bz (some store) now (wr :: rest) = .returns (.committed size, next)) :
    (store.get now (bz.digestStoreName digest)).isSome ∧ next = some store ∨
      ∃ data, uploaded (wr :: rest) = some data ∧ (data.length : Int) = digest.sizeBytes ∧
        next = some (store.write (bz.digestStoreName digest) data (bz.ttlAt now)) := by
  rcases write_committed bz parsed wrote with
    ⟨empty, -⟩ | ⟨-, taken, -, kept⟩ | ⟨-, -, data, gathered, -, sized, stored⟩
  · exact absurd empty nonEmpty
  · exact .inl ⟨taken, kept⟩
  · exact .inr ⟨data, gathered, sized, stored⟩

theorem write_single {store : Store} {now : Int} {name : String} {digest : Digest}
    {data : List UInt8} (parsed : bz.parseWriteResource name = some ⟨digest⟩)
    (nonEmpty : digest.hash ≠ bz.emptySha) (small : digest.sizeBytes ≤ maxAlloc)
    (fresh : store.get now (bz.digestStoreName digest) = none)
    (sized : (data.length : Int) = digest.sizeBytes) :
    write bz (some store) now [⟨name, 0, data, true⟩] =
      .returns (.committed digest.sizeBytes,
        some (store.write (bz.digestStoreName digest) data (bz.ttlAt now))) := by
  have allocatable : ¬(digest.sizeBytes < 0 ∨ maxAlloc < digest.sizeBytes) := by omega
  simp [write, parsed, nonEmpty, allocatable, fresh, receive, sized]

/-- The same byte is stored under two digests whose hashes differ, so under at least one
digest that is not its SHA-256: the sixty-four zeros, or the SHA-256 of a zero byte. -/
theorem write_one_blob_under_two_hashes :
    let zeros := "0000000000000000000000000000000000000000000000000000000000000000"
    let sha := "6e340b9cffb37a989ca544e6bb780a2c78901d3fb33738768511a30617afa01d"
    let bz : Bazel := ⟨"", 0, Digest.hash, fun _ _ => true, fun _ => none,
      fun name => some ⟨⟨name, 1⟩⟩, 1, Nat.one_pos, false, 1, Nat.one_pos⟩
    zeros ≠ sha ∧
      write bz (some Store.empty) 0 [⟨zeros, 0, [0], true⟩] =
        .returns (.committed 1, some (Store.empty.write zeros [0] none)) ∧
      write bz (some Store.empty) 0 [⟨sha, 0, [0], true⟩] =
        .returns (.committed 1, some (Store.empty.write sha [0] none)) := by
  intro zeros sha bz
  exact ⟨by decide, write_single bz rfl (by decide) (by decide) rfl rfl,
    write_single bz rfl (by decide) (by decide) rfl rfl⟩

theorem write_stores_upload_of_size_once :
    let bz : Bazel := ⟨"", 0, Digest.hash, fun _ _ => true, fun _ => none,
      fun _ => some ⟨⟨"abc", 1⟩⟩, 1, Nat.one_pos, false, 1, Nat.one_pos⟩
    write bz (some Store.empty) 0 [⟨"blob", 0, [5], true⟩] =
        .returns (.committed 1, some (Store.empty.write "abc" [5] none)) ∧
      (((Store.empty.get 0 "abc").isSome ∧ some (Store.empty.write "abc" [5] none) = some Store.empty) ∨
        ∃ data, uploaded [⟨"blob", 0, [5], true⟩] = some data ∧ (data.length : Int) = 1 ∧
          some (Store.empty.write "abc" [5] none) = some (Store.empty.write "abc" data (bz.ttlAt 0))) := by
  intro bz
  have wrote := @write_single bz Store.empty 0 "blob" ⟨"abc", 1⟩ [5] rfl (by decide) (by decide) rfl rfl
  exact ⟨wrote, write_stores_upload_of_size bz rfl (by decide) wrote⟩

theorem updateActionResult_stores {store : Store} (now : Int) {digest : Digest}
    (valid : bz.isValidDigest digest.hash digest.sizeBytes = true) (nonEmpty : digest.hash ≠ bz.emptySha)
    {ar : α} {bytes : List UInt8} (marshalled : codec.marshal ar = some bytes) :
    updateActionResult bz codec (some store) now digest (some ar) =
      (.result ar, some (store.write (bz.digestStoreName digest) bytes (bz.ttlAt now))) := by
  simp [updateActionResult, valid, nonEmpty, marshalled]

theorem write_taken {store : Store} {now : Int} {wr : WriteRequest} (rest : List WriteRequest)
    {digest : Digest} (parsed : bz.parseWriteResource wr.resourceName = some ⟨digest⟩)
    (nonEmpty : digest.hash ≠ bz.emptySha) (sized : 0 ≤ digest.sizeBytes)
    (small : digest.sizeBytes ≤ maxAlloc)
    (taken : (store.get now (bz.digestStoreName digest)).isSome) :
    write bz (some store) now (wr :: rest) = .returns (.committed digest.sizeBytes, some store) := by
  have allocatable : ¬(digest.sizeBytes < 0 ∨ maxAlloc < digest.sizeBytes) := by omega
  simp [write, parsed, nonEmpty, allocatable, taken]

theorem getActionResult_stored {store : Store} {now : Int} {digest : Digest}
    (valid : bz.isValidDigest digest.hash digest.sizeBytes = true) (nonEmpty : digest.hash ≠ bz.emptySha)
    {bytes : List UInt8} (stored : store.get now (bz.digestStoreName digest) = some bytes) {ar : α}
    (decoded : codec.unmarshal bytes = some ar) :
    getActionResult bz codec (some store) now digest = .result ar := by
  simp [getActionResult, valid, nonEmpty, stored, decoded]

/-- The ActionCache keeps its results under the store names of the CAS. From a store that
holds nothing under a digest's name at `now`: `UpdateActionResult` turns a CAS `Read` of the
digest from `NotFound` into the stream of the marshalled result, after which every CAS `Write`
of the digest stores nothing; and a CAS `Write` of a marshalled result makes `GetActionResult`
answer that result, which no `UpdateActionResult` passed. -/
theorem actionCache_shares_cas_names {store : Store} {now : Int} {digest : Digest}
    (valid : bz.isValidDigest digest.hash digest.sizeBytes = true)
    (nonEmpty : digest.hash ≠ bz.emptySha) (sized : 0 ≤ digest.sizeBytes)
    (small : digest.sizeBytes ≤ maxAlloc)
    (fresh : store.get now (bz.digestStoreName digest) = none) {readReq : ReadRequest}
    (readParsed : bz.parseReadResource readReq.resourceName = some ⟨digest⟩)
    (start : readReq.readOffset = 0) (limit : 0 ≤ readReq.readLimit) {wr : WriteRequest}
    (writeParsed : bz.parseWriteResource wr.resourceName = some ⟨digest⟩)
    {ar : α} {bytes : List UInt8} (marshalled : codec.marshal ar = some bytes) :
    let cached := store.write (bz.digestStoreName digest) bytes (bz.ttlAt now)
    read bz (some store) now readReq = .failed .notFound ∧
      updateActionResult bz codec (some store) now digest (some ar) = (.result ar, some cached) ∧
      (read bz (some cached) now readReq).streamed = some bytes ∧
      (∀ rest, write bz (some cached) now (wr :: rest) =
        .returns (.committed digest.sizeBytes, some cached)) ∧
      ∀ other otherBytes, codec.marshal other = some otherBytes →
        (otherBytes.length : Int) = digest.sizeBytes →
        let written := store.write (bz.digestStoreName digest) otherBytes (bz.ttlAt now)
        write bz (some store) now [⟨wr.resourceName, 0, otherBytes, true⟩] =
          .returns (.committed digest.sizeBytes, some written) ∧
        getActionResult bz codec (some written) now digest = .result other := by
  intro cached
  have holds : cached.get now (bz.digestStoreName digest) = some bytes := by simp [cached]
  refine ⟨read_missing bz readParsed (by omega) limit nonEmpty fresh,
    updateActionResult_stores bz codec now valid nonEmpty marshalled,
    read_stored bz readParsed start limit nonEmpty holds,
    fun rest => write_taken bz rest writeParsed nonEmpty sized small (by simp [holds]),
    fun other otherBytes encoded length =>
      ⟨write_single bz writeParsed nonEmpty small fresh length, ?_⟩⟩
  exact getActionResult_stored bz codec valid nonEmpty (by simp)
    (codec.unmarshal_marshal other otherBytes encoded)

theorem actionCache_shares_cas_names_of_one_byte :
    let bz : Bazel := ⟨"", 0, Digest.hash, fun _ _ => true, fun _ => some ⟨⟨"abc", 1⟩⟩,
      fun _ => some ⟨⟨"abc", 1⟩⟩, 1, Nat.one_pos, true, 60, by decide⟩
    let codec : Codec UInt8 := ⟨0, fun ar => some [ar], fun | [ar] => some ar | _ => none,
      fun _ _ encoded => by cases encoded; rfl⟩
    let cached := Store.empty.write "abc" [7] (some 60)
    read bz (some Store.empty) 0 ⟨"r", 0, 0⟩ = .failed .notFound ∧
      updateActionResult bz codec (some Store.empty) 0 ⟨"abc", 1⟩ (some 7) = (.result 7, some cached) ∧
      (read bz (some cached) 0 ⟨"r", 0, 0⟩).streamed = some [7] ∧
      (∀ rest, write bz (some cached) 0 (⟨"w", 0, [], true⟩ :: rest) =
        .returns (.committed 1, some cached)) ∧
      ∀ other otherBytes, codec.marshal other = some otherBytes → (otherBytes.length : Int) = 1 →
        let written := Store.empty.write "abc" otherBytes (some 60)
        write bz (some Store.empty) 0 [⟨"w", 0, otherBytes, true⟩] =
          .returns (.committed 1, some written) ∧
        getActionResult bz codec (some written) 0 ⟨"abc", 1⟩ = .result other := by
  intro bz codec cached
  exact @actionCache_shares_cas_names bz _ codec Store.empty 0 _ rfl (by decide) (by decide)
    (by decide) rfl _ rfl rfl (by decide) _ rfl _ _ rfl

/-- A `Read` from the start made when a `Write` stored its upload streams exactly the uploaded
bytes, as many as the digest's size. -/
theorem read_after_write {store : Store} {now : Int} {wr : WriteRequest} {rest : List WriteRequest}
    {digest : Digest} (writeParsed : bz.parseWriteResource wr.resourceName = some ⟨digest⟩)
    (nonEmpty : digest.hash ≠ bz.emptySha) (fresh : store.get now (bz.digestStoreName digest) = none)
    {size : Int} {next : Option Store}
    (wrote : write bz (some store) now (wr :: rest) = .returns (.committed size, next))
    {readReq : ReadRequest} (readParsed : bz.parseReadResource readReq.resourceName = some ⟨digest⟩)
    (start : readReq.readOffset = 0) (limit : 0 ≤ readReq.readLimit) :
    ∃ data, uploaded (wr :: rest) = some data ∧ (data.length : Int) = digest.sizeBytes ∧
      (read bz next now readReq).streamed = some data := by
  rcases write_committed bz writeParsed wrote with
    ⟨empty, -⟩ | ⟨-, taken, -⟩ | ⟨-, -, data, gathered, -, sized, rfl⟩
  · exact absurd empty nonEmpty
  · simp [fresh] at taken
  · exact ⟨data, gathered, sized, read_stored bz readParsed start limit nonEmpty (by simp)⟩

theorem read_after_write_of_one_byte :
    let bz : Bazel := ⟨"", 0, Digest.hash, fun _ _ => true, fun _ => some ⟨⟨"abc", 1⟩⟩,
      fun _ => some ⟨⟨"abc", 1⟩⟩, 1, Nat.one_pos, true, 60, by decide⟩
    ∃ data, uploaded [⟨"w", 0, [5], true⟩] = some data ∧ (data.length : Int) = 1 ∧
      (read bz (some (Store.empty.write "abc" [5] (some 60))) 0 ⟨"r", 0, 0⟩).streamed = some data := by
  intro bz
  exact @read_after_write bz Store.empty 0 _ _ _ rfl (by decide) rfl _ _
    (@write_single bz Store.empty 0 "w" ⟨"abc", 1⟩ [5] rfl (by decide) (by decide) rfl rfl) _ rfl rfl
    (by decide)

/-- Everything `Write` can do to the store: leave it as it was, or store the upload with the
TTL of `now` under the store name of the digest its first request names, when that digest's
hash is not the empty one, its name held nothing at `now` and the upload is as long as its
size. -/
theorem write_store_cases {store : Store} {now : Int} {upload : List WriteRequest}
    {reply : WriteReply} {next : Option Store}
    (wrote : write bz (some store) now upload = .returns (reply, next)) :
    next = some store ∨ ∃ wr rest digest data, upload = wr :: rest ∧
      bz.parseWriteResource wr.resourceName = some ⟨digest⟩ ∧ uploaded upload = some data ∧
      digest.hash ≠ bz.emptySha ∧ (data.length : Int) = digest.sizeBytes ∧
      store.get now (bz.digestStoreName digest) = none ∧
      next = some (store.write (bz.digestStoreName digest) data (bz.ttlAt now)) := by
  have kept : ∀ {answer : WriteReply},
      (pure (answer, some store) : Outcome _) = .returns (reply, next) → next = some store :=
    fun same => (Prod.mk.inj (Outcome.returns.inj same)).2.symm
  cases upload with
  | nil => exact .inl (kept wrote)
  | cons wr rest =>
    simp only [write] at wrote
    split at wrote
    · exact .inl (kept wrote)
    rename_i resource parsed
    split_ifs at wrote with empty unallocatable taken
    · exact .inl (kept wrote)
    · exact .inl (kept wrote)
    split at wrote
    · exact .inl (kept wrote)
    rename_i buffer received
    obtain ⟨_, gathered, rfl⟩ := receive_ok received
    split_ifs at wrote with wrong
    · exact .inl (kept wrote)
    · exact .inr ⟨wr, rest, _, _, rfl, parsed, gathered, empty, not_not.mp wrong,
        Option.not_isSome_iff_eq_none.mp taken, (Prod.mk.inj (Outcome.returns.inj wrote)).2.symm⟩

end Lemmas

end Scoot.Cas
