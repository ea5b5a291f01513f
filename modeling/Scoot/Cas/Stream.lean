import Scoot.Cas.Server

/-! `Read` and `Write` of the CAS against any reader and any store. The store's reader may
return fewer bytes than the buffer holds, and the store's `Exists` and `Write` may fail; `read`
and `write` are these handlers at one such behaviour each. -/
namespace Scoot.Cas
open Scoot.Go

/-! ### `Read` -/

/-- How a store's reader answers `Read`: at byte `pos` of its blob, into a buffer of capacity
`c`, it returns `size pos c` bytes, raised to one and cut to the buffer and to what is left,
and it reports `EOF` with the last bytes when `eofWithLast pos`. Every reader that hands out
its blob in reads of positive sizes answers as one of these. -/
structure ReadPattern where
  size : Nat → Nat → Nat
  eofWithLast : Nat → Bool

namespace ReadPattern

def read (r : ReadPattern) (pos c : Nat) (rest : List UInt8) : List UInt8 × Bool :=
  if rest = [] then ([], true)
  else
    let got := rest.take (min (max 1 (r.size pos c)) c)
    (got, got.length = rest.length && r.eofWithLast pos)

def fills : ReadPattern := ⟨fun _ c => c, fun _ => false⟩

end ReadPattern

/-- `io.CopyN(ioutil.Discard, r, n)` on a reader with `rest` left. It reads through a
`LimitedReader`, so it never reads past the `n`-th byte, and it fails with `EOF` when fewer
than `n` bytes are left. -/
def copyN (n : Nat) (rest : List UInt8) : Option (List UInt8) :=
  if n ≤ rest.length then some (rest.drop n) else none

/-- The loop of `Read` from byte `pos`: read into the buffer, send what came if anything did,
stop at `EOF`. Every read before `EOF` takes a byte, so `rest.length + 1` rounds are enough. -/
def sendChunks (r : ReadPattern) (c : Nat) : Nat → Nat → List UInt8 → List (List UInt8)
  | 0, _, _ => []
  | fuel + 1, pos, rest =>
    let read := r.read pos c rest
    let sent := if read.1 = [] then [] else [read.1]
    if read.2 then sent
    else sent ++ sendChunks r c fuel (pos + read.1.length) (rest.drop read.1.length)

theorem drop_length_take (rest : List UInt8) (n : Nat) :
    rest.drop (rest.take n).length = rest.drop n := by
  rw [List.length_take]
  rcases le_total n rest.length with short | long
  · rw [min_eq_left short]
  · rw [min_eq_right long, List.drop_eq_nil_of_le long, List.drop_length]

namespace ReadPattern

@[simp] theorem read_nil (r : ReadPattern) (pos c : Nat) : r.read pos c [] = ([], true) := rfl

theorem read_front (r : ReadPattern) {c : Nat} (positive : 0 < c) (pos : Nat) {rest : List UInt8}
    (nonEmpty : rest ≠ []) :
    (r.read pos c rest).1 ≠ [] ∧ (r.read pos c rest).1.length ≤ c ∧
      (r.read pos c rest).1 ++ rest.drop (r.read pos c rest).1.length = rest ∧
      ((r.read pos c rest).2 = true → (r.read pos c rest).1 = rest) := by
  have some : 0 < min (max 1 (r.size pos c)) c := by omega
  simp only [read, if_neg nonEmpty, Bool.and_eq_true, decide_eq_true_eq]
  refine ⟨fun taken => nonEmpty ?_, by simp only [List.length_take]; omega,
    by rw [drop_length_take, List.take_append_drop], fun ⟨full, _⟩ => ?_⟩
  · simpa [List.take_eq_nil_iff, Nat.pos_iff_ne_zero.mp some] using taken
  · rw [List.length_take] at full
    exact List.take_of_length_le (by omega)

end ReadPattern

/-- With a round for every byte and one more, the loop of `Read` sends every byte left, in
order, in non-empty pieces that fit the buffer, whatever sizes the reader's reads have. -/
theorem sendChunks_delivers (r : ReadPattern) {c : Nat} (positive : 0 < c) {fuel : Nat} (pos : Nat)
    {rest : List UInt8} (enough : rest.length < fuel) :
    (∀ chunk ∈ sendChunks r c fuel pos rest, chunk ≠ [] ∧ chunk.length ≤ c) ∧
      (sendChunks r c fuel pos rest).flatten = rest := by
  induction fuel generalizing pos rest with
  | zero => exact absurd enough (Nat.not_lt_zero _)
  | succ fuel ih =>
    by_cases empty : rest = []
    · subst empty
      simp [sendChunks]
    · obtain ⟨taken, fits, split, last⟩ := r.read_front positive pos empty
      have shorter : (rest.drop (r.read pos c rest).1.length).length < fuel := by
        have := List.length_pos.mpr taken
        have := List.length_pos.mpr empty
        rw [List.length_drop]
        omega
      obtain ⟨each, joined⟩ := ih (pos + (r.read pos c rest).1.length) shorter
      simp only [sendChunks, if_neg taken]
      split
      · rename_i eof
        exact ⟨fun chunk sent => List.mem_singleton.mp sent ▸ ⟨taken, fits⟩, by simpa using last eof⟩
      · refine ⟨?_, by rw [List.flatten_append, joined]; simpa using split⟩
        simp only [List.mem_append, List.mem_singleton]
        rintro chunk (rfl | later)
        · exact ⟨taken, fits⟩
        · exact each chunk later

theorem sendChunks_fills {c : Nat} (positive : 0 < c) {fuel : Nat} (pos : Nat) {rest : List UInt8}
    (enough : rest.length ≤ fuel) :
    sendChunks ReadPattern.fills c (fuel + 1) pos rest = chunksOf c fuel rest := by
  induction fuel generalizing pos rest with
  | zero => rw [List.length_eq_zero.mp (Nat.le_zero.mp enough)]; rfl
  | succ fuel ih =>
    cases rest with
    | nil => rfl
    | cons byte bytes =>
      have filled : ReadPattern.fills.read pos c (byte :: bytes) = ((byte :: bytes).take c, false) := by
        simp [ReadPattern.read, ReadPattern.fills, Nat.max_eq_right positive]
      have taken : (byte :: bytes).take c ≠ [] := by simp [Nat.pos_iff_ne_zero.mp positive]
      rw [sendChunks]
      simp only [filled, if_neg taken, Bool.false_eq_true, if_false, drop_length_take]
      rw [ih _ (by simp at enough ⊢; omega)]
      rfl

section Server

variable (bz : Bazel)

def readCapacity (limit : Int) : Nat :=
  if 0 < limit ∧ limit < bz.defaultReadCapacity then limit.toNat else bz.defaultReadCapacity

def opened (store : Store) (now : Int) (digest : Digest) : Option (List UInt8) :=
  if digest.hash = bz.emptySha then some [] else store.get now (bz.digestStoreName digest)

/-- `Read` with the store's reader answering as `r` does. A failed `OpenForRead` is a name the
store does not hold. -/
def readWith (r : ReadPattern) (storeConfig : Option Store) (now : Int) (req : ReadRequest) :
    ReadReply :=
  match storeConfig with
  | none => .failed .internal
  | some store =>
    match bz.parseReadResource req.resourceName with
    | none => .failed .invalidArgument
    | some resource =>
      if req.readOffset < 0 then .failed .outOfRange
      else if req.readLimit < 0 then .failed .invalidArgument
      else
        match opened bz store now resource.digest with
        | none => .failed .notFound
        | some data =>
          match copyN req.readOffset.toNat data with
          | none => .failed .internal
          | some rest => .chunks (sendChunks r (readCapacity bz req.readLimit) (rest.length + 1)
              req.readOffset.toNat rest)

theorem readCapacity_pos (limit : Int) : 0 < readCapacity bz limit := by
  have := bz.defaultReadCapacity_pos
  unfold readCapacity
  split <;> omega

theorem readCapacity_le_default (limit : Int) : readCapacity bz limit ≤ bz.defaultReadCapacity := by
  unfold readCapacity
  split <;> omega

theorem readCapacity_le_limit {limit : Int} (positive : 0 < limit) :
    (readCapacity bz limit : Int) ≤ limit := by
  unfold readCapacity
  split <;> omega

/-- For every blob `Read` opens, every offset and limit that are not negative and every way the
reader splits the blob into reads: from an offset within the blob, `Read` sends the rest of the
blob from the offset, in non-empty pieces of at most the default capacity and, when the limit is
positive, at most the limit; `ReadLimit` caps the pieces, not their total. From an offset past
the blob's end, `Read` sends nothing and fails with `INTERNAL`. -/
theorem read_streams_rest_of_blob (r : ReadPattern) {store : Store} {now : Int}
    {req : ReadRequest} {digest : Digest}
    (parsed : bz.parseReadResource req.resourceName = some ⟨digest⟩)
    (offset : 0 ≤ req.readOffset) (limit : 0 ≤ req.readLimit) {blob : List UInt8}
    (opens : opened bz store now digest = some blob) :
    (req.readOffset ≤ blob.length → ∃ chunks, readWith bz r (some store) now req = .chunks chunks ∧
      (∀ chunk ∈ chunks, chunk ≠ [] ∧ chunk.length ≤ bz.defaultReadCapacity ∧
        (0 < req.readLimit → (chunk.length : Int) ≤ req.readLimit)) ∧
      chunks.flatten = blob.drop req.readOffset.toNat) ∧
    (blob.length < req.readOffset → readWith bz r (some store) now req = .failed .internal) := by
  have checked : ¬req.readOffset < 0 ∧ ¬req.readLimit < 0 := ⟨by omega, by omega⟩
  refine ⟨fun inside => ?_, fun outside => ?_⟩
  · have copied : copyN req.readOffset.toNat blob = some (blob.drop req.readOffset.toNat) :=
      if_pos (by omega)
    obtain ⟨each, joined⟩ := sendChunks_delivers r (readCapacity_pos bz req.readLimit)
      req.readOffset.toNat (Nat.lt_succ_self (blob.drop req.readOffset.toNat).length)
    refine ⟨_, by simp only [readWith, parsed, checked, if_false, opens, copied], fun chunk sent => ?_,
      joined⟩
    obtain ⟨nonEmpty, fits⟩ := each chunk sent
    exact ⟨nonEmpty, fits.trans (readCapacity_le_default bz _),
      fun positive => Int.le_trans (Int.ofNat_le.mpr fits) (readCapacity_le_limit bz positive)⟩
  · have failed : copyN req.readOffset.toNat blob = none := if_neg (by omega)
    simp only [readWith, parsed, checked, if_false, opens, failed]

theorem read_streams_rest_of_blob_past_limit_and_end :
    let bz : Bazel := ⟨"", 0, Digest.hash, fun _ _ => true, fun _ => some ⟨⟨"abc", 3⟩⟩,
      fun _ => none, 2, Nat.two_pos, false, 1, Nat.one_pos⟩
    let r : ReadPattern := ⟨fun _ _ => 1, fun _ => true⟩
    let store := Store.empty.write "abc" [1, 2, 3] none
    readWith bz r (some store) 0 ⟨"r", 4, 0⟩ = .failed .internal ∧
      ∃ chunks, readWith bz r (some store) 0 ⟨"r", 0, 1⟩ = .chunks chunks ∧
        chunks.flatten = [1, 2, 3] := by
  intro bz r store
  have pastEnd := (@read_streams_rest_of_blob bz r store 0 ⟨"r", 4, 0⟩ ⟨"abc", 3⟩ rfl (by decide)
    (by decide) [1, 2, 3] rfl).2 (by decide)
  obtain ⟨chunks, sent, -, joined⟩ := (@read_streams_rest_of_blob bz r store 0 ⟨"r", 0, 1⟩
    ⟨"abc", 3⟩ rfl (by decide) (by decide) [1, 2, 3] rfl).1 (by decide)
  exact ⟨pastEnd, chunks, sent, joined⟩

/-- `read` is `Read` with the reader that fills every buffer. -/
theorem read_eq_readWith_fills (storeConfig : Option Store) (now : Int) (req : ReadRequest) :
    read bz storeConfig now req = readWith bz ReadPattern.fills storeConfig now req := by
  cases storeConfig with
  | none => rfl
  | some store =>
    simp only [read, readWith, opened]
    cases bz.parseReadResource req.resourceName with
    | none => rfl
    | some resource =>
      by_cases negative : req.readOffset < 0
      · simp only [if_pos negative]
      by_cases badLimit : req.readLimit < 0
      · simp only [if_neg negative, if_pos badLimit]
      simp only [if_neg negative, if_neg badLimit]
      generalize (if resource.digest.hash = bz.emptySha then some []
        else store.get now (bz.digestStoreName resource.digest)) = opened
      cases opened with
      | none => rfl
      | some data =>
        simp only [copyN]
        by_cases outside : (data.length : Int) < req.readOffset
        · rw [if_pos outside, if_neg (show ¬req.readOffset.toNat ≤ data.length by omega)]
        · rw [if_neg outside, if_pos (show req.readOffset.toNat ≤ data.length by omega)]
          exact congrArg ReadReply.chunks (@sendChunks_fills _ (readCapacity_pos bz req.readLimit) _
            req.readOffset.toNat (data.drop req.readOffset.toNat) le_rfl).symm

end Server

/-! ### `Write` -/

/-- How the store answers `Write`'s calls: `Exists` fails (`none`) or tells whether the name is
stored, and `Write` of the bytes under a name succeeds or fails. -/
structure StoreBackend where
  present : String → Option Bool
  accepts : String → List UInt8 → Bool

def StoreBackend.ofStore (store : Store) (now : Int) : StoreBackend :=
  ⟨fun name => some (store.get now name).isSome, fun _ _ => true⟩

/-- A complete upload of one resource as the ByteStream API has it: each request carries the
offset of its data in the upload and names `name` or leaves the name empty, and only the last
has `FinishWrite`. -/
def Chunked (name : String) (offset : Nat) : List WriteRequest → Prop
  | [] => False
  | wr :: rest => (wr.resourceName = name ∨ wr.resourceName = "") ∧ wr.writeOffset = offset ∧
      wr.finishWrite = rest.isEmpty ∧ (rest = [] ∨ Chunked name (offset + wr.data.length) rest)

instance Chunked.decidable (name : String) :
    (offset : Nat) → (upload : List WriteRequest) → Decidable (Chunked name offset upload)
  | _, [] => inferInstanceAs (Decidable False)
  | offset, wr :: rest =>
    have := Chunked.decidable name (offset + wr.data.length) rest
    inferInstanceAs (Decidable ((wr.resourceName = name ∨ wr.resourceName = "") ∧
      wr.writeOffset = offset ∧ wr.finishWrite = rest.isEmpty ∧
      (rest = [] ∨ Chunked name (offset + wr.data.length) rest)))

theorem receive_ok_split {name : String} {buffer bytes : List UInt8} {upload : List WriteRequest}
    (received : receive name buffer upload = .ok bytes) :
    ∃ sent last later, upload = sent ++ last :: later ∧ (∀ wr ∈ sent, wr.finishWrite = false) ∧
      last.finishWrite = true ∧
      (∀ wr ∈ sent ++ [last], (wr.resourceName = "" ∨ wr.resourceName = name) ∧ wr.writeOffset ≤ 0) ∧
      bytes = buffer ++ (sent ++ [last]).flatMap (·.data) := by
  induction upload generalizing buffer with
  | nil => simp [receive] at received
  | cons wr rest ih =>
    simp only [receive] at received
    split_ifs at received with mismatch offset finish <;>
      have checks : (wr.resourceName = "" ∨ wr.resourceName = name) ∧ wr.writeOffset ≤ 0 :=
        ⟨(not_and_or.mp mismatch).imp not_not.mp fun other => (not_not.mp other).symm, by omega⟩
    · cases received
      exact ⟨[], wr, rest, rfl, by simp, finish, by simpa using checks, by simp⟩
    · obtain ⟨sent, last, later, rfl, going, finished, checked, rfl⟩ := ih received
      refine ⟨wr :: sent, last, later, rfl, by simpa [finish] using going, finished, ?_, by simp⟩
      simp only [List.cons_append, List.mem_cons, forall_eq_or_imp]
      exact ⟨checks, checked⟩

/-- The receive loop on a complete upload gathers all its data when no request before the last
carries any; else the request after the first one with data has a positive offset, and the
loop stops there with `UNIMPLEMENTED`. -/
theorem receive_chunked {name : String} {offset : Nat} {buffer : List UInt8}
    {upload : List WriteRequest} (chunked : Chunked name offset upload) :
    receive name buffer upload =
      if offset = 0 ∧ ∀ wr ∈ upload.dropLast, wr.data = [] then .ok (buffer ++ upload.flatMap (·.data))
      else .error .unimplemented := by
  induction upload generalizing offset buffer with
  | nil => exact chunked.elim
  | cons wr rest ih =>
    obtain ⟨named, at_offset, finish, next⟩ := chunked
    have matches_ : ¬(wr.resourceName ≠ "" ∧ name ≠ wr.resourceName) := by
      rintro ⟨nonEmpty, other⟩
      exact named.elim (fun same => other same.symm) nonEmpty
    simp only [receive, if_neg matches_, at_offset, Int.ofNat_pos]
    cases rest with
    | nil =>
      simp only [List.isEmpty_nil] at finish
      by_cases zero : offset = 0 <;> simp [zero, finish, Nat.pos_iff_ne_zero]
    | cons next_wr rest =>
      simp only [List.isEmpty_cons] at finish
      have later := @ih _ (buffer ++ wr.data) (next.resolve_left (List.cons_ne_nil _ _))
      by_cases zero : offset = 0
      · simp only [zero, lt_irrefl, if_false, finish, Bool.false_eq_true, later, Nat.zero_add,
          List.length_eq_zero, List.dropLast_cons₂, List.mem_cons, forall_eq_or_imp, true_and,
          List.flatMap_cons, List.append_assoc]
      · simp [zero, Nat.pos_iff_ne_zero]

section Server

variable (bz : Bazel)

/-- `Write` against a store answering as `backend` does: the reply, and the `Store.Write` calls
made, each with the name and the bytes it was handed (its TTL is the one of the moment the
handler runs, see `write_eq_writeWith`). -/
def writeWith (storeConfig : Option StoreBackend) (upload : List WriteRequest) :
    Outcome (WriteReply × List (String × List UInt8)) :=
  match storeConfig, upload with
  | none, _ => pure (.failed .internal, [])
  | some _, [] => pure (.failed .internal, [])
  | some backend, wr :: rest =>
    match bz.parseWriteResource wr.resourceName with
    | none => pure (.failed .invalidArgument, [])
    | some resource =>
      if resource.digest.hash = bz.emptySha then pure (.committed bz.emptySize, [])
      else if resource.digest.sizeBytes < 0 ∨ maxAlloc < resource.digest.sizeBytes then .panics
      else
        let storeName := bz.digestStoreName resource.digest
        match backend.present storeName with
        | none => pure (.failed .internal, [])
        | some true => pure (.committed resource.digest.sizeBytes, [])
        | some false =>
          match receive wr.resourceName [] (wr :: rest) with
          | .error code => pure (.failed code, [])
          | .ok buffer =>
            if (buffer.length : Int) ≠ resource.digest.sizeBytes then pure (.failed .internal, [])
            else if backend.accepts storeName buffer then
              pure (.committed buffer.length, [(storeName, buffer)])
            else pure (.failed .internal, [(storeName, buffer)])

/-- Whatever the stream and whatever the store answers, `Write` calls `Store.Write` at most once:
never on the empty-digest or already-stored shortcuts, and only with the data of the requests up
to the first with `FinishWrite`, in order, when none of them names another resource or has a
positive offset and the data has the digest's size. The reply then commits that size exactly
when the store's `Write` succeeds. -/
theorem write_calls_store_once {storeConfig : Option StoreBackend} {upload : List WriteRequest}
    {reply : WriteReply} {calls : List (String × List UInt8)}
    (wrote : writeWith bz storeConfig upload = .returns (reply, calls)) :
    calls = [] ∨
      ∃ backend wr digest sent last later data, storeConfig = some backend ∧ upload.head? = some wr ∧
        bz.parseWriteResource wr.resourceName = some ⟨digest⟩ ∧ digest.hash ≠ bz.emptySha ∧
        backend.present (bz.digestStoreName digest) = some false ∧
        upload = sent ++ last :: later ∧ (∀ r ∈ sent, r.finishWrite = false) ∧
        last.finishWrite = true ∧
        (∀ r ∈ sent ++ [last],
          (r.resourceName = "" ∨ r.resourceName = wr.resourceName) ∧ r.writeOffset ≤ 0) ∧
        data = (sent ++ [last]).flatMap (·.data) ∧ (data.length : Int) = digest.sizeBytes ∧
        calls = [(bz.digestStoreName digest, data)] ∧
        (reply = .committed data.length ∧ backend.accepts (bz.digestStoreName digest) data = true ∨
          reply = .failed .internal ∧ backend.accepts (bz.digestStoreName digest) data = false) := by
  have quiet : ∀ {answer : WriteReply},
      (pure (answer, []) : Outcome _) = .returns (reply, calls) → calls = [] :=
    fun same => (Prod.mk.inj (Outcome.returns.inj same)).2.symm
  rcases storeConfig with _ | backend
  · exact .inl (quiet wrote)
  rcases upload with _ | ⟨wr, rest⟩
  · exact .inl (quiet wrote)
  simp only [writeWith] at wrote
  split at wrote
  · exact .inl (quiet wrote)
  rename_i resource parsed
  split_ifs at wrote with empty unallocatable
  · exact .inl (quiet wrote)
  split at wrote
  · exact .inl (quiet wrote)
  · exact .inl (quiet wrote)
  rename_i fresh
  split at wrote
  · exact .inl (quiet wrote)
  rename_i buffer received
  obtain ⟨sent, last, later, split, going, finished, checked, rfl⟩ := receive_ok_split received
  simp only [List.nil_append] at wrote
  by_cases sized : (((sent ++ [last]).flatMap (·.data)).length : Int) = resource.digest.sizeBytes
  · rw [if_neg (not_not.mpr sized)] at wrote
    refine .inr ⟨backend, wr, resource.digest, sent, last, later, _, rfl, rfl, parsed, empty, fresh,
      split, going, finished, checked, rfl, sized, ?_⟩
    cases accepted : backend.accepts (bz.digestStoreName resource.digest)
        ((sent ++ [last]).flatMap (·.data)) <;>
      simp only [accepted, Bool.false_eq_true, if_true, if_false] at wrote <;>
      obtain ⟨rfl, rfl⟩ := Prod.mk.inj (Outcome.returns.inj wrote)
    · exact ⟨rfl, .inr ⟨rfl, rfl⟩⟩
    · exact ⟨rfl, .inl ⟨rfl, rfl⟩⟩
  · rw [if_pos sized] at wrote
    exact .inl (quiet wrote)

theorem write_calls_store_once_on_two_requests :
    let bz : Bazel := ⟨"", 0, Digest.hash, fun _ _ => true, fun _ => none,
      fun _ => some ⟨⟨"abc", 2⟩⟩, 1, Nat.one_pos, false, 1, Nat.one_pos⟩
    let backend : StoreBackend := ⟨fun _ => some false, fun _ _ => true⟩
    let upload : List WriteRequest := [⟨"w", 0, [], false⟩, ⟨"", 0, [1, 2], true⟩]
    let calls : List (String × List UInt8) := [("abc", [1, 2])]
    writeWith bz (some backend) upload = .returns (.committed 2, calls) ∧ (calls = [] ∨
      ∃ backend' wr digest sent last later data, some backend = some backend' ∧
        upload.head? = some wr ∧ bz.parseWriteResource wr.resourceName = some ⟨digest⟩ ∧
        digest.hash ≠ bz.emptySha ∧ backend'.present (bz.digestStoreName digest) = some false ∧
        upload = sent ++ last :: later ∧ (∀ r ∈ sent, r.finishWrite = false) ∧
        last.finishWrite = true ∧
        (∀ r ∈ sent ++ [last],
          (r.resourceName = "" ∨ r.resourceName = wr.resourceName) ∧ r.writeOffset ≤ 0) ∧
        data = (sent ++ [last]).flatMap (·.data) ∧ (data.length : Int) = digest.sizeBytes ∧
        calls = [(bz.digestStoreName digest, data)] ∧
        (WriteReply.committed 2 = .committed data.length ∧
            backend'.accepts (bz.digestStoreName digest) data = true ∨
          WriteReply.committed 2 = .failed .internal ∧
            backend'.accepts (bz.digestStoreName digest) data = false)) := by
  intro bz backend upload calls
  have wrote : writeWith bz (some backend) upload = .returns (.committed 2, calls) := by decide
  exact ⟨wrote, write_calls_store_once bz wrote⟩

/-- Every complete upload of a blob whose digest is not the empty one, to a store that does not
hold the digest's name and accepts the write: `Write` stores the blob and commits its length
when no request before the last carries data, and else stores nothing and answers
`UNIMPLEMENTED`, because the request after the first one with data has a positive offset. -/
theorem write_rejects_chunked_upload {backend : StoreBackend} {wr : WriteRequest}
    {rest : List WriteRequest} {digest : Digest}
    (parsed : bz.parseWriteResource wr.resourceName = some ⟨digest⟩)
    (nonEmpty : digest.hash ≠ bz.emptySha) (complete : Chunked wr.resourceName 0 (wr :: rest))
    (sized : (((wr :: rest).flatMap (·.data)).length : Int) = digest.sizeBytes)
    (small : digest.sizeBytes ≤ maxAlloc)
    (fresh : backend.present (bz.digestStoreName digest) = some false)
    (accepted : backend.accepts (bz.digestStoreName digest) ((wr :: rest).flatMap (·.data)) = true) :
    writeWith bz (some backend) (wr :: rest) =
      if ∀ r ∈ (wr :: rest).dropLast, r.data = [] then
        .returns (.committed ((wr :: rest).flatMap (·.data)).length,
          [(bz.digestStoreName digest, (wr :: rest).flatMap (·.data))])
      else .returns (.failed .unimplemented, []) := by
  have allocatable : ¬(digest.sizeBytes < 0 ∨ maxAlloc < digest.sizeBytes) := by omega
  simp only [writeWith, parsed, nonEmpty, allocatable, if_false, fresh, receive_chunked complete,
    true_and, List.nil_append]
  split_ifs
  · dsimp only
    rw [if_neg (fun wrong => wrong sized), if_pos accepted]
    rfl
  · rfl

theorem write_rejects_chunked_upload_of_two_chunks :
    let bz : Bazel := ⟨"", 0, Digest.hash, fun _ _ => true, fun _ => none,
      fun _ => some ⟨⟨"abc", 2⟩⟩, 1, Nat.one_pos, false, 1, Nat.one_pos⟩
    let backend : StoreBackend := ⟨fun _ => some false, fun _ _ => true⟩
    let upload : List WriteRequest := [⟨"w", 0, [1], false⟩, ⟨"", 1, [2], true⟩]
    Chunked "w" 0 upload ∧
      writeWith bz (some backend) upload = .returns (.failed .unimplemented, []) ∧
      write bz (some Store.empty) 0 upload = .returns (.failed .unimplemented, some Store.empty) := by
  intro bz backend upload
  have complete : Chunked "w" 0 upload := by decide
  refine ⟨complete, ?_, rfl⟩
  rw [write_rejects_chunked_upload bz rfl (by decide) complete (by decide) (by decide) rfl rfl]
  decide

/-- `write` is `Write` against the store it holds, with the `Store.Write` calls applied to it. -/
theorem write_eq_writeWith (storeConfig : Option Store) (now : Int) (upload : List WriteRequest) :
    write bz storeConfig now upload =
      (fun answer : WriteReply × List (String × List UInt8) => (answer.1, storeConfig.map
        fun store => answer.2.foldl (fun stored call => stored.write call.1 call.2 (bz.ttlAt now))
          store)) <$>
        writeWith bz (storeConfig.map (StoreBackend.ofStore · now)) upload := by
  rcases storeConfig with _ | store
  · rfl
  rcases upload with _ | ⟨wr, rest⟩
  · rfl
  simp only [write, writeWith, Option.map_some']
  cases bz.parseWriteResource wr.resourceName with
  | none => rfl
  | some resource =>
    dsimp only
    by_cases empty : resource.digest.hash = bz.emptySha
    · simp only [if_pos empty]; rfl
    by_cases unallocatable : resource.digest.sizeBytes < 0 ∨ maxAlloc < resource.digest.sizeBytes
    · simp only [if_neg empty, if_pos unallocatable]; rfl
    simp only [if_neg empty, if_neg unallocatable, StoreBackend.ofStore]
    cases (store.get now (bz.digestStoreName resource.digest)).isSome
    · dsimp only
      cases receive wr.resourceName [] (wr :: rest) with
      | error code => rfl
      | ok buffer =>
        dsimp only
        by_cases wrong : (buffer.length : Int) ≠ resource.digest.sizeBytes
        · simp only [if_pos wrong]; rfl
        · simp only [if_neg wrong, if_true]; rfl
    · rfl

end Server

end Scoot.Cas
