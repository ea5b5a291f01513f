import Mathlib.Data.List.Nodup
import Mathlib.Data.String.Basic
import Scoot.Go

/-! The cluster's membership loop: the one goroutine that owns `c.subs`. It ingests node
lists and updates from `c.ch`, answers `Members` and `Subscribe` and closes subscriptions
from `c.reqCh`, and closes every subscription once both channels are closed. Channels are
named by numbers; `make` hands out the next one. The node state's own code is not among the
sources, so the loop is modelled over any implementation of its three operations. -/
namespace Scoot.Cloud
open Scoot.Go

structure Node where
  id : String
  deriving DecidableEq, Repr

inductive NodeUpdate where
  | added (node : Node)
  | removed (id : String)
  deriving DecidableEq, Repr

/-- The operations of `State` that the cluster calls: `MakeState`, its nodes, and the two
ingests, each returning the batch of updates to send out. -/
structure NodeState (σ : Type) where
  makeState : List Node → σ
  nodes : σ → List Node
  filterAndUpdate : σ → List NodeUpdate → List NodeUpdate × σ
  setAndDiff : σ → List Node → List NodeUpdate × σ

inductive Ingest where
  | updates (updates : List NodeUpdate)
  | nodes (nodes : List Node)
  | other
  deriving DecidableEq, Repr

/-- A value received on `c.reqCh`, told apart by its type as `handleReq`'s switch does: the
reply channel of `Members`, of `Subscribe`, a subscription's channel to close, or a value
of another type. -/
inductive Request where
  | members
  | subscribe
  | closeSubscription (sub : Nat)
  | other
  deriving DecidableEq, Repr

inductive Event where
  | ingest (value : Ingest)
  | chClosed
  | request (req : Request)
  | reqChClosed
  deriving DecidableEq, Repr

inductive Effect where
  | publish (batch : List NodeUpdate)
  | send (sub : Nat) (batch : List NodeUpdate)
  | close (sub : Nat)
  | replyMembers (nodes : List Node)
  | replySubscriber (sub : Nat) (initial : List Node)
  | closeRequests
  deriving DecidableEq, Repr

/-- The type switch of `loop` on a value from `c.ch`: the outgoing batch of the ingest, and the
node state after it. -/
def NodeState.ingest {σ : Type} (nodeState : NodeState σ) (state : σ) :
    Ingest → List NodeUpdate × σ
  | .updates updates => nodeState.filterAndUpdate state updates
  | .nodes nodes => nodeState.setAndDiff state nodes
  | .other => ([], state)

/-- `Cluster`: the node state, whether `c.ch` and `c.reqCh` are still non-nil, the slice of
subscriber channels, and how many channels `make` has handed out. -/
structure Cluster (σ : Type) where
  state : σ
  ch : Bool
  reqCh : Bool
  subs : Slice Nat
  made : Nat

namespace Cluster

variable {σ : Type} (nodeState : NodeState σ)

def new (nodes : List Node) : Cluster σ := ⟨nodeState.makeState nodes, true, true, .nil, 0⟩

def current (c : Cluster σ) : List Node :=
  (nodeState.nodes c.state).mergeSort fun a b => decide (a.id ≤ b.id)

def done (c : Cluster σ) : Bool := !c.ch && !c.reqCh

/-- `handleReq`. A close request removes the first matching channel from `c.subs` in place
and closes it; a channel not in `c.subs` is left alone. -/
def handleReq (c : Cluster σ) : Request → Cluster σ × List Effect
  | .members => (c, [.replyMembers (c.current nodeState)])
  | .subscribe => ({ c with subs := c.subs.push c.made, made := c.made + 1 },
      [.replySubscriber c.made (c.current nodeState)])
  | .closeSubscription sub => match c.subs.toList.indexOf? sub with
    | some i => ({ c with subs := c.subs.removeAt i }, [.close sub])
    | none => (c, [])
  | .other => (c, [])

/-- One turn of `loop`'s `select`. A nil channel is never ready, so what arrives on it does
nothing. -/
def loopStep (c : Cluster σ) : Event → Cluster σ × List Effect
  | .ingest value =>
    if c.ch then
      let outgoing := nodeState.ingest c.state value
      ({ c with state := outgoing.2 }, .publish outgoing.1 :: c.subs.toList.map (.send · outgoing.1))
    else (c, [])
  | .chClosed => if c.ch then ({ c with ch := false }, []) else (c, [])
  | .request req => if c.reqCh then c.handleReq nodeState req else (c, [])
  | .reqChClosed => if c.reqCh then ({ c with reqCh := false }, []) else (c, [])

def run (c : Cluster σ) : List Event → Cluster σ × List Effect
  | [] => (c, [])
  | event :: events =>
    let step := c.loopStep nodeState event
    let rest := step.1.run events
    (rest.1, step.2 ++ rest.2)

def closing (c : Cluster σ) : List Effect :=
  if c.done then c.subs.toList.map .close else []

end Cluster

/-! ### Reading a trace -/

def subscribed (trace : List Effect) : List Nat :=
  trace.filterMap fun | .replySubscriber sub _ => some sub | _ => none

def closed (trace : List Effect) : List Nat :=
  trace.filterMap fun | .close sub => some sub | _ => none

def openSubs (trace : List Effect) : List Nat :=
  (subscribed trace).filter (· ∉ closed trace)

def sentTo (sub : Nat) (trace : List Effect) : List (List NodeUpdate) :=
  trace.filterMap fun | .send s batch => if s = sub then some batch else none | _ => none

def listensThrough (sub : Nat) (listening : Bool) : Effect → Bool
  | .replySubscriber s _ => listening || decide (s = sub)
  | .close s => listening && decide (s ≠ sub)
  | _ => listening

def published : Effect → List (List NodeUpdate)
  | .publish batch => [batch]
  | _ => []

def publishedTo (sub : Nat) : Bool → List Effect → List (List NodeUpdate)
  | _, [] => []
  | listening, effect :: trace => (if listening then published effect else []) ++
      publishedTo sub (listensThrough sub listening effect) trace

def NoSendAfterClose (trace : List Effect) : Prop :=
  ∀ pre sub batch post, trace = pre ++ .send sub batch :: post → sub ∉ closed pre

@[simp] theorem subscribed_append (trace more : List Effect) :
    subscribed (trace ++ more) = subscribed trace ++ subscribed more := by
  simp [subscribed]

@[simp] theorem closed_append (trace more : List Effect) :
    closed (trace ++ more) = closed trace ++ closed more := by
  simp [closed]

@[simp] theorem sentTo_append (sub : Nat) (trace more : List Effect) :
    sentTo sub (trace ++ more) = sentTo sub trace ++ sentTo sub more := by
  simp [sentTo]

@[simp] theorem sentTo_publish (sub : Nat) (batch : List NodeUpdate) (trace : List Effect) :
    sentTo sub (.publish batch :: trace) = sentTo sub trace := rfl

theorem publishedTo_append (sub : Nat) (listening : Bool) (trace more : List Effect) :
    publishedTo sub listening (trace ++ more) = publishedTo sub listening trace ++
      publishedTo sub (trace.foldl (listensThrough sub) listening) more := by
  induction trace generalizing listening with
  | nil => rfl
  | cons effect trace ih => simp [publishedTo, ih]

theorem sentTo_sends (sub : Nat) (batch : List NodeUpdate) {subs : List Nat} (distinct : subs.Nodup) :
    sentTo sub (subs.map (.send · batch)) = if sub ∈ subs then [batch] else [] := by
  induction subs with
  | nil => rfl
  | cons s subs ih =>
    obtain ⟨fresh, distinct⟩ := List.nodup_cons.mp distinct
    have rest := ih distinct
    simp only [sentTo, List.map_cons, List.filterMap_cons] at rest ⊢
    by_cases same : s = sub
    · subst same; simp [rest, fresh]
    · simp [rest, same, Ne.symm same]

theorem publishedTo_sends (sub : Nat) (listening : Bool) (batch : List NodeUpdate) (subs : List Nat) :
    publishedTo sub listening (subs.map (.send · batch)) = [] := by
  induction subs <;> simp_all [publishedTo, published, listensThrough]

theorem listensThrough_sends (sub : Nat) (listening : Bool) (batch : List NodeUpdate) (subs : List Nat) :
    (subs.map (.send · batch)).foldl (listensThrough sub) listening = listening := by
  induction subs <;> simp_all [listensThrough]

theorem publishedTo_closes (sub : Nat) (listening : Bool) (subs : List Nat) :
    publishedTo sub listening (subs.map .close) = [] := by
  induction subs generalizing listening with
  | nil => rfl
  | cons s subs ih => simp [publishedTo, published, ih]

theorem noSendAfterClose_of_no_send {trace : List Effect}
    (quiet : ∀ sub batch, Effect.send sub batch ∉ trace) : NoSendAfterClose trace := by
  rintro pre sub batch post rfl
  exact absurd (by simp) (quiet sub batch)

theorem noSendAfterClose_append {trace more : List Effect} (before : NoSendAfterClose trace)
    (after : NoSendAfterClose more) (fresh : ∀ sub batch, Effect.send sub batch ∈ more → sub ∉ closed trace) :
    NoSendAfterClose (trace ++ more) := by
  intro pre sub batch post split
  rcases List.append_eq_append_iff.mp split with ⟨rest, rfl, rfl⟩ | ⟨rest, rfl, tail⟩
  · simp only [closed_append, List.mem_append, not_or]
    exact ⟨fresh sub batch (by simp), after rest sub batch post rfl⟩
  · cases rest with
    | nil =>
      simp only [List.nil_append] at tail
      subst tail
      simpa using fresh sub batch (by simp)
    | cons effect rest =>
      obtain ⟨rfl, rfl⟩ := List.cons_eq_cons.mp tail
      exact before pre sub batch rest rfl

theorem noSendAfterClose_of_no_close {trace : List Effect} (quiet : closed trace = []) :
    NoSendAfterClose trace := by
  rintro pre sub batch post rfl
  simp_all

/-! ### The loop's invariant -/

namespace Cluster

variable {σ : Type} (nodeState : NodeState σ)

/-- What the loop keeps between two turns, given the trace of its effects so far: `c.subs`
holds the open subscriptions, every channel was handed out once and closed at most once and
never before a send, and every subscriber was sent exactly the batches published while it
listened. -/
structure Consistent (c : Cluster σ) (trace : List Effect) : Prop where
  subs_eq : c.subs.toList = openSubs trace
  subscribed_nodup : (subscribed trace).Nodup
  subscribed_lt : ∀ sub ∈ subscribed trace, sub < c.made
  closed_subscribed : ∀ sub ∈ closed trace, sub ∈ subscribed trace
  closed_nodup : (closed trace).Nodup
  sends_open : NoSendAfterClose trace
  sent_eq : ∀ sub, sentTo sub trace = publishedTo sub false trace
  listens : ∀ sub, trace.foldl (listensThrough sub) false = decide (sub ∈ c.subs.toList)

theorem removeAt_indexOf? {subs : Slice Nat} {sub i : Nat}
    (found : subs.toList.indexOf? sub = some i) :
    sub ∈ subs.toList ∧ (subs.removeAt i).toList = subs.toList.erase sub := by
  obtain ⟨inside, first⟩ := List.findIdx?_eq_some_iff_findIdx_eq.mp found
  refine ⟨List.indexOf_lt_length.mp (by unfold List.indexOf; rw [first]; exact inside), ?_⟩
  rw [Slice.removeAt_toList _ (by simpa [Slice.toList_length] using inside), ← first,
    ← List.eraseIdx_indexOf_eq_erase]
  rfl

theorem closing_eq (c : Cluster σ) :
    c.closing = (if c.done then c.subs.toList else []).map .close := by
  unfold closing
  split <;> rfl

namespace Consistent

variable {c : Cluster σ} {trace : List Effect}

theorem subs_nodup (inv : Consistent c trace) : c.subs.toList.Nodup := by
  rw [inv.subs_eq]
  exact inv.subscribed_nodup.filter _

theorem not_closed (inv : Consistent c trace) {sub : Nat} (open_ : sub ∈ c.subs.toList) :
    sub ∉ closed trace := by
  rw [inv.subs_eq, openSubs, List.mem_filter] at open_
  simpa using open_.2

theorem start (nodes : List Node) : Consistent (new nodeState nodes) [] :=
  ⟨rfl, List.nodup_nil, by simp [subscribed], by simp [closed], List.nodup_nil,
    noSendAfterClose_of_no_send (by simp), fun _ => rfl, fun _ => by simp [new]⟩

theorem congr (inv : Consistent c trace) (c' : Cluster σ) (subs : c'.subs = c.subs)
    (made : c'.made = c.made) : Consistent c' trace := by
  obtain ⟨subs_eq, nodup, lt, closed_sub, closed_nodup, sends, sent, listens⟩ := inv
  exact ⟨subs ▸ subs_eq, nodup, made ▸ lt, closed_sub, closed_nodup, sends, sent, subs ▸ listens⟩

theorem quiet (inv : Consistent c trace) (c' : Cluster σ) (more : List Effect)
    (subs : c'.subs = c.subs) (made : c'.made = c.made)
    (opens : subscribed more = []) (closes : closed more = [])
    (sends_open : ∀ sub batch, Effect.send sub batch ∈ more → sub ∈ c.subs.toList)
    (sent : ∀ sub, sentTo sub more = publishedTo sub (decide (sub ∈ c.subs.toList)) more)
    (keeps : ∀ sub listening, more.foldl (listensThrough sub) listening = listening) :
    Consistent c' (trace ++ more) := by
  refine ⟨?_, ?_, ?_, ?_, ?_, ?_, fun sub => ?_, fun sub => ?_⟩
  · rw [subs, openSubs, subscribed_append, closed_append, opens, closes, List.append_nil,
      List.append_nil]
    exact inv.subs_eq
  · simpa [opens] using inv.subscribed_nodup
  · simpa [opens, made] using inv.subscribed_lt
  · simpa [opens, closes] using inv.closed_subscribed
  · simpa [closes] using inv.closed_nodup
  · exact noSendAfterClose_append inv.sends_open (noSendAfterClose_of_no_close closes)
      fun sub batch sending => inv.not_closed (sends_open sub batch sending)
  · rw [sentTo_append, publishedTo_append, inv.sent_eq, inv.listens, sent]
  · rw [List.foldl_append, inv.listens, keeps, subs]

theorem reply (inv : Consistent c trace) (nodes : List Node) :
    Consistent c (trace ++ [.replyMembers nodes]) :=
  inv.quiet c _ rfl rfl rfl rfl (by simp) (fun _ => by simp [sentTo, publishedTo, published])
    (fun _ _ => rfl)

theorem publish (inv : Consistent c trace) (batch : List NodeUpdate) (state : σ) :
    Consistent { c with state } (trace ++ .publish batch :: c.subs.toList.map (.send · batch)) := by
  refine inv.quiet _ _ rfl rfl (by simp [subscribed]) (by simp [closed]) ?_ (fun sub => ?_)
    (fun sub listening => listensThrough_sends sub listening batch _)
  · simp only [List.mem_cons, List.mem_map, reduceCtorEq, false_or]
    rintro sub _ ⟨sub, open_, ⟨⟩⟩
    exact open_
  · rw [sentTo_publish, sentTo_sends _ _ inv.subs_nodup]
    simp [publishedTo, published, listensThrough, publishedTo_sends]

theorem subscribe (inv : Consistent c trace) (nodes : List Node) :
    Consistent { c with subs := c.subs.push c.made, made := c.made + 1 }
      (trace ++ [.replySubscriber c.made nodes]) := by
  have fresh : c.made ∉ subscribed trace := fun mem => lt_irrefl _ (inv.subscribed_lt _ mem)
  have unclosed : c.made ∉ closed trace := fun mem => fresh (inv.closed_subscribed _ mem)
  have opens : subscribed [.replySubscriber c.made nodes] = [c.made] := rfl
  have closes : closed [.replySubscriber c.made nodes] = [] := rfl
  refine ⟨?_, ?_, ?_, ?_, ?_, ?_, fun sub => ?_, fun sub => ?_⟩
  · simp [openSubs, opens, closes, inv.subs_eq, unclosed]
  · simpa [opens, List.nodup_append] using ⟨inv.subscribed_nodup, fresh⟩
  · simp only [subscribed_append, opens, List.mem_append, List.mem_singleton]
    rintro sub (old | rfl)
    · exact Nat.lt_succ_of_lt (inv.subscribed_lt sub old)
    · exact Nat.lt_succ_self _
  · simp only [closed_append, closes, subscribed_append, List.append_nil, List.mem_append]
    exact fun sub gone => Or.inl (inv.closed_subscribed sub gone)
  · simpa [closes] using inv.closed_nodup
  · exact noSendAfterClose_append inv.sends_open (noSendAfterClose_of_no_close closes) (by simp)
  · rw [sentTo_append, publishedTo_append, inv.sent_eq]
    simp [sentTo, publishedTo, published]
  · rw [List.foldl_append, inv.listens]
    simp [listensThrough, eq_comm]

theorem unsubscribe (inv : Consistent c trace) {sub i : Nat}
    (found : c.subs.toList.indexOf? sub = some i) :
    Consistent { c with subs := c.subs.removeAt i } (trace ++ [.close sub]) := by
  obtain ⟨open_, erased⟩ := removeAt_indexOf? found
  have unclosed := inv.not_closed open_
  have opens : subscribed [.close sub] = [] := rfl
  have closes : closed [.close sub] = [sub] := rfl
  refine ⟨?_, ?_, ?_, ?_, ?_, ?_, fun other => ?_, fun other => ?_⟩
  · rw [erased, (inv.subs_nodup).erase_eq_filter, inv.subs_eq, openSubs, openSubs,
      List.filter_filter, subscribed_append, closed_append, opens, closes, List.append_nil]
    exact List.filter_congr fun x _ => by simp [bne, Bool.beq_eq_decide_eq, and_comm]
  · simpa [opens] using inv.subscribed_nodup
  · simpa [opens] using inv.subscribed_lt
  · simp only [closed_append, closes, subscribed_append, opens, List.append_nil, List.mem_append,
      List.mem_singleton]
    rintro gone (old | rfl)
    · exact inv.closed_subscribed gone old
    · rw [inv.subs_eq, openSubs, List.mem_filter] at open_
      exact open_.1
  · simpa [closes, List.nodup_append] using ⟨inv.closed_nodup, unclosed⟩
  · exact noSendAfterClose_append inv.sends_open (noSendAfterClose_of_no_send (by simp)) (by simp)
  · rw [sentTo_append, publishedTo_append, inv.sent_eq]
    simp [sentTo, publishedTo, published]
  · rw [List.foldl_append, inv.listens, erased]
    by_cases same : other = sub
    · simp [listensThrough, same, inv.subs_nodup.mem_erase_iff]
    · simp [listensThrough, same, Ne.symm same, inv.subs_nodup.mem_erase_iff]

/-- One turn of the loop keeps the invariant. -/
theorem step (inv : Consistent c trace) (event : Event) :
    Consistent (c.loopStep nodeState event).1 (trace ++ (c.loopStep nodeState event).2) := by
  have idle : ∀ c' : Cluster σ, c'.subs = c.subs → c'.made = c.made → Consistent c' (trace ++ []) :=
    fun c' subs made => by simpa using inv.congr c' subs made
  cases event with
  | ingest value =>
    simp only [loopStep]
    split
    · exact inv.publish _ _
    · exact idle c rfl rfl
  | chClosed =>
    simp only [loopStep]
    split <;> exact idle _ rfl rfl
  | request req =>
    simp only [loopStep]
    split
    · cases req with
      | members => exact inv.reply _
      | subscribe => exact inv.subscribe _
      | closeSubscription sub =>
        simp only [handleReq]
        split
        · exact inv.unsubscribe ‹_›
        · exact idle c rfl rfl
      | other => exact idle c rfl rfl
    · exact idle c rfl rfl
  | reqChClosed =>
    simp only [loopStep]
    split <;> exact idle _ rfl rfl

theorem run (inv : Consistent c trace) (events : List Event) :
    Consistent (c.run nodeState events).1 (trace ++ (c.run nodeState events).2) := by
  induction events generalizing c trace with
  | nil => simpa [Cluster.run] using inv
  | cons event events ih => simpa [Cluster.run, List.append_assoc] using ih (inv.step nodeState event)

theorem closing (inv : Consistent c trace) :
    (closed (trace ++ c.closing)).Nodup ∧ NoSendAfterClose (trace ++ c.closing) ∧
      ∀ sub, sentTo sub (trace ++ c.closing) = publishedTo sub false (trace ++ c.closing) := by
  have distinct : (if c.done then c.subs.toList else []).Nodup := by
    split
    · exact inv.subs_nodup
    · exact List.nodup_nil
  have inside : ∀ sub ∈ (if c.done then c.subs.toList else []), sub ∈ c.subs.toList := by
    split <;> simp
  rw [closing_eq]
  generalize (if c.done then c.subs.toList else []) = subs at distinct inside
  have closes : closed (subs.map .close) = subs := by
    simp [closed, List.filterMap_map, Function.comp_def]
  refine ⟨?_, ?_, fun sub => ?_⟩
  · rw [closed_append, closes, List.nodup_append]
    refine ⟨inv.closed_nodup, distinct, fun sub gone again => ?_⟩
    exact inv.not_closed (inside sub again) gone
  · exact noSendAfterClose_append inv.sends_open (noSendAfterClose_of_no_send (by simp)) (by simp)
  · rw [sentTo_append, publishedTo_append, inv.sent_eq, publishedTo_closes]
    simp [sentTo]

end Consistent

end Cluster

/-! ### What each subscriber is owed -/

/-- The loop as the spec reads it: the node state and the two channels, the channels subscribed
and not closed, in subscription order, and what each channel is owed: the outgoing batch of
every ingest taken while it was subscribed. -/
structure Broadcast (σ : Type) where
  state : σ
  ch : Bool
  reqCh : Bool
  made : Nat
  listeners : List Nat
  owed : Nat → List (List NodeUpdate)

namespace Broadcast

variable {σ : Type} (nodeState : NodeState σ)

def new (nodes : List Node) : Broadcast σ := ⟨nodeState.makeState nodes, true, true, 0, [], fun _ => []⟩

def take (b : Broadcast σ) : Event → Broadcast σ
  | .ingest value =>
    if b.ch then
      let outgoing := nodeState.ingest b.state value
      { b with
        state := outgoing.2
        owed := fun sub => if sub ∈ b.listeners then b.owed sub ++ [outgoing.1] else b.owed sub }
    else b
  | .chClosed => { b with ch := false }
  | .request .subscribe =>
    if b.reqCh then { b with listeners := b.listeners ++ [b.made], made := b.made + 1 } else b
  | .request (.closeSubscription sub) =>
    if b.reqCh then { b with listeners := b.listeners.erase sub } else b
  | .request _ => b
  | .reqChClosed => { b with reqCh := false }

def run (b : Broadcast σ) (events : List Event) : Broadcast σ := events.foldl (take nodeState) b

end Broadcast

namespace Cluster

variable {σ : Type} (nodeState : NodeState σ)

/-- The loop's state and trace against the spec's reading: the same node state, channels and
subscriptions, and each channel sent exactly what it is owed. -/
structure Refines (c : Cluster σ) (trace : List Effect) (b : Broadcast σ) : Prop where
  state : c.state = b.state
  ch : c.ch = b.ch
  reqCh : c.reqCh = b.reqCh
  made : c.made = b.made
  subs : c.subs.toList = b.listeners
  sent : ∀ sub, sentTo sub trace = b.owed sub

namespace Refines

variable {c : Cluster σ} {trace : List Effect} {b : Broadcast σ}

theorem start (nodes : List Node) : Refines (new nodeState nodes) [] (Broadcast.new nodeState nodes) :=
  ⟨rfl, rfl, rfl, rfl, rfl, fun _ => rfl⟩

theorem quiet (ref : Refines c trace b) (c' : Cluster σ) (b' : Broadcast σ) (more : List Effect)
    (same : c'.state = b'.state ∧ c'.ch = b'.ch ∧ c'.reqCh = b'.reqCh ∧ c'.made = b'.made ∧
      c'.subs.toList = b'.listeners) (owed : b'.owed = b.owed) (silent : ∀ sub, sentTo sub more = []) :
    Refines c' (trace ++ more) b' :=
  ⟨same.1, same.2.1, same.2.2.1, same.2.2.2.1, same.2.2.2.2,
    fun sub => by rw [sentTo_append, silent, List.append_nil, ref.sent, owed]⟩

theorem unchanged (ref : Refines c trace b) (more : List Effect) (silent : ∀ sub, sentTo sub more = []) :
    Refines c (trace ++ more) b :=
  ref.quiet c b more ⟨ref.state, ref.ch, ref.reqCh, ref.made, ref.subs⟩ rfl silent

theorem step (inv : Consistent c trace) (ref : Refines c trace b) (event : Event) :
    Refines (c.loopStep nodeState event).1 (trace ++ (c.loopStep nodeState event).2)
      (b.take nodeState event) := by
  have same := ref
  obtain ⟨state, ch, reqCh, made, subs, sent⟩ := same
  cases event with
  | ingest value =>
    simp only [loopStep, Broadcast.take, ← ch, ← state, ← subs]
    split
    · refine ⟨rfl, rfl, reqCh, made, rfl, fun sub => ?_⟩
      rw [sentTo_append, sentTo_publish, sentTo_sends _ _ inv.subs_nodup, sent]
      by_cases mem : sub ∈ c.subs.toList <;> simp [mem]
    · exact ref.unchanged [] fun _ => rfl
  | chClosed =>
    simp only [loopStep, Broadcast.take]
    split
    · exact ref.quiet _ _ [] ⟨state, rfl, reqCh, made, subs⟩ rfl fun _ => rfl
    · exact ref.quiet c _ [] ⟨state, by simpa using ‹¬c.ch = true›, reqCh, made, subs⟩ rfl
        fun _ => rfl
  | request req =>
    simp only [loopStep]
    split
    · rename_i listening
      have open_ : b.reqCh = true := reqCh ▸ listening
      cases req with
      | members => exact ref.unchanged _ fun _ => rfl
      | subscribe =>
        simp only [handleReq, Broadcast.take, open_, if_true]
        exact ref.quiet _ _ _ ⟨state, ch, listening, by rw [made],
          by rw [Slice.push_toList, subs, made]⟩
          rfl fun _ => rfl
      | closeSubscription sub =>
        simp only [handleReq, Broadcast.take, open_, if_true]
        split
        · rename_i i found
          exact ref.quiet _ _ _ ⟨state, ch, listening, made,
            by rw [(removeAt_indexOf? found).2, subs]⟩
            rfl fun _ => rfl
        · rename_i missing
          have absent : sub ∉ c.subs.toList := fun mem => by
            unfold List.indexOf? at missing
            simpa using List.findIdx?_eq_none_iff.mp missing sub mem
          exact ref.quiet c _ [] ⟨state, ch, listening, made,
            by rw [← subs, List.erase_of_not_mem absent]⟩
            rfl fun _ => rfl
      | other => exact ref.unchanged [] fun _ => rfl
    · rename_i deaf
      have shut : b.reqCh = false := by simpa [reqCh] using deaf
      cases req <;> simp only [Broadcast.take, shut, Bool.false_eq_true, if_false] <;>
        exact ref.unchanged [] fun _ => rfl
  | reqChClosed =>
    simp only [loopStep, Broadcast.take]
    split
    · exact ref.quiet _ _ [] ⟨state, ch, rfl, made, subs⟩ rfl fun _ => rfl
    · exact ref.quiet c _ [] ⟨state, ch, by simpa using ‹¬c.reqCh = true›, made, subs⟩ rfl
        fun _ => rfl

theorem run (ref : Refines c trace b) (inv : Consistent c trace) (events : List Event) :
    Refines (c.run nodeState events).1 (trace ++ (c.run nodeState events).2) (b.run nodeState events) := by
  induction events generalizing c trace b with
  | nil => simpa [Cluster.run, Broadcast.run] using ref
  | cons event events ih =>
    simpa [Cluster.run, Broadcast.run, List.append_assoc] using
      ih (ref.step nodeState inv event) (inv.step nodeState event)

end Refines

/-- Over every sequence of events the loop handles, `c.subs` is exactly the open
subscriptions, in subscription order and without duplicates; no channel is closed twice, also
by the loop's final close, and none is sent to after its close; and every channel is sent
exactly what the spec owes it: the outgoing batch of every ingest taken while it was
subscribed, once each and in order. -/
theorem loop_keeps_subscriptions (nodes : List Node) (events : List Event) :
    let run := (new nodeState nodes).run nodeState events
    let full := run.2 ++ run.1.closing
    let owed := (Broadcast.new nodeState nodes).run nodeState events
    run.1.subs.toList = openSubs run.2 ∧ run.1.subs.toList = owed.listeners ∧
      run.1.subs.toList.Nodup ∧ (closed full).Nodup ∧ NoSendAfterClose full ∧
      ∀ sub, sentTo sub full = owed.owed sub := by
  intro run full owed
  have inv : Consistent run.1 run.2 := by
    simpa only [List.nil_append] using (Consistent.start nodeState nodes).run nodeState events
  have ref : Refines run.1 run.2 owed := by
    simpa only [List.nil_append] using
      (Refines.start nodeState nodes).run nodeState (Consistent.start nodeState nodes) events
  obtain ⟨closed_once, sends_open, -⟩ := inv.closing
  refine ⟨inv.subs_eq, ref.subs, inv.subs_nodup, closed_once, sends_open, fun sub => ?_⟩
  rw [sentTo_append, ← ref.sent, closing_eq]
  simp [sentTo]

theorem loop_keeps_subscriptions_of_one_ingest :
    let nodeState : NodeState (List Node) :=
      ⟨id, id, fun state updates => (updates, state), fun state _ => ([], state)⟩
    let events : List Event := [.request .subscribe, .ingest (.updates [.added ⟨"a"⟩])]
    let run := (new nodeState []).run nodeState events
    let full := run.2 ++ run.1.closing
    let owed := (Broadcast.new nodeState []).run nodeState events
    sentTo 0 full = [[.added ⟨"a"⟩]] ∧
      (run.1.subs.toList = openSubs run.2 ∧ run.1.subs.toList = owed.listeners ∧
        run.1.subs.toList.Nodup ∧ (closed full).Nodup ∧ NoSendAfterClose full ∧
        ∀ sub, sentTo sub full = owed.owed sub) := by
  intro nodeState events run full owed
  exact ⟨by decide, loop_keeps_subscriptions nodeState [] events⟩

end Cluster

end Scoot.Cloud
