import Scoot.Cluster.Loop

/-! What a subscription is for: a subscriber that starts from the snapshot `Subscribe` handed
it and applies, in order, every batch it is sent holds the cluster's members for as long as it
is subscribed. A `NodeUpdate` means what the spec says it does. The node state's code is not
among the sources, so it is taken with the law its ingests are written to keep: the batch an
ingest sends out, applied to the nodes before it, gives the nodes after it. -/
namespace Scoot.Cloud
open Scoot.Go

/-! ### What a batch means -/

namespace NodeUpdate

/-- Modelled from the spec: `Added(n)` inserts `n` unless it is there, `Removed(id)` removes
the node of that id. -/
def apply (nodes : List Node) : NodeUpdate → List Node
  | added node => if node ∈ nodes then nodes else nodes ++ [node]
  | removed id => nodes.filter (·.id ≠ id)

@[simp] theorem mem_apply_added {nodes : List Node} {node other : Node} :
    other ∈ apply nodes (.added node) ↔ other ∈ nodes ∨ other = node := by
  by_cases present : node ∈ nodes
  · simp only [apply, if_pos present]
    exact ⟨.inl, fun | .inl mem => mem | .inr rfl => present⟩
  · simp [apply, present]

@[simp] theorem mem_apply_removed {nodes : List Node} {id : String} {other : Node} :
    other ∈ apply nodes (.removed id) ↔ other ∈ nodes ∧ other.id ≠ id := by
  simp [apply]

end NodeUpdate

def applyBatch (nodes : List Node) (batch : List NodeUpdate) : List Node :=
  batch.foldl NodeUpdate.apply nodes

theorem applyBatch_congr {nodes nodes' : List Node} (same : ∀ node, node ∈ nodes ↔ node ∈ nodes')
    (batch : List NodeUpdate) (node : Node) :
    node ∈ applyBatch nodes batch ↔ node ∈ applyBatch nodes' batch := by
  induction batch generalizing nodes nodes' with
  | nil => exact same node
  | cons update batch ih =>
    refine ih (fun other => ?_)
    cases update <;> simp [same other]

namespace NodeState

variable {σ : Type} (nodeState : NodeState σ)

/-- The law of the node state: the batch each ingest returns, applied to the nodes before it,
gives the nodes after it. -/
structure Lawful : Prop where
  filterAndUpdate : ∀ state updates node,
    node ∈ nodeState.nodes (nodeState.filterAndUpdate state updates).2 ↔
      node ∈ applyBatch (nodeState.nodes state) (nodeState.filterAndUpdate state updates).1
  setAndDiff : ∀ state nodes node,
    node ∈ nodeState.nodes (nodeState.setAndDiff state nodes).2 ↔
      node ∈ applyBatch (nodeState.nodes state) (nodeState.setAndDiff state nodes).1

variable {nodeState}

theorem Lawful.ingest (lawful : nodeState.Lawful) (c : Cluster σ) (value : Ingest) (node : Node) :
    node ∈ nodeState.nodes (nodeState.ingest c.state value).2 ↔
      node ∈ applyBatch (nodeState.nodes c.state) (nodeState.ingest c.state value).1 := by
  cases value with
  | updates updates => exact lawful.filterAndUpdate _ _ node
  | nodes nodes => exact lawful.setAndDiff _ _ node
  | other => exact Iff.rfl

end NodeState

/-! ### What a subscriber holds -/

def initialOf (sub : Nat) (trace : List Effect) : Option (List Node) :=
  (trace.filterMap fun
    | .replySubscriber s initial => if s = sub then some initial else none
    | _ => none).head?

def replica (sub : Nat) (trace : List Effect) : List Node :=
  (sentTo sub trace).foldl applyBatch ((initialOf sub trace).getD [])

theorem initialOf_append (sub : Nat) (trace more : List Effect) :
    initialOf sub (trace ++ more) = (initialOf sub trace).or (initialOf sub more) := by
  simp only [initialOf, List.filterMap_append, List.head?_append]

theorem initialOf_eq_none {sub : Nat} {trace : List Effect} (fresh : sub ∉ subscribed trace) :
    initialOf sub trace = none := by
  rw [initialOf, List.head?_eq_none_iff, List.filterMap_eq_nil_iff]
  intro effect mem
  cases effect with
  | replySubscriber s initial =>
    have other : s ≠ sub := fun same => fresh (List.mem_filterMap.mpr ⟨_, mem, by rw [same]⟩)
    simp [other]
  | _ => rfl

theorem replica_append {sub : Nat} {trace more : List Effect} (fresh : sub ∉ subscribed more) :
    replica sub (trace ++ more) = (sentTo sub more).foldl applyBatch (replica sub trace) := by
  rw [replica, initialOf_append, initialOf_eq_none fresh, Option.or_none, sentTo_append,
    List.foldl_append, replica]

theorem publishedTo_eq_nil {sub : Nat} {trace : List Effect} (fresh : sub ∉ subscribed trace) :
    publishedTo sub false trace = [] := by
  induction trace with
  | nil => rfl
  | cons effect trace ih =>
    have deaf : listensThrough sub false effect = false := by
      cases effect with
      | replySubscriber s initial =>
        have other : s ≠ sub := fun same => fresh (by simp [subscribed, same])
        simp [listensThrough, other]
      | _ => rfl
    rw [publishedTo, deaf, if_neg Bool.false_ne_true, List.nil_append]
    exact ih fun mem => fresh (((List.sublist_cons_self effect trace).filterMap _).subset mem)

namespace Cluster

variable {σ : Type} (nodeState : NodeState σ)

/-- Every open subscriber holds the nodes of the cluster. -/
def Replicated (c : Cluster σ) (trace : List Effect) : Prop :=
  ∀ sub ∈ c.subs.toList, ∀ node, node ∈ replica sub trace ↔ node ∈ nodeState.nodes c.state

namespace Replicated

variable {nodeState} {c : Cluster σ} {trace : List Effect}

theorem quiet (rep : c.Replicated nodeState trace) (c' : Cluster σ) (more : List Effect)
    (subs : ∀ sub ∈ c'.subs.toList, sub ∈ c.subs.toList) (state : c'.state = c.state)
    (opens : subscribed more = []) (sends : ∀ sub, sentTo sub more = []) :
    c'.Replicated nodeState (trace ++ more) := by
  intro sub open_ node
  rw [replica_append (by simp [opens]), sends, List.foldl_nil, state]
  exact rep sub (subs sub open_) node

theorem publish (lawful : nodeState.Lawful) (inv : c.Consistent trace)
    (rep : c.Replicated nodeState trace) (value : Ingest) :
    let outgoing := nodeState.ingest c.state value
    Cluster.Replicated nodeState { c with state := outgoing.2 }
      (trace ++ .publish outgoing.1 :: c.subs.toList.map (.send · outgoing.1)) := by
  intro outgoing sub open_ node
  rw [replica_append (by simp [subscribed]), sentTo_publish, sentTo_sends _ _ inv.subs_nodup,
    if_pos open_, List.foldl_cons, List.foldl_nil, applyBatch_congr (rep sub open_)]
  exact (lawful.ingest c value node).symm

theorem subscribe (inv : c.Consistent trace) (rep : c.Replicated nodeState trace) :
    Cluster.Replicated nodeState { c with subs := c.subs.push c.made, made := c.made + 1 }
      (trace ++ [.replySubscriber c.made (c.current nodeState)]) := by
  have fresh : c.made ∉ subscribed trace := fun mem => lt_irrefl _ (inv.subscribed_lt _ mem)
  intro sub open_ node
  simp only [Slice.push_toList, List.mem_append, List.mem_singleton] at open_
  have handed : sentTo sub [.replySubscriber c.made (c.current nodeState)] = [] := rfl
  rcases open_ with old | rfl
  · have other : sub ≠ c.made := Nat.ne_of_lt (inv.subscribed_lt sub
      (List.mem_of_mem_filter (inv.subs_eq ▸ old)))
    rw [replica_append (by simpa [subscribed] using other), handed, List.foldl_nil]
    exact rep sub old node
  · have unsent : sentTo c.made trace = [] := (inv.sent_eq c.made).trans (publishedTo_eq_nil fresh)
    have initial : initialOf c.made [.replySubscriber c.made (c.current nodeState)] =
        some (c.current nodeState) := by simp [initialOf]
    rw [replica, initialOf_append, initialOf_eq_none fresh, initial, sentTo_append, unsent, handed]
    simp [current, List.mem_mergeSort]

theorem unsubscribe (rep : c.Replicated nodeState trace) {sub i : Nat}
    (found : c.subs.toList.indexOf? sub = some i) :
    Cluster.Replicated nodeState { c with subs := c.subs.removeAt i } (trace ++ [.close sub]) := by
  have inside := (List.findIdx?_eq_some_iff_findIdx_eq.mp found).1
  refine rep.quiet _ _ (fun other mem => ?_) rfl rfl fun _ => rfl
  rw [Slice.removeAt_toList _ (by simpa [Slice.toList_length] using inside)] at mem
  exact List.mem_of_mem_eraseIdx mem

/-- One turn of the loop keeps every subscriber's replica. -/
theorem step (lawful : nodeState.Lawful) (inv : c.Consistent trace)
    (rep : c.Replicated nodeState trace) (event : Event) :
    Cluster.Replicated nodeState (c.loopStep nodeState event).1
      (trace ++ (c.loopStep nodeState event).2) := by
  have idle : ∀ c' : Cluster σ, c'.subs = c.subs → c'.state = c.state →
      Cluster.Replicated nodeState c' (trace ++ []) :=
    fun c' subs state => rep.quiet c' [] (fun _ => subs ▸ id) state rfl fun _ => rfl
  cases event with
  | ingest value =>
    simp only [loopStep]
    split
    · exact rep.publish lawful inv value
    · exact idle c rfl rfl
  | chClosed =>
    simp only [loopStep]
    split <;> exact idle _ rfl rfl
  | request req =>
    simp only [loopStep]
    split
    · cases req with
      | members => exact rep.quiet c _ (fun _ => id) rfl rfl fun _ => rfl
      | subscribe => exact rep.subscribe inv
      | closeSubscription sub =>
        simp only [handleReq]
        split
        · exact rep.unsubscribe ‹_›
        · exact idle c rfl rfl
      | other => exact idle c rfl rfl
    · exact idle c rfl rfl
  | reqChClosed =>
    simp only [loopStep]
    split <;> exact idle _ rfl rfl

theorem run (lawful : nodeState.Lawful) (inv : c.Consistent trace)
    (rep : c.Replicated nodeState trace) (events : List Event) :
    Cluster.Replicated nodeState (c.run nodeState events).1 (trace ++ (c.run nodeState events).2) := by
  induction events generalizing c trace with
  | nil => simpa [Cluster.run] using rep
  | cons event events ih =>
    simpa [Cluster.run, List.append_assoc] using
      ih (inv.step nodeState event) (rep.step lawful inv event)

end Replicated

/-- A subscription keeps its subscriber up to date: over a lawful node state, for every run of
the loop from `NewCluster`, every subscriber still subscribed that applies, in order, the
batches it was sent to the snapshot `Subscribe` gave it holds exactly the cluster's nodes. -/
theorem subscribers_hold_members (lawful : nodeState.Lawful) (nodes : List Node)
    (events : List Event) :
    let run := (new nodeState nodes).run nodeState events
    ∀ sub ∈ run.1.subs.toList, ∀ node, node ∈ replica sub run.2 ↔ node ∈ nodeState.nodes run.1.state := by
  intro run
  have start : (new nodeState nodes).Replicated nodeState [] := fun sub open_ => by simp [new] at open_
  simpa only [List.nil_append] using
    start.run lawful (Consistent.start nodeState nodes) events

theorem subscribers_hold_members_of_applied_updates :
    let nodeState : NodeState (List Node) :=
      ⟨id, id, fun state updates => (updates, applyBatch state updates), fun state _ => ([], state)⟩
    let events : List Event := [.request .subscribe, .ingest (.updates [.added ⟨"a"⟩]),
      .request .subscribe, .ingest (.updates [.removed "a", .added ⟨"b"⟩])]
    let run := (new nodeState []).run nodeState events
    nodeState.Lawful ∧ ∀ sub ∈ run.1.subs.toList, ∀ node,
      node ∈ replica sub run.2 ↔ node ∈ nodeState.nodes run.1.state := by
  intro nodeState events run
  have lawful : nodeState.Lawful := ⟨fun _ _ _ => Iff.rfl, fun _ _ _ => Iff.rfl⟩
  exact ⟨lawful, subscribers_hold_members nodeState lawful [] events⟩

end Cluster

end Scoot.Cloud