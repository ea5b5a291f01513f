import Scoot.Cluster.Loop

/-! `Cluster.Close`, run while the loop is idle. It ranges over `c.subs` and hands each
channel to `handleReq` as a close request. The range evaluated `c.subs` once, so iteration `i`
reads cell `i` of the one backing array, which every removal shifts down in place. -/
namespace Scoot.Cloud
open Scoot.Go

namespace Cluster

variable {σ : Type} (nodeState : NodeState σ)

/-- The iterations of `Close`'s range at the given indices. The array never shrinks, so every
index in range is there. -/
def closeFrom (c : Cluster σ) : List Nat → Cluster σ × List Effect
  | [] => (c, [])
  | i :: indices =>
    let step := match c.subs.backing[i]? with
      | some sub => c.handleReq nodeState (.closeSubscription sub)
      | none => (c, [])
    let rest := step.1.closeFrom indices
    (rest.1, step.2 ++ rest.2)

def close (c : Cluster σ) : Cluster σ × List Effect :=
  let ranged := c.closeFrom nodeState (List.range c.subs.len)
  ({ ranged.1 with subs := .nil }, ranged.2 ++ [.closeRequests])

/-- After the first of `n` subscribers is gone: `second` sits at the head of the array and in
no other cell the range can still read. -/
def Skips (second n : Nat) (c : Cluster σ) : Prop :=
  c.subs.backing[0]? = some second ∧ 1 ≤ c.subs.len ∧ c.subs.len ≤ n ∧
    ∀ k, 1 ≤ k → k < n → c.subs.backing[k]? ≠ some second

theorem handleReq_skips {second n : Nat} {c : Cluster σ} (skips : Skips second n c) {sub : Nat}
    (other : sub ≠ second) :
    Skips second n (c.handleReq nodeState (.closeSubscription sub)).1 ∧
      Effect.close second ∉ (c.handleReq nodeState (.closeSubscription sub)).2 := by
  obtain ⟨head, nonempty, bounded, elsewhere⟩ := skips
  simp only [handleReq]
  split
  · rename_i i found
    obtain ⟨inside, first⟩ := List.findIdx?_eq_some_iff_findIdx_eq.mp found
    have at_i : c.subs.toList[i]? = some sub := by
      obtain ⟨_, matches_, _⟩ := List.findIdx?_eq_some_iff_getElem.mp found
      simpa [List.getElem?_eq_getElem inside] using matches_
    rw [Slice.toList_length] at inside
    have past_head : 0 < i := by
      refine Nat.pos_of_ne_zero fun zero => other ?_
      subst zero
      rw [Slice.toList_getElem? _ nonempty, head] at at_i
      exact (Option.some.inj at_i).symm
    have moved := Slice.removeAt_getElem? c.subs inside
    refine ⟨⟨by rw [moved, if_pos past_head, head], by simp [Slice.removeAt]; omega,
      by simp [Slice.removeAt]; omega, fun k low high => ?_⟩, by simp [Ne.symm other]⟩
    rw [moved]
    split_ifs
    · exact elsewhere k low high
    · exact elsewhere (k + 1) (by omega) (by omega)
    · exact elsewhere k low high
  · exact ⟨⟨head, nonempty, bounded, elsewhere⟩, by simp⟩

theorem closeFrom_skips {second n : Nat} {c : Cluster σ} (skips : Skips second n c)
    (indices : List Nat) (later : ∀ k ∈ indices, 1 ≤ k ∧ k < n) :
    Effect.close second ∉ (c.closeFrom nodeState indices).2 := by
  induction indices generalizing c with
  | nil => simp [closeFrom]
  | cons k indices ih =>
    obtain ⟨low, high⟩ := later k (List.mem_cons_self _ _)
    have rest := fun {d : Cluster σ} (skips : Skips second n d) =>
      ih skips fun j mem => later j (List.mem_cons_of_mem _ mem)
    simp only [closeFrom, List.mem_append, not_or]
    split
    · rename_i sub read
      have other : sub ≠ second := fun same => skips.2.2.2 k low high (same ▸ read)
      obtain ⟨keeps, not_closed⟩ := handleReq_skips nodeState skips other
      exact ⟨not_closed, rest keeps⟩
    · exact ⟨by simp, rest skips⟩

theorem removeAt_first_skips (c : Cluster σ) {first second : Nat} {rest : List Nat}
    (subs : c.subs.toList = first :: second :: rest) (third : rest ≠ [])
    (second_new : second ∉ rest) :
    Skips second (rest.length + 2) { c with subs := c.subs.removeAt 0 } := by
  have len : c.subs.len = rest.length + 2 := by rw [← Slice.toList_length, subs]; rfl
  have cell : ∀ k, k < rest.length + 2 → c.subs.backing[k]? = (first :: second :: rest)[k]? :=
    fun k inside => by rw [← Slice.toList_getElem? _ (by omega), subs]
  have moved := Slice.removeAt_getElem? c.subs (show 0 < c.subs.len by omega)
  refine ⟨by rw [moved, if_neg (by omega), if_pos (by omega), cell 1 (by omega)]; simp,
    by simp [Slice.removeAt]; omega, by simp [Slice.removeAt]; omega, fun k low high => ?_⟩
  obtain ⟨m, rfl⟩ : ∃ m, k = m + 1 := ⟨k - 1, by omega⟩
  obtain ⟨j, read⟩ : ∃ j, (c.subs.removeAt 0).backing[m + 1]? = rest[j]? := by
    rw [moved, if_neg (by omega)]
    split_ifs
    · exact ⟨m, by rw [cell (m + 1 + 1) (by omega)]; simp only [List.getElem?_cons_succ]; rfl⟩
    · obtain ⟨j, rfl⟩ : ∃ j, m = j + 1 := ⟨m - 1, by have := List.length_pos.mpr third; omega⟩
      exact ⟨j, by rw [cell (j + 1 + 1) (by omega)]; simp only [List.getElem?_cons_succ]⟩
  show (c.subs.removeAt 0).backing[m + 1]? ≠ some second
  rw [read]
  exact fun at_j => second_new (List.mem_iff_getElem?.mpr ⟨j, at_j⟩)

/-- With three or more distinct subscribers, `Close` never closes the second: removing the
first moves it to cell 0, which the range has passed, and no later cell holds it. `Close`
then empties `c.subs`, so the loop's final close does not reach it either. -/
theorem close_skips_second_subscriber (c : Cluster σ) {first second : Nat} {rest : List Nat}
    (subs : c.subs.toList = first :: second :: rest) (third : rest ≠ [])
    (distinct : c.subs.toList.Nodup) :
    Effect.close second ∉ (c.close nodeState).2 ∧ (c.close nodeState).1.subs.toList = [] := by
  have len : c.subs.len = rest.length + 2 := by rw [← Slice.toList_length, subs]; rfl
  rw [subs] at distinct
  obtain ⟨not_first, tail⟩ := List.nodup_cons.mp distinct
  have first_ne : first ≠ second := fun same => not_first (same ▸ List.mem_cons_self _ _)
  have reads_first : c.subs.backing[0]? = some first := by
    rw [← Slice.toList_getElem? _ (by omega), subs]
    rfl
  have found : c.subs.toList.indexOf? first = some 0 := by simp [subs, List.indexOf?]
  have skips := removeAt_first_skips c subs third (List.nodup_cons.mp tail).1
  have range : List.range c.subs.len = 0 :: List.range' 1 (rest.length + 1) := by
    rw [len, List.range_eq_range', List.range'_succ]
  have later : ∀ k ∈ List.range' 1 (rest.length + 1), 1 ≤ k ∧ k < rest.length + 2 := by
    intro k mem
    simp only [List.mem_range'_1] at mem
    omega
  generalize List.range' 1 (rest.length + 1) = indices at range later
  refine ⟨?_, rfl⟩
  simp only [close, range, closeFrom, reads_first, handleReq, found, List.mem_append, not_or]
  exact ⟨⟨by simp [Ne.symm first_ne], closeFrom_skips nodeState skips _ later⟩, by simp⟩

/-- Three subscribers made by the loop itself: `Close` closes channels 0 and 2, never 1. -/
theorem close_skips_second_of_three :
    let nodeState : NodeState Unit :=
      ⟨fun _ => (), fun _ => [], fun _ _ => ([], ()), fun _ _ => ([], ())⟩
    let c := ((new nodeState []).run nodeState
      [.request .subscribe, .request .subscribe, .request .subscribe]).1
    c.subs.toList = [0, 1, 2] ∧ (c.close nodeState).2 = [.close 0, .close 2, .closeRequests] ∧
      Effect.close 1 ∉ (c.close nodeState).2 ∧ (c.close nodeState).1.subs.toList = [] :=
  ⟨by decide, by decide,
    @close_skips_second_subscriber Unit _ _ 0 1 [2] (by decide) (by decide) (by decide)⟩

end Cluster

end Scoot.Cloud
