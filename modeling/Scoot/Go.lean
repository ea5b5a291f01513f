import Mathlib.Data.List.Basic

/-! The parts of the Go runtime that the modelled code leans on: how a call on a goroutine
ends, the two mutexes of `sync`, and slices that share their backing array. -/
namespace Scoot.Go

/-- How a call on a goroutine ends. A call that waits on a lock nobody will release
`blocks`; a nil pointer dereference `panics`. -/
inductive Outcome (α : Type) where
  | returns (value : α)
  | blocks
  | panics
  deriving DecidableEq, Repr

namespace Outcome

def bind {α β : Type} : Outcome α → (α → Outcome β) → Outcome β
  | returns value, next => next value
  | blocks, _ => blocks
  | panics, _ => panics

instance : Monad Outcome where
  pure := returns
  bind := bind

variable {α β : Type}

@[simp] theorem pure_eq (value : α) : (pure value : Outcome α) = returns value := rfl

@[simp] theorem returns_bind (value : α) (next : α → Outcome β) :
    (returns value >>= next) = next value := rfl

@[simp] theorem blocks_bind (next : α → Outcome β) : (blocks >>= next) = blocks := rfl

@[simp] theorem panics_bind (next : α → Outcome β) : (panics >>= next) = panics := rfl

theorem bind_eq_returns {first : Outcome α} {next : α → Outcome β} {result : β} :
    (first >>= next) = returns result ↔ ∃ value, first = returns value ∧ next value = returns result := by
  cases first <;> simp

def waitFor : Option α → Outcome α
  | some value => returns value
  | none => blocks

@[simp] theorem waitFor_some (value : α) : waitFor (some value) = returns value := rfl

@[simp] theorem waitFor_none : waitFor (none : Option α) = blocks := rfl

end Outcome

/-- `sync.RWMutex`: whether a writer holds it and how many readers do. A writer waiting for
the readers to leave does not hold back new readers here, so the model has every schedule
of the Go mutex and a few more. -/
structure RWMutex where
  writer : Bool
  readers : Nat
  deriving DecidableEq, Repr

namespace RWMutex

def unlocked : RWMutex := ⟨false, 0⟩

def lock (mutex : RWMutex) : Option RWMutex :=
  if mutex = unlocked then some ⟨true, 0⟩ else none

def unlock (mutex : RWMutex) : RWMutex := { mutex with writer := false }

def rLock (mutex : RWMutex) : Option RWMutex :=
  if mutex.writer then none else some { mutex with readers := mutex.readers + 1 }

def rUnlock (mutex : RWMutex) : RWMutex := { mutex with readers := mutex.readers - 1 }

@[simp] theorem lock_unlocked : unlocked.lock = some ⟨true, 0⟩ := rfl

theorem lock_eq_some {mutex held : RWMutex} (taken : mutex.lock = some held) :
    mutex = unlocked ∧ held = ⟨true, 0⟩ := by
  unfold lock at taken
  split at taken <;> simp_all

theorem rLock_eq_some {mutex held : RWMutex} (taken : mutex.rLock = some held) :
    mutex.writer = false ∧ held = ⟨false, mutex.readers + 1⟩ := by
  unfold rLock at taken
  cases mutex
  split at taken <;> simp_all

end RWMutex

structure Mutex where
  locked : Bool
  deriving DecidableEq, Repr

namespace Mutex

def lock (mutex : Mutex) : Option Mutex := if mutex.locked then none else some ⟨true⟩

def unlock (_ : Mutex) : Mutex := ⟨false⟩

@[simp] theorem lock_free : lock ⟨false⟩ = some ⟨true⟩ := rfl

@[simp] theorem lock_held : lock ⟨true⟩ = none := rfl

end Mutex

/-- A Go slice: the first `len` cells of a backing array that other slices may share. The
rest of the array is spare capacity. -/
structure Slice (α : Type) where
  backing : List α
  len : Nat
  len_le : len ≤ backing.length

namespace Slice

variable {α : Type}

def nil : Slice α := ⟨[], 0, le_refl _⟩

def toList (s : Slice α) : List α := s.backing.take s.len

/-- `append(s, x)`: in place while the array has room, else into a new array. The new
array's spare capacity is left out: no modelled code reads past a slice's length. -/
def push (s : Slice α) (x : α) : Slice α :=
  if room : s.len < s.backing.length then ⟨s.backing.set s.len x, s.len + 1, by simpa using room⟩
  else ⟨s.toList ++ [x], s.len + 1, by have := s.len_le; simp [toList]; omega⟩

/-- `append(s[0:i], s[i+1:]...)`: the cells after `i` move down by one inside the same
array, and the last cell in view keeps its old value. -/
def removeAt (s : Slice α) (i : Nat) : Slice α where
  backing := s.backing.take i ++ s.toList.drop (i + 1) ++ s.backing.drop (s.len - 1)
  len := s.len - 1
  len_le := by have := s.len_le; simp [toList]; omega

@[simp] theorem nil_toList : (nil : Slice α).toList = [] := rfl

theorem toList_length (s : Slice α) : s.toList.length = s.len := by
  simp [toList, s.len_le]

private theorem take_set_self (l : List α) (n : Nat) (x : α) : (l.set n x).take n = l.take n := by
  apply List.ext_getElem (by simp)
  intro k left _
  simp only [List.length_take, List.length_set, Nat.lt_min] at left
  simp [List.getElem_set, show n ≠ k by omega]

@[simp] theorem push_toList (s : Slice α) (x : α) : (s.push x).toList = s.toList ++ [x] := by
  unfold push
  split
  · simp only [toList]
    rw [List.take_succ, List.getElem?_set_self ‹_›, take_set_self]
    rfl
  · show (s.toList ++ [x]).take (s.len + 1) = _
    rw [List.take_of_length_le (by simp [toList_length])]

theorem removeAt_toList (s : Slice α) {i : Nat} (inside : i < s.len) :
    (s.removeAt i).toList = s.toList.eraseIdx i := by
  have prefix_eq : s.backing.take i = s.toList.take i := by
    simp [toList, List.take_take, Nat.min_eq_left inside.le]
  have front : (s.backing.take i ++ s.toList.drop (i + 1)).length = s.len - 1 := by
    have := s.len_le
    simp [toList]; omega
  simp only [removeAt, toList] at front ⊢
  rw [List.take_append_eq_append_take, List.take_of_length_le front.le, front, Nat.sub_self,
    List.take_zero, List.append_nil, List.eraseIdx_eq_take_drop_succ]
  simpa [toList] using prefix_eq

theorem removeAt_length (s : Slice α) {i : Nat} (inside : i < s.len) :
    (s.removeAt i).backing.length = s.backing.length := by
  have := s.len_le
  simp [removeAt, toList]; omega

theorem toList_getElem? (s : Slice α) {k : Nat} (inside : k < s.len) :
    s.toList[k]? = s.backing[k]? :=
  List.getElem?_take_of_lt inside

theorem removeAt_getElem? (s : Slice α) {i : Nat} (inside : i < s.len) (k : Nat) :
    (s.removeAt i).backing[k]? =
      if k < i then s.backing[k]? else if k + 1 < s.len then s.backing[k + 1]? else s.backing[k]? := by
  have len_le := s.len_le
  have front : (s.backing.take i).length = i := by simp; omega
  have middle : ((s.backing.take s.len).drop (i + 1)).length = s.len - (i + 1) := by simp; omega
  simp only [removeAt, toList, List.append_assoc]
  split_ifs with before shifted
  · rw [List.getElem?_append_left (by omega), List.getElem?_take_of_lt before]
  · rw [List.getElem?_append_right (by omega), List.getElem?_append_left (by omega),
      List.getElem?_drop, List.getElem?_take_of_lt (by omega), front,
      show i + 1 + (k - i) = k + 1 by omega]
  · rw [List.getElem?_append_right (by omega), List.getElem?_append_right (by omega),
      List.getElem?_drop, front, middle, show s.len - 1 + (k - i - (s.len - (i + 1))) = k by omega]

end Slice

end Scoot.Go
