/-!
# Parley.Deque — queues open at both ends

A queue is held as a front list and a reversed back list; `toList` is the queue from front to back,
and every operation has an equation in terms of it.  An operation is one step for everybody who
shares the queue.  Somebody who waits on a queue goes on when it is not empty (`ready`).
-/

namespace Parley

/-- A double-ended queue. -/
structure Deque (α : Type) where
  front : List α
  back : List α
  deriving DecidableEq, Repr

namespace Deque

variable {α : Type}

/-- The items from front to back. -/
def toList (q : Deque α) : List α := q.front ++ q.back.reverse

def empty : Deque α := ⟨[], []⟩

instance : Inhabited (Deque α) := ⟨empty⟩

/-! ### Adding -/

def pushFront (q : Deque α) (a : α) : Deque α := ⟨a :: q.front, q.back⟩

def pushBack (q : Deque α) (a : α) : Deque α := ⟨q.front, a :: q.back⟩

/-! ### Looking -/

def isEmpty (q : Deque α) : Bool := q.front.isEmpty && q.back.isEmpty

def count (q : Deque α) : Nat := q.front.length + q.back.length

def peekFront? (q : Deque α) : Option α := q.front.head?.or q.back.getLast?

def peekBack? (q : Deque α) : Option α := q.back.head?.or q.front.getLast?

/-- Whether somebody who waits on the queue may go on. -/
def ready (q : Deque α) : Bool := !q.isEmpty

/-! ### Taking -/

def popFront? (q : Deque α) : Option (α × Deque α) :=
  match q.front with
  | a :: front => some (a, ⟨front, q.back⟩)
  | [] =>
    match q.back.reverse with
    | a :: front => some (a, ⟨front, []⟩)
    | [] => none

def popBack? (q : Deque α) : Option (α × Deque α) :=
  match q.back with
  | a :: back => some (a, ⟨q.front, back⟩)
  | [] =>
    match q.front.reverse with
    | a :: back => some (a, ⟨[], back⟩)
    | [] => none

/-- The queue without its first item. -/
def dropFront (q : Deque α) : Deque α :=
  match q.popFront? with
  | some (_, rest) => rest
  | none => q

/-- Push to the back, and say whether the queue was empty before, in one step. -/
def pushBackWasEmpty (q : Deque α) (a : α) : Bool × Deque α := (q.isEmpty, q.pushBack a)

/-! ### Each operation through `toList` -/

@[simp] theorem toList_empty : (empty : Deque α).toList = [] := rfl

@[simp] theorem toList_pushFront (q : Deque α) (a : α) :
    (q.pushFront a).toList = a :: q.toList := rfl

@[simp] theorem toList_pushBack (q : Deque α) (a : α) :
    (q.pushBack a).toList = q.toList ++ [a] := by
  simp [toList, pushBack]

theorem isEmpty_eq (q : Deque α) : q.isEmpty = q.toList.isEmpty := by
  obtain ⟨front, back⟩ := q
  cases front <;> cases back <;> simp [isEmpty, toList]

theorem isEmpty_iff (q : Deque α) : q.isEmpty = true ↔ q.toList = [] := by
  rw [isEmpty_eq, List.isEmpty_iff]

@[simp] theorem count_eq (q : Deque α) : q.count = q.toList.length := by
  simp [count, toList]

theorem ready_iff (q : Deque α) : q.ready = true ↔ q.toList ≠ [] := by
  simp [ready, isEmpty_eq]

theorem peekFront?_eq (q : Deque α) : q.peekFront? = q.toList.head? := by
  obtain ⟨front, back⟩ := q
  cases front <;> simp [peekFront?, toList, List.head?_reverse]

theorem peekBack?_eq (q : Deque α) : q.peekBack? = q.toList.getLast? := by
  obtain ⟨front, back⟩ := q
  cases back <;> simp [peekBack?, toList]

theorem toList_popFront? (q : Deque α) :
    q.popFront?.map (fun p => (p.1, p.2.toList)) =
      match q.toList with
      | [] => none
      | a :: rest => some (a, rest) := by
  obtain ⟨front, back⟩ := q
  cases front with
  | cons a front => rfl
  | nil =>
    simp only [popFront?, toList, List.nil_append]
    cases back.reverse <;> simp

theorem toList_popBack? (q : Deque α) :
    q.popBack?.map (fun p => (p.1, p.2.toList)) =
      q.toList.getLast?.map fun a => (a, q.toList.dropLast) := by
  obtain ⟨front, back⟩ := q
  cases back with
  | cons a back =>
    simp only [popBack?, toList, Option.map_some]
    rw [List.reverse_cons, ← List.append_assoc]
    simp
  | nil =>
    simp only [popBack?, toList, List.reverse_nil, List.append_nil]
    have h : front = front.reverse.reverse := (List.reverse_reverse front).symm
    cases hf : front.reverse with
    | nil =>
      rw [hf] at h
      subst h
      rfl
    | cons a back =>
      rw [hf] at h
      subst h
      simp

theorem popFront?_eq_none_iff (q : Deque α) : q.popFront? = none ↔ q.toList = [] := by
  have h := toList_popFront? q
  cases hp : q.popFront? with
  | none =>
    rw [hp] at h
    cases hl : q.toList with
    | nil => simp
    | cons a rest => rw [hl] at h; simp at h
  | some p =>
    rw [hp] at h
    cases hl : q.toList with
    | nil => rw [hl] at h; simp at h
    | cons a rest => simp

theorem toList_of_popFront? {q q' : Deque α} {a : α} (h : q.popFront? = some (a, q')) :
    q.toList = a :: q'.toList := by
  have ht := toList_popFront? q
  rw [h] at ht
  cases hl : q.toList with
  | nil => rw [hl] at ht; simp at ht
  | cons b rest =>
    rw [hl] at ht
    simp only [Option.map_some, Option.some.injEq, Prod.mk.injEq] at ht
    rw [ht.1, ht.2]

@[simp] theorem toList_dropFront (q : Deque α) : q.dropFront.toList = q.toList.tail := by
  unfold dropFront
  split
  · next h => rw [toList_of_popFront? h, List.tail_cons]
  · next h => rw [(popFront?_eq_none_iff q).mp h, List.tail_nil]

/-! ### Waiting -/

/-- What a waiter finds: the queue as it is, or, if it was empty, as it is after the push that woke
the waiter. -/
def await (q : Deque α) (push : Deque α → Deque α) : Deque α := if q.ready then q else push q

end Deque
end Parley
