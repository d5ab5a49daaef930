import Mathlib.Algebra.Order.Group.Multiset
import Parley.Deque
import Parley.Run

/-!
# Parley.Proofs.Deque — a queue that is shared by threads

Threads take turns on one queue.  Which operation a thread does next may depend on the answers it had
so far; whose turn it is may be anyone's, and an operation is one turn.  Somebody who waits gets a turn
only when the queue is not empty.

An operation does to the items of the queue what it does to a plain list, with the same answer
(`perform_eq`), so a run goes like one on a plain list (`Ledger`).  That nothing is lost or
doubled, and that without pushes to the front, pops off the back and clearing the items leave in the
order they came, is then a matter of one operation on a list (`balance`, `in_line`) and of adding up
(`shared_use`).
-/

namespace Parley
namespace Deque

variable {τ α : Type}

/-! ### Operations as data -/

/-- An operation on a queue. -/
inductive Op (α : Type) where
  | pushBack (a : α)
  | pushFront (a : α)
  | pushBackWasEmpty (a : α)
  | popFront
  | popBack
  | front
  | back
  | count
  | isEmpty
  | clear
  /-- Go on when the queue is not empty. -/
  | wait
  /-- Go on when the queue is not empty or the time is over, and say whether it is not empty. -/
  | waitTimeout
  deriving DecidableEq, Repr

/-- What an operation answers. -/
inductive Answer (α : Type) where
  | done
  | item (a : Option α)
  | number (n : Nat)
  | flag (b : Bool)
  deriving DecidableEq, Repr

/-- Do an operation, unless it has to wait. -/
def perform (q : Deque α) : Op α → Option (Deque α × Answer α)
  | .pushBack a => some (q.pushBack a, .done)
  | .pushFront a => some (q.pushFront a, .done)
  | .pushBackWasEmpty a => some ((q.pushBackWasEmpty a).2, .flag (q.pushBackWasEmpty a).1)
  | .popFront =>
    match q.popFront? with
    | some (a, rest) => some (rest, .item (some a))
    | none => some (q, .item none)
  | .popBack =>
    match q.popBack? with
    | some (a, rest) => some (rest, .item (some a))
    | none => some (q, .item none)
  | .front => some (q, .item q.peekFront?)
  | .back => some (q, .item q.peekBack?)
  | .count => some (q, .number q.count)
  | .isEmpty => some (q, .flag q.isEmpty)
  | .clear => some (empty, .done)
  | .wait => if q.ready then some (q, .done) else none
  | .waitTimeout => some (q, .flag q.ready)

namespace Op

/-- The operation on a plain list, whose ends are the ends of the queue. -/
def onList (l : List α) : Op α → Option (List α × Answer α)
  | pushBack a => some (l ++ [a], .done)
  | pushFront a => some (a :: l, .done)
  | pushBackWasEmpty a => some (l ++ [a], .flag l.isEmpty)
  | popFront => some (l.tail, .item l.head?)
  | popBack => some (l.dropLast, .item l.getLast?)
  | front => some (l, .item l.head?)
  | back => some (l, .item l.getLast?)
  | count => some (l, .number l.length)
  | isEmpty => some (l, .flag l.isEmpty)
  | clear => some ([], .done)
  | wait => if l.isEmpty then none else some (l, .done)
  | waitTimeout => some (l, .flag !l.isEmpty)

/-- What the operation puts into a queue. -/
def pushed : Op α → List α
  | pushBack a | pushFront a | pushBackWasEmpty a => [a]
  | _ => []

/-- What the operation hands out of a queue, by its answer. -/
def popped : Op α → Answer α → List α
  | popFront, .item a | popBack, .item a => a.toList
  | _, _ => []

/-- What the operation throws away of the items of a queue. -/
def discarded (l : List α) : Op α → List α
  | clear => l
  | _ => []

/-- Whether the operation leaves it at that items come at the back and leave at the front. -/
def keepsLine : Op α → Bool
  | pushFront _ | popBack | clear => false
  | _ => true

end Op

/-! ### One operation -/

/-- An operation does to a queue what it does to the plain list of its items. -/
theorem perform_eq (q : Deque α) (op : Op α) :
    (q.perform op).map (fun o => (o.1.toList, o.2)) = op.onList q.toList := by
  cases op with
  | pushBack a => simp [perform, Op.onList]
  | pushFront a => simp [perform, Op.onList]
  | pushBackWasEmpty a => simp [perform, Op.onList, pushBackWasEmpty, isEmpty_eq]
  | popFront =>
    simp only [perform, Op.onList]
    cases hq : q.popFront? with
    | none => simp [(popFront?_eq_none_iff q).mp hq]
    | some o =>
      obtain ⟨a, rest⟩ := o
      simp [toList_of_popFront? hq]
  | popBack =>
    have hpop := toList_popBack? q
    simp only [perform, Op.onList]
    cases hq : q.popBack? with
    | none =>
      rw [hq] at hpop
      have hnil := List.getLast?_eq_none_iff.mp (Option.map_eq_none_iff.mp hpop.symm)
      simp [hnil]
    | some o =>
      rw [hq] at hpop
      obtain ⟨a, hlast, ho⟩ := Option.map_eq_some_iff.mp hpop.symm
      obtain ⟨rfl, hrest⟩ := Prod.mk.inj ho
      simp [hlast, hrest]
  | front => simp [perform, Op.onList, peekFront?_eq]
  | back => simp [perform, Op.onList, peekBack?_eq]
  | count => simp [perform, Op.onList]
  | isEmpty => simp [perform, Op.onList, isEmpty_eq]
  | clear => simp [perform, Op.onList]
  | wait =>
    simp only [perform, Op.onList, ready, isEmpty_eq]
    cases q.toList.isEmpty with
    | true => rfl
    | false => rfl
  | waitTimeout => simp [perform, Op.onList, ready, isEmpty_eq]

theorem onList_of_perform {q q' : Deque α} {op : Op α} {answer : Answer α}
    (h : q.perform op = some (q', answer)) : op.onList q.toList = some (q'.toList, answer) := by
  rw [← perform_eq, h]
  rfl

/-- Only waiting on a queue that is empty does not go on. -/
theorem isSome_perform_iff {q : Deque α} {op : Op α} :
    (q.perform op).isSome = true ↔ (op = .wait → q.toList ≠ []) := by
  rw [← Option.isSome_map (f := fun o => (o.1.toList, o.2)), perform_eq]
  cases op with
  | wait => cases q.toList <;> simp [Op.onList]
  | _ => simp [Op.onList]

namespace Op

variable {l l' : List α} {op : Op α} {answer : Answer α}

/-- What was there and what is put in is what is handed out, what is thrown away and what is left. -/
theorem balance (h : op.onList l = some (l', answer)) :
    (op.pushed ++ l).Perm (op.popped answer ++ op.discarded l ++ l') := by
  cases op with
  | pushBack a | pushBackWasEmpty a =>
    cases h
    exact List.perm_append_comm
  | popBack =>
    cases h
    cases hlast : l.getLast? with
    | none =>
      rw [List.getLast?_eq_none_iff.mp hlast]
      exact List.Perm.refl _
    | some a =>
      obtain ⟨rest, rfl⟩ := List.getLast?_eq_some_iff.mp hlast
      rw [List.dropLast_concat]
      show (rest ++ [a]).Perm ([a] ++ rest)
      exact List.perm_append_comm
  | popFront =>
    cases h
    cases l with
    | nil => exact List.Perm.refl _
    | cons a rest => exact List.Perm.refl _
  | clear =>
    cases h
    exact List.Perm.of_eq (List.append_nil l).symm
  | wait =>
    simp only [onList] at h
    split at h
    · cases h
    · cases h
      exact List.Perm.refl _
  | pushFront a | front | back | count | isEmpty | waitTimeout =>
    cases h
    exact List.Perm.refl _

/-- In line, what was there and then what is put in is what is handed out and then what is left. -/
theorem in_line (h : op.onList l = some (l', answer)) (hline : op.keepsLine = true) :
    l ++ op.pushed = op.popped answer ++ l' := by
  cases op with
  | pushFront a | popBack | clear => cases hline
  | pushBack a | pushBackWasEmpty a =>
    cases h
    rfl
  | popFront =>
    cases h
    cases l with
    | nil => rfl
    | cons a rest => exact List.append_nil _
  | wait =>
    simp only [onList] at h
    split at h
    · cases h
    · cases h
      exact List.append_nil l
  | front | back | count | isEmpty | waitTimeout =>
    cases h
    exact List.append_nil l

end Op

/-! ### Threads -/

/-- A thread: its next operation, if it is not through, from the answers it had so far. -/
def Thread (α : Type) : Type := List (Answer α) → Option (Op α)

/-- A queue with what every thread was answered. -/
structure Shared (τ α : Type) where
  queue : Deque α
  heard : τ → List (Answer α)

/-- A turn of a thread: its operation, the answer, and what was thrown away. -/
structure Turn (τ α : Type) where
  thread : τ
  op : Op α
  answer : Answer α
  discarded : List α
  deriving DecidableEq, Repr

namespace Turn

def pushed (e : Turn τ α) : List α := e.op.pushed

def popped (e : Turn τ α) : List α := e.op.popped e.answer

end Turn

namespace Shared

/-- What was pushed, with who pushed it. -/
def sent (turns : List (Turn τ α)) : List (τ × α) :=
  turns.flatMap fun e => e.pushed.map fun a => (e.thread, a)

theorem map_snd_sent (turns : List (Turn τ α)) :
    (sent turns).map Prod.snd = turns.flatMap Turn.pushed := by
  simp [sent, List.map_flatMap, Function.comp_def]

/-- The turns are those that a thread chooses that had the given answers before. -/
def Chosen (thread : Thread α) (heard : List (Answer α)) : List (Turn τ α) → Prop
  | [] => True
  | e :: turns => thread heard = some e.op ∧ Chosen thread (heard ++ [e.answer]) turns

theorem chosen_concat {thread : Thread α} {heard : List (Answer α)} {turns : List (Turn τ α)}
    {e : Turn τ α} : Chosen thread heard (turns ++ [e]) ↔
      Chosen thread heard turns ∧ thread (heard ++ turns.map Turn.answer) = some e.op := by
  induction turns generalizing heard with
  | nil => simp [Chosen]
  | cons e' turns ih =>
    rw [List.cons_append, Chosen, Chosen, ih, and_assoc, List.map_cons, List.append_assoc]
    rfl

variable [DecidableEq τ] {threads : τ → Thread α}

/-- Nobody did anything yet. -/
def start : Shared τ α := ⟨empty, fun _ => []⟩

/-- One thread does its next operation; it cannot when it is through or has to wait. -/
def step (threads : τ → Thread α) (s : Shared τ α) (t : τ) :
    Option (Shared τ α × List (Turn τ α)) :=
  match threads t (s.heard t) with
  | none => none
  | some op =>
    (s.queue.perform op).map fun o =>
      (⟨o.1, fun u => if u = t then s.heard u ++ [o.2] else s.heard u⟩,
        [⟨t, op, o.2, op.discarded s.queue.toList⟩])

theorem step_eq_some_iff {s s' : Shared τ α} {t : τ} {turns : List (Turn τ α)} :
    step threads s t = some (s', turns) ↔
      ∃ op q answer, threads t (s.heard t) = some op ∧ s.queue.perform op = some (q, answer) ∧
        s' = ⟨q, fun u => if u = t then s.heard u ++ [answer] else s.heard u⟩ ∧
        turns = [⟨t, op, answer, op.discarded s.queue.toList⟩] := by
  rw [step]
  cases threads t (s.heard t) with
  | none => simp
  | some op =>
    simp only [Option.map_eq_some_iff, Prod.mk.injEq, Option.some.injEq, Prod.exists]
    constructor
    · rintro ⟨q, answer, hq, rfl, rfl⟩
      exact ⟨op, q, answer, rfl, hq, rfl, rfl⟩
    · rintro ⟨_, q, answer, rfl, hq, rfl, rfl⟩
      exact ⟨q, answer, hq, rfl, rfl⟩

/-- A thread whose turn it is does its operation, whatever the others did, unless it waits and the
queue is empty. -/
theorem isSome_step_iff {s : Shared τ α} {t : τ} :
    (step threads s t).isSome = true ↔
      ∃ op, threads t (s.heard t) = some op ∧ (op = .wait → s.queue.toList ≠ []) := by
  rw [step]
  cases threads t (s.heard t) with
  | none => simp
  | some op => simp [isSome_perform_iff]

/-! ### The turns of a run -/

/-- The turns of one thread. -/
def turnsOf (t : τ) (turns : List (Turn τ α)) : List (Turn τ α) :=
  turns.filter fun e => e.thread = t

/-- The items that come from one thread. -/
def itemsOf (t : τ) (items : List (τ × α)) : List α :=
  (items.filter fun i => i.1 = t).map Prod.snd

theorem turnsOf_append (t : τ) (es fs : List (Turn τ α)) :
    turnsOf t (es ++ fs) = turnsOf t es ++ turnsOf t fs := List.filter_append _ _

theorem turnsOf_singleton (t : τ) (e : Turn τ α) :
    turnsOf t [e] = if e.thread = t then [e] else [] := by
  by_cases ht : e.thread = t <;> simp [turnsOf, ht]

theorem itemsOf_append (t : τ) (is js : List (τ × α)) :
    itemsOf t (is ++ js) = itemsOf t is ++ itemsOf t js := by
  unfold itemsOf
  rw [List.filter_append, List.map_append]

theorem itemsOf_map (t u : τ) (l : List α) :
    itemsOf t (l.map fun a => (u, a)) = if u = t then l else [] := by
  by_cases hu : u = t <;> simp [itemsOf, List.filter_map, Function.comp_def, hu]

/-- What is sent by one thread is what it pushed in its own turns. -/
theorem itemsOf_sent (t : τ) (turns : List (Turn τ α)) :
    itemsOf t (sent turns) = (turnsOf t turns).flatMap Turn.pushed := by
  induction turns with
  | nil => rfl
  | cons e turns ih =>
    have hsent : sent (e :: turns) = e.pushed.map (fun a => (e.thread, a)) ++ sent turns := rfl
    have hturns : turnsOf t (e :: turns) = turnsOf t [e] ++ turnsOf t turns :=
      turnsOf_append t [e] turns
    rw [hsent, itemsOf_append, itemsOf_map, ih, hturns, turnsOf_singleton, List.flatMap_append]
    by_cases ht : e.thread = t <;> simp [ht]

/-! ### What a run keeps -/

/-- One operation on a plain list, as a step. -/
def onList (l : List α) (op : Op α) : Option (List α × List (Answer α)) :=
  (op.onList l).map fun o => (o.1, [o.2])

/-- The books of a queue after some turns. -/
structure Ledger (threads : τ → Thread α) (s : Shared τ α) (turns : List (Turn τ α)) : Prop where
  /-- A thread heard the answers of its own turns. -/
  heard : ∀ t, s.heard t = (turnsOf t turns).map Turn.answer
  /-- It did in its turns what it chose, in the order in which it chose. -/
  chosen : ∀ t, Chosen (threads t) [] (turnsOf t turns)
  /-- The operations, in the order in which they were done, have on a plain list the same answers and
  leave the same items. -/
  plain : Run.all onList [] (turns.map Turn.op) = some (s.queue.toList, turns.map Turn.answer)
  /-- What was pushed was popped or thrown away or is still there. -/
  conserved : (turns.flatMap Turn.pushed : Multiset α) =
    (turns.flatMap Turn.popped : Multiset α) + (turns.flatMap Turn.discarded : Multiset α) +
      (s.queue.toList : Multiset α)
  /-- In line, what was pushed first left first. -/
  line : (∀ e ∈ turns, e.op.keepsLine = true) →
    turns.flatMap Turn.popped ++ s.queue.toList = turns.flatMap Turn.pushed

theorem Ledger.start : Ledger threads (Shared.start : Shared τ α) [] where
  heard _ := rfl
  chosen _ := trivial
  plain := rfl
  conserved := rfl
  line _ := rfl

theorem Ledger.step {s s' : Shared τ α} {turns new : List (Turn τ α)} {t : τ}
    (h : Ledger threads s turns) (hstep : Shared.step threads s t = some (s', new)) :
    Ledger threads s' (turns ++ new) := by
  obtain ⟨op, q, answer, hop, hperform, rfl, rfl⟩ := step_eq_some_iff.mp hstep
  have hlist := onList_of_perform hperform
  constructor
  case heard =>
    intro u
    rw [turnsOf_append, turnsOf_singleton, List.map_append, ← h.heard]
    by_cases hu : u = t
    · simp [hu]
    · simp [hu, Ne.symm hu]
  case chosen =>
    intro u
    rw [turnsOf_append, turnsOf_singleton]
    by_cases hu : t = u
    · subst hu
      rw [if_pos rfl]
      refine chosen_concat.mpr ⟨h.chosen t, ?_⟩
      rw [List.nil_append, ← h.heard]
      exact hop
    · rw [if_neg hu, List.append_nil]
      exact h.chosen u
  case plain =>
    rw [List.map_append, List.map_append]
    refine Run.all_append_of_eq_some h.plain (Run.all_cons_eq_some_iff.mpr ?_)
    refine ⟨q.toList, [answer], [], ?_, rfl, rfl⟩
    rw [onList, hlist]
    rfl
  case conserved =>
    have hbalance := Multiset.coe_eq_coe.mpr (Op.balance hlist)
    simp only [← Multiset.coe_add] at hbalance
    simp only [List.flatMap_append, List.flatMap_singleton, ← Multiset.coe_add]
    rw [h.conserved, add_assoc, add_comm (s.queue.toList : Multiset α), Turn.pushed, hbalance,
      Turn.popped]
    ac_rfl
  case line =>
    intro hline
    have hbefore := h.line fun e he => hline e (List.mem_append_left _ he)
    have hnow : op.keepsLine = true := hline _ (List.mem_append_right _ (List.mem_singleton.mpr rfl))
    simp only [List.flatMap_append, List.flatMap_singleton]
    rw [← hbefore, List.append_assoc, List.append_assoc, Turn.popped, Turn.pushed,
      Op.in_line hlist hnow]

theorem ledger_run {s : Shared τ α} {schedule : List τ} {turns : List (Turn τ α)}
    (h : Run.all (Shared.step threads) Shared.start schedule = some (s, turns)) :
    Ledger threads s turns := by
  refine Run.all_history (I := fun s _ turns => Ledger threads s turns) Ledger.start ?_ h
  intro pre t post s₁ es₁ s₂ es₂ _ _ hstep hledger
  exact hledger.step hstep

/-! ### The whole of it -/

/-- What is known of a queue after threads took turns on it: the books are right, and beyond them the
next turns and the order of each thread's items. -/
structure Accounted (threads : τ → Thread α) (s : Shared τ α) (turns : List (Turn τ α)) : Prop
    extends Ledger threads s turns where
  /-- Whoever is not through has a next turn, unless it waits and nothing is there. -/
  next : ∀ t, (Shared.step threads s t).isSome = true ↔
    ∃ op, threads t (s.heard t) = some op ∧ (op = .wait → s.queue.toList ≠ [])
  /-- In line, `left` is what was popped and `kept` is what is still there of what was sent, and what
  there is of one thread among them stands as the thread pushed it. -/
  in_order : (∀ e ∈ turns, e.op.keepsLine = true) →
    ∃ left kept, left ++ kept = sent turns ∧ left.map Prod.snd = turns.flatMap Turn.popped ∧
      kept.map Prod.snd = s.queue.toList ∧
      ∀ t, itemsOf t left ++ itemsOf t kept = (turnsOf t turns).flatMap Turn.pushed

/-- **Shared by any threads, a queue is a plain list on which the operations are done one after the
other**: nothing is lost or doubled, and a line stays a line for every thread. -/
theorem shared_use {s : Shared τ α} {schedule : List τ} {turns : List (Turn τ α)}
    (h : Run.all (Shared.step threads) Shared.start schedule = some (s, turns)) :
    Accounted threads s turns := by
  have hledger := ledger_run h
  refine { hledger with next := fun t => isSome_step_iff, in_order := ?_ }
  intro hline
  -- those who left are the first that were sent
  obtain ⟨left, kept, hsplit, hleft, hkept⟩ :=
    List.map_eq_append_iff.mp ((map_snd_sent turns).trans (hledger.line hline).symm)
  refine ⟨left, kept, hsplit.symm, hleft, hkept, ?_⟩
  intro t
  rw [← itemsOf_append, ← hsplit, itemsOf_sent]

/-- Two threads push, the second one between the pushes of the first, and a third one waits and pops
until it finds nothing. -/
theorem shared_use_two_producers :
    let threads : Fin 3 → Thread Nat := fun t heard =>
      match t, heard.length with
      | 0, 0 => some (.pushBack 1)
      | 0, 1 => some (.pushBackWasEmpty 2)
      | 1, 0 => some (.pushBack 11)
      | 1, 1 => some (.pushBack 12)
      | 2, 0 => some .wait
      | 2, _ => if heard.getLast? = some (.item none) then none else some .popFront
      | _, _ => none
    ∃ s turns, Run.all (Shared.step threads) Shared.start [0, 1, 2, 2, 0, 2, 1, 2] = some (s, turns) ∧
      (∀ e ∈ turns, e.op.keepsLine = true) ∧ turns.flatMap Turn.popped = [1, 11, 2] ∧
      s.queue.toList = [12] ∧ Accounted threads s turns := by
  intro threads
  have hrun : (Run.all (Shared.step threads) Shared.start [0, 1, 2, 2, 0, 2, 1, 2]).any (fun o =>
      o.2.all (fun e => e.op.keepsLine) && (o.2.flatMap Turn.popped == [1, 11, 2]) &&
        (o.1.queue.toList == [12])) = true := by
    decide +kernel
  obtain ⟨⟨s, turns⟩, hrun, hlast⟩ := (Option.any_eq_true _ _).mp hrun
  simp only [Bool.and_eq_true, List.all_eq_true, beq_iff_eq] at hlast
  obtain ⟨⟨hline, hpopped⟩, hleft⟩ := hlast
  exact ⟨s, turns, hrun, hline, hpopped, hleft, shared_use hrun⟩

end Shared
end Deque
end Parley
