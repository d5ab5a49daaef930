import Mathlib.Algebra.GroupWithZero.Nat
import Mathlib.Data.List.Induction
import Parley.Metrics

/-!
# Parley.Proofs.Counters — what the counters hold after many entries

A counter that an entry raises by what it weighs holds the weight of all entries, modulo `2 ^ 64`
(`counter_recordAll`).  The gauge of open connections can also fall; it holds the entries
`established` less the entries `closed`, as long as at every moment there were no more of the latter
and fewer than `2 ^ 64` connections were open (`Gauged`).
-/

namespace Parley.Metrics

theorem recordAll_concat (m : Metrics) (es : List Entry) (e : Entry) :
    m.recordAll (es ++ [e]) = (m.recordAll es).record e := by
  rw [recordAll_append]
  rfl

/-! ### Counters that only rise -/

/-- Of the things that happen some are counted, each as one entry, and some weigh something: a counter
that each raises by what it weighs holds the weight of all of them. -/
theorem counter_recordAll {ε α : Type} (entryOf : ε → Option Entry) (weightOf : ε → Option α)
    (w : α → Nat) {f : Metrics → UInt64}
    (h : ∀ m e, f (m.recordAll (entryOf e).toList) = f m + UInt64.ofNat ((weightOf e).elim 0 w))
    (m : Metrics) (es : List ε) :
    f (m.recordAll (es.filterMap entryOf)) =
      f m + UInt64.ofNat ((es.filterMap weightOf).map w).sum := by
  induction es generalizing m with
  | nil => exact (UInt64.add_zero _).symm
  | cons e es ih =>
    have hentries : (e :: es).filterMap entryOf = (entryOf e).toList ++ es.filterMap entryOf := by
      rw [List.filterMap_cons]
      cases entryOf e <;> rfl
    have hweight : (((e :: es).filterMap weightOf).map w).sum =
        (weightOf e).elim 0 w + ((es.filterMap weightOf).map w).sum := by
      rw [List.filterMap_cons]
      cases weightOf e with
      | none => exact (Nat.zero_add _).symm
      | some a => rfl
    rw [hentries, hweight, recordAll_append, ih, h, UInt64.ofNat_add, UInt64.add_assoc]

/-- A counter of one kind of entries holds how many of them there are. -/
theorem count_recordAll {f : Metrics → UInt64} {x : Entry}
    (h : ∀ m e, f (m.record e) = f m + UInt64.ofNat (if e = x then 1 else 0)) (m : Metrics)
    (es : List Entry) : f (m.recordAll es) = f m + UInt64.ofNat (es.count x) := by
  have hcount : (es.map fun e => if e = x then 1 else 0).sum = es.count x := by
    induction es with
    | nil => rfl
    | cons e es ih =>
      rw [List.map_cons, List.sum_cons, ih, List.count_cons, Nat.add_comm]
      simp only [beq_iff_eq]
  have hall := counter_recordAll some some (fun e => if e = x then 1 else 0) h m es
  rwa [List.filterMap_some, hcount] at hall

theorem handshakesFailed_recordAll (m : Metrics) (es : List Entry) :
    (m.recordAll es).handshakesFailed =
      m.handshakesFailed + UInt64.ofNat (es.countP (· == .failed)) := by
  refine count_recordAll (f := (·.handshakesFailed)) (fun m e => ?_) m es
  cases e <;> first | rfl | exact (UInt64.add_zero _).symm

theorem connectionErrors_recordAll (m : Metrics) (es : List Entry) :
    (m.recordAll es).connectionErrors = m.connectionErrors + UInt64.ofNat (es.count .errored) := by
  refine count_recordAll (f := (·.connectionErrors)) (fun m e => ?_) m es
  cases e <;> first | rfl | exact (UInt64.add_zero _).symm

/-! ### The gauge -/

/-- At every moment fewer than `2 ^ 64` connections were open. -/
def Fits (es : List Entry) : Prop :=
  ∀ p, p <+: es → p.count .established < p.count .closed + 2 ^ 64

/-- At every moment no more connections were closed than had been opened, and fewer than `2 ^ 64` of
them were open. -/
structure Gauged (es : List Entry) : Prop where
  paired : ∀ p, p <+: es → p.count .closed ≤ p.count .established
  room : Fits es

theorem Gauged.of_append {es fs : List Entry} (h : Gauged (es ++ fs)) : Gauged es where
  paired p hp := h.paired p (hp.trans (List.prefix_append es fs))
  room p hp := h.room p (hp.trans (List.prefix_append es fs))

/-- The gauge holds the number of connections that are open. -/
theorem Gauged.connectionsActive_toNat {es : List Entry} (h : Gauged es) :
    (recordAll {} es).connectionsActive.toNat = es.count .established - es.count .closed := by
  induction es using List.reverseRecOn with
  | nil => rfl
  | append_singleton es e ih =>
    have hpaired := h.paired _ (List.prefix_refl _)
    have hroom := h.room _ (List.prefix_refl _)
    have hgauge := ih h.of_append
    rw [recordAll_concat]
    rw [List.count_append, List.count_append] at hpaired hroom ⊢
    generalize recordAll {} es = m at hgauge ⊢
    cases e with
    | established =>
      simp only [List.count_singleton, reduceCtorEq, beq_iff_eq, if_true, if_false] at hpaired hroom ⊢
      show (m.connectionsActive + 1).toNat = _
      rw [UInt64.toNat_add, hgauge, show (1 : UInt64).toNat = 1 from rfl]
      have hbefore := h.of_append.paired _ (List.prefix_refl _)
      omega
    | closed =>
      simp only [List.count_singleton, reduceCtorEq, beq_iff_eq, if_true, if_false] at hpaired hroom ⊢
      have hsome : m.connectionsActive ≠ 0 := by
        intro hzero
        rw [hzero, show (0 : UInt64).toNat = 0 from rfl] at hgauge
        omega
      show (if m.connectionsActive = 0 then 0 else m.connectionsActive - 1).toNat = _
      rw [if_neg hsome, UInt64.toNat_sub_of_le]
      · rw [hgauge, show (1 : UInt64).toNat = 1 from rfl]
        omega
      · rw [UInt64.le_iff_toNat_le, hgauge, show (1 : UInt64).toNat = 1 from rfl]
        omega
    | _ =>
      simp only [List.count_singleton, reduceCtorEq, beq_iff_eq, if_false]
      exact hgauge

/-- The gauge never stands at zero when a connection is closed. -/
theorem Gauged.connectionsActive_ne_zero {es pre post : List Entry} (h : Gauged es)
    (hes : es = pre ++ .closed :: post) : (recordAll {} pre).connectionsActive ≠ 0 := by
  intro hzero
  rw [hes] at h
  have hgauge := h.of_append.connectionsActive_toNat
  have hpaired := h.paired (pre ++ [.closed]) ⟨post, by simp⟩
  rw [hzero, show (0 : UInt64).toNat = 0 from rfl] at hgauge
  simp only [List.count_append, List.count_singleton, reduceCtorEq, beq_iff_eq, if_true, if_false]
    at hpaired
  omega

end Parley.Metrics
