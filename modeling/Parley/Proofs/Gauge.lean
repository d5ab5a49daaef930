import Mathlib.Algebra.BigOperators.Group.List.Basic
import Mathlib.Order.Bounds.Defs
import Parley.Proofs.Counters

/-!
# Parley.Proofs.Gauge — counters that many threads move

Threads take turns at the counters, in any order, and an entry is one turn.  A counter that only rises
holds the weight of all entries, whatever their order (`toNat_recordAll`).  The gauge of open
connections stops at zero, so it does depend on the order: a closing that finds it there is forgotten,
together with all that went before.  It holds the most by which openings outnumber closings from some
moment on (`isGreatest_surpluses`).
-/

namespace Parley.Metrics

/-! ### Counters that only rise -/

/-- A counter other than the gauge. -/
inductive Counter where
  | connectionsTotal | connectionsRejected
  | handshakesTotal | handshakesSuccess | handshakesFailed
  | messagesSent | messagesReceived | bytesSent | bytesReceived
  | connectionErrors
  deriving DecidableEq, Repr

namespace Counter

/-- What a counter holds. -/
def of : Counter → Metrics → UInt64
  | connectionsTotal, m => m.connectionsTotal
  | connectionsRejected, m => m.connectionsRejected
  | handshakesTotal, m => m.handshakesTotal
  | handshakesSuccess, m => m.handshakesSuccess
  | handshakesFailed, m => m.handshakesFailed
  | messagesSent, m => m.messagesSent
  | messagesReceived, m => m.messagesReceived
  | bytesSent, m => m.bytesSent
  | bytesReceived, m => m.bytesReceived
  | connectionErrors, m => m.connectionErrors

/-- What an entry weighs with a counter: one if it is of the kind that is counted, the size of its
message if bytes are counted. -/
def weight : Counter → Entry → Nat
  | connectionsTotal, .established => 1
  | connectionsRejected, .rejected => 1
  | handshakesTotal, .attempted => 1
  | handshakesSuccess, .succeeded => 1
  | handshakesFailed, .failed => 1
  | messagesSent, .sent _ => 1
  | messagesReceived, .received _ => 1
  | bytesSent, .sent n => n.toNat
  | bytesReceived, .received n => n.toNat
  | connectionErrors, .errored => 1
  | _, _ => 0

/-- An entry raises a counter by what it weighs. -/
theorem of_record (k : Counter) (m : Metrics) (e : Entry) :
    k.of (m.record e) = k.of m + UInt64.ofNat (k.weight e) := by
  have hsize : ∀ n : UInt64, UInt64.ofNat n.toNat = n := fun n => UInt64.ofNat_toNat
  cases k <;> cases e <;>
    first | rfl | exact (UInt64.add_zero _).symm | exact congrArg (_ + ·) (hsize _).symm

/-- A counter that starts at zero holds the weight of all entries. -/
theorem of_recordAll (k : Counter) (es : List Entry) :
    (k.of (recordAll {} es)).toNat = (es.map k.weight).sum % 2 ^ 64 := by
  have hall := counter_recordAll (f := k.of) some some k.weight k.of_record {} es
  have hzero : k.of {} = 0 := by cases k <;> rfl
  rw [List.filterMap_some, hzero, UInt64.zero_add] at hall
  rw [hall, UInt64.toNat_ofNat']

/-- The order of the entries does not matter. -/
theorem of_recordAll_perm (k : Counter) {es es' : List Entry} (h : es'.Perm es) :
    k.of (recordAll {} es') = k.of (recordAll {} es) := by
  refine UInt64.toNat_inj.mp ?_
  rw [of_recordAll, of_recordAll, (h.map k.weight).sum_eq]

/-- The gauge and these counters are all there is. -/
theorem ext_of {m m' : Metrics} (h : ∀ k : Counter, k.of m = k.of m')
    (hgauge : m.connectionsActive = m'.connectionsActive) : m = m' := by
  cases m
  cases m'
  simp only [Metrics.mk.injEq]
  exact ⟨h .connectionsTotal, hgauge, h .connectionsRejected, h .handshakesTotal,
    h .handshakesSuccess, h .handshakesFailed, h .messagesSent, h .messagesReceived, h .bytesSent,
    h .bytesReceived, h .connectionErrors⟩

end Counter

/-! ### The gauge -/

/-- By how much the connections that were opened outnumber those that were closed. -/
def surplus (es : List Entry) : Int := es.count .established - es.count .closed

/-- The surpluses from some moment on, to the end; from the end on it is zero. -/
def surpluses (es : List Entry) : Set Int := {n | ∃ late, late <:+ es ∧ n = surplus late}

/-- What an entry adds to a surplus. -/
def Entry.rise : Entry → Int
  | .established => 1
  | .closed => -1
  | _ => 0

theorem surplus_concat (es : List Entry) (e : Entry) : surplus (es ++ [e]) = surplus es + e.rise := by
  cases e with
  | established | closed =>
    simp only [surplus, Entry.rise, List.count_append, List.count_singleton, reduceCtorEq, beq_iff_eq,
      if_true, if_false]
    omega
  | _ =>
    simp [surplus, Entry.rise, List.count_append]

/-- From every moment before an entry on, the surplus moves with the entry. -/
theorem isGreatest_surpluses_concat {es : List Entry} {n : Int} (h : IsGreatest (surpluses es) n)
    (e : Entry) : IsGreatest (surpluses (es ++ [e])) (max 0 (n + e.rise)) := by
  obtain ⟨⟨late, hlate, hn⟩, hmost⟩ := h
  -- A suffix of the longer list is empty, or a suffix of the shorter one with the entry behind it.
  constructor
  · rcases Int.le_total (n + e.rise) 0 with hneg | hpos
    · exact ⟨[], List.nil_suffix, Int.max_eq_left hneg⟩
    · refine ⟨late ++ [e], List.suffix_concat_iff.mpr (.inr ⟨late, rfl, hlate⟩), ?_⟩
      rw [Int.max_eq_right hpos, surplus_concat, hn]
  · rintro _ ⟨later, hlater, rfl⟩
    rcases List.suffix_concat_iff.mp hlater with rfl | ⟨early, rfl, hearly⟩
    · exact Int.le_max_left _ _
    · have hle := hmost ⟨early, hearly, rfl⟩
      rw [surplus_concat]
      omega

/-- The gauge moves with the surplus, but never below zero. -/
theorem toNat_connectionsActive_record {m : Metrics} {e : Entry}
    (hroom : (m.connectionsActive.toNat : Int) + e.rise < 2 ^ 64) :
    ((m.record e).connectionsActive.toNat : Int) = max 0 (m.connectionsActive.toNat + e.rise) := by
  have hone : (1 : UInt64).toNat = 1 := rfl
  cases e with
  | established =>
    show ((m.connectionsActive + 1).toNat : Int) = max 0 (m.connectionsActive.toNat + 1)
    rw [show Entry.rise .established = 1 from rfl] at hroom
    rw [UInt64.toNat_add, hone]
    omega
  | closed =>
    show ((if m.connectionsActive = 0 then 0 else m.connectionsActive - 1).toNat : Int) =
      max 0 ((m.connectionsActive.toNat : Int) + -1)
    by_cases hzero : m.connectionsActive = 0
    · rw [if_pos hzero, hzero]
      rfl
    · have hpos : m.connectionsActive.toNat ≠ 0 := fun h => hzero (UInt64.toNat_inj.mp h)
      have hle : (1 : UInt64) ≤ m.connectionsActive := by
        rw [UInt64.le_iff_toNat_le]
        omega
      rw [if_neg hzero, UInt64.toNat_sub_of_le _ _ hle]
      omega
  | _ =>
    show (m.connectionsActive.toNat : Int) = max 0 ((m.connectionsActive.toNat : Int) + 0)
    omega

/-- Openings outnumber closings by no more than all openings. -/
theorem le_count_of_isGreatest {es : List Entry} {n : Int} (h : IsGreatest (surpluses es) n) :
    n ≤ es.count .established := by
  obtain ⟨⟨late, hlate, rfl⟩, -⟩ := h
  have hcount := hlate.sublist.count_le .established
  unfold surplus
  omega

/-- The gauge holds the most by which openings outnumber closings from some moment on. -/
theorem isGreatest_surpluses {es : List Entry} (h : es.count .established < 2 ^ 64) :
    IsGreatest (surpluses es) ((recordAll {} es).connectionsActive.toNat : Int) := by
  -- From the back, because the entry that is recorded last stands at the end of every suffix.
  induction es using List.reverseRecOn with
  | nil =>
    refine ⟨⟨[], List.nil_suffix, rfl⟩, ?_⟩
    rintro _ ⟨late, hlate, rfl⟩
    rw [List.suffix_nil.mp hlate]
    exact Int.le_refl 0
  | append_singleton es e ih =>
    have hearlier : es.count .established ≤ (es ++ [e]).count .established :=
      (List.sublist_append_left es [e]).count_le _
    have hnext := isGreatest_surpluses_concat (ih (Nat.lt_of_le_of_lt hearlier h)) e
    have hroom := le_count_of_isGreatest hnext
    rwa [recordAll_concat, toNat_connectionsActive_record (by omega)]

/-! ### Any order -/

/-- **Whatever the order of the entries, a counter that only rises holds what they weigh; the gauge
holds the most by which openings outnumber closings from some moment on.**  Any threads take the turns;
if they take them in another order, nothing but the gauge is different.  At no time is the gauge above
the number of openings so far, so it never goes below zero and round, and it is the difference of all
openings and closings if at no time there were more closings than openings. -/
theorem turns_recordAll {τ : Type} (turns : List (τ × Entry)) :
    let es := turns.map Prod.snd
    (∀ k : Counter, (k.of (recordAll {} es)).toNat = (es.map k.weight).sum % 2 ^ 64) ∧
    (∀ turns' : List (τ × Entry), turns'.Perm turns →
      let m := recordAll {} (turns'.map Prod.snd)
      m = { recordAll {} es with connectionsActive := m.connectionsActive }) ∧
    (es.count .established < 2 ^ 64 →
      IsGreatest (surpluses es) ((recordAll {} es).connectionsActive.toNat : Int) ∧
      (∀ early, early <+: es →
        (recordAll {} early).connectionsActive.toNat ≤ early.count .established) ∧
      ((∀ early, early <+: es → early.count .closed ≤ early.count .established) →
        ((recordAll {} es).connectionsActive.toNat : Int) = surplus es)) := by
  intro es
  refine ⟨fun k => k.of_recordAll es, fun turns' hperm => ?_, fun hfew => ?_⟩
  · refine Counter.ext_of (fun k => ?_) rfl
    rw [k.of_recordAll_perm (hperm.map Prod.snd)]
    cases k <;> rfl
  have hfits : ∀ early, early <+: es → early.count .established < 2 ^ 64 := fun early hearly =>
    Nat.lt_of_le_of_lt (hearly.sublist.count_le _) hfew
  refine ⟨isGreatest_surpluses hfew, fun early hearly => ?_, fun hpaired => ?_⟩
  · exact Int.ofNat_le.mp (le_count_of_isGreatest (isGreatest_surpluses (hfits early hearly)))
  · have hgauged : Gauged es := ⟨hpaired, fun early hearly =>
      Nat.lt_of_lt_of_le (hfits early hearly) (Nat.le_add_left _ _)⟩
    have hbalance := hpaired es (List.prefix_refl es)
    rw [hgauged.connectionsActive_toNat, surplus]
    omega

/-- Two threads, and a closing before any opening: the gauge ends at one, although there were more
closings than openings.  The bytes written go once round. -/
theorem turns_recordAll_early_closing :
    let turns : List (Fin 2 × Entry) := [(0, .closed), (0, .established), (1, .sent 5),
      (1, .established), (1, .closed), (0, .closed), (1, .closed), (0, .established),
      (0, .sent 18446744073709551615)]
    let es := turns.map Prod.snd
    es.count .established < 2 ^ 64 ∧ IsGreatest (surpluses es) 1 ∧ surplus es = -1 ∧
      (recordAll {} es).bytesSent.toNat = 18446744073709551620 % 2 ^ 64 := by
  intro turns es
  have hfew : es.count .established < 2 ^ 64 := by decide
  obtain ⟨hcounters, -, hgauge⟩ := turns_recordAll turns
  exact ⟨hfew, (hgauge hfew).1, rfl, hcounters .bytesSent⟩

end Parley.Metrics
