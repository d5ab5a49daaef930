import Mathlib.Algebra.BigOperators.Group.Finset.Piecewise
import Mathlib.Algebra.Order.BigOperators.Group.Finset
import Parley.Proofs.Client.Lives
import Parley.Proofs.Connection.Tally
import Parley.Proofs.Server.Histories
import Parley.Proofs.Server.Mail
import Parley.Proofs.Server.Recording

/-!
# Parley.Proofs.Accounting — the counters account for whole runs

The counters of a server are the entries of its history (`Server.recorded_run`), and the history is made
of the runs of its connections (`Server.ran_run`).  So what one connection counts is summed over all of
them: each is in the gauge exactly while it is validating or open, and begins and ends one handshake at
most, after it was registered (`counters_account`).
-/

namespace Parley

namespace Server

variable {κ : Type}

/-! ### Sums over connections -/

/-- An event of a connection of which something is true. -/
def Event.tells (p : Connection.Event κ → Bool) : Event κ → Bool
  | .connection _ e => p e
  | _ => false

/-- What happened to the first `N` connections is counted connection by connection. -/
theorem countP_eq_sum {N : Nat} {es : List (Event κ)} (h : ∀ n, N ≤ n → eventsOf n es = [])
    (p : Connection.Event κ → Bool) :
    es.countP (Event.tells p) = ∑ n ∈ Finset.range N, (eventsOf n es).countP p := by
  induction es with
  | nil => simp [eventsOf]
  | cons e es ih =>
    have hsplit : ∀ n, eventsOf n (e :: es) = eventsOf n [e] ++ eventsOf n es := fun n =>
      eventsOf_append n [e] es
    have hrest : ∀ n, N ≤ n → eventsOf n es = [] := fun n hn => by
      have hall := h n hn
      rw [hsplit] at hall
      exact (List.append_eq_nil_iff.mp hall).2
    simp only [hsplit, List.countP_append, Finset.sum_add_distrib, ← ih hrest]
    rw [List.countP_cons, Nat.add_comm]
    congr 1
    cases e with
    | connection k e =>
      have hk : k < N := by
        by_contra hge
        have hall := h k (Nat.le_of_not_lt hge)
        rw [hsplit] at hall
        simp [eventsOf, Event.of?] at hall
      have hone : ∀ n, (eventsOf n [Event.connection k e]).countP p =
          if k = n then (if p e then 1 else 0) else 0 := by
        intro n
        have hof := eventsOf_connection (κ := κ) n k [e]
        rw [List.map_singleton] at hof
        rw [hof]
        split
        · exact List.countP_singleton
        · rfl
      simp only [hone, Finset.sum_ite_eq, Finset.mem_range, if_pos hk]
      rfl
    | _ => exact (Finset.sum_eq_zero fun _ _ => rfl).symm

/-- How often something was counted is how often each connection counted it. -/
theorem count_entries_eq_sum {N : Nat} {es : List (Event κ)} (h : ∀ n, N ≤ n → eventsOf n es = [])
    {x : Metrics.Entry} (hx : x ≠ .rejected) :
    (entries es).count x = ∑ n ∈ Finset.range N, Connection.countOf x (eventsOf n es) := by
  have hcount := countP_eq_sum h fun e => e.entry? == some x
  have hentry : ∀ {ε : Type} (entryOf : ε → Option Metrics.Entry) (es : List ε),
      (es.filterMap entryOf).count x = es.countP fun e => entryOf e == some x := by
    intro ε entryOf es
    rw [List.count, List.countP_filterMap]
    congr 1
    funext e
    cases entryOf e <;> simp
  rw [entries, hentry]
  refine Eq.trans ?_ (hcount.trans (Finset.sum_congr rfl fun n _ => (hentry _ _).symm))
  congr 1
  funext e
  cases e with
  | rejected n => simpa [Event.entry?, Event.tells] using Ne.symm hx
  | connection n e => rfl
  | _ => rfl

/-- A property of connections is counted by their numbers. -/
theorem countP_connections (p : Connection κ → Bool) (cs : List (Connection κ)) :
    cs.countP p = ∑ n ∈ Finset.range cs.length, if cs[n]?.any p then 1 else 0 := by
  induction cs using List.reverseRecOn with
  | nil => rfl
  | append_singleton cs c ih =>
    rw [List.length_append, List.length_singleton, Finset.sum_range_succ, List.countP_append,
      List.countP_singleton, List.getElem?_concat_length, ih]
    congr 1
    refine Finset.sum_congr rfl fun n hn => ?_
    rw [List.getElem?_append_left (Finset.mem_range.mp hn)]

/-! ### The gauge -/

theorem countOf_born (x : Metrics.Entry) (ces : List (Connection.Event κ)) :
    Connection.countOf x (.established :: ces) =
      (if x = .established then 1 else 0) + Connection.countOf x ces := by
  have hone : Connection.countOf (κ := κ) x [.established] = if x = .established then 1 else 0 := by
    by_cases hx : x = .established
    · rw [hx]
      rfl
    · rw [if_neg hx]
      exact List.count_eq_zero.mpr fun hmem => hx (List.mem_singleton.mp hmem)
  rw [← hone, ← Connection.countOf_append]
  rfl

variable [Kind κ] {s : Server κ} {br : Nat → List UInt8} {es : List (Event κ)}

/-- What was counted is the sum of what each connection counted. -/
theorem Ran.count_eq_sum (h : Ran s br es) {x : Metrics.Entry} (hx : x ≠ .rejected) :
    (entries es).count x =
      ∑ n ∈ Finset.range s.connections.length, Connection.countOf x (eventsOf n es) :=
  count_entries_eq_sum (fun n hn => (h.blank n hn).2) hx

/-- A connection that was accepted was counted when it was, and is counted as closed once it is not
connected any more. -/
theorem Ran.counted (h : Ran s br es) {n : Nat} {c : Connection κ}
    (hn : s.connections[n]? = some c) :
    Connection.countOf .established (eventsOf n es) = 1 ∧
      Connection.countOf .closed (eventsOf n es) + (if c.isConnected then 1 else 0) = 1 := by
  obtain ⟨as, ces, hrun, -, hevents⟩ := h.run n c hn
  have hmarks := Connection.marks_run hrun
  rw [hevents, countOf_born, countOf_born, Connection.countOf_mark rfl, Connection.countOf_mark rfl,
    hmarks]
  cases c.isConnected with
  | true => exact ⟨rfl, rfl⟩
  | false => exact ⟨rfl, rfl⟩

/-- At every moment of a history a connection was closed only if it had been accepted. -/
theorem Ran.closed_le_established (h : Ran s br es) {q : List (Event κ)} (hq : q <+: es) (n : Nat) :
    Connection.countOf .closed (eventsOf n q) ≤ Connection.countOf .established (eventsOf n q) := by
  have hearlier : eventsOf n q <+: eventsOf n es := hq.filterMap _
  by_cases hlt : n < s.connections.length
  · have hn := List.getElem?_eq_getElem hlt
    obtain ⟨as, ces, -, -, hevents⟩ := h.run n _ hn
    have hclosed : Connection.countOf .closed (eventsOf n q) ≤ 1 :=
      ((hearlier.sublist.filterMap _).count_le _).trans
        (Nat.le_of_add_right_le (Nat.le_of_eq (h.counted hn).2))
    rw [hevents] at hearlier
    rcases List.prefix_cons_iff.mp hearlier with hnil | ⟨rest, hcons, -⟩
    · rw [hnil]
      exact Nat.le_refl 0
    · refine hclosed.trans ?_
      rw [hcons, countOf_born]
      exact Nat.le_add_right 1 _
  · rw [(h.blank n (Nat.le_of_not_lt hlt)).2] at hearlier
    rw [List.prefix_nil.mp hearlier]
    exact Nat.le_refl 0

theorem Ran.gauged (h : Ran s br es) (hfits : Metrics.Fits (entries es)) :
    Metrics.Gauged (entries es) := by
  refine ⟨fun p hp => ?_, hfits⟩
  obtain ⟨q, hq, rfl⟩ := List.prefix_filterMap_iff.mp hp
  have hblank : ∀ n, s.connections.length ≤ n → eventsOf n q = [] := fun n hn =>
    List.prefix_nil.mp ((h.blank n hn).2 ▸ hq.filterMap (Event.of? n))
  have hclosed := count_entries_eq_sum hblank (x := .closed) nofun
  have hestablished := count_entries_eq_sum hblank (x := .established) nofun
  rw [entries] at hclosed hestablished
  rw [hclosed, hestablished]
  exact Finset.sum_le_sum fun n _ => h.closed_le_established hq n

/-- As many connections were counted as were accepted, and all of them but those that are connected
have been counted as closed. -/
theorem Ran.count_entries (h : Ran s br es) :
    (entries es).count .established = s.connections.length ∧
      (entries es).count .closed + s.connections.countP (·.isConnected) = s.connections.length := by
  have hone : ∑ _n ∈ Finset.range s.connections.length, 1 = s.connections.length := by simp
  rw [h.count_eq_sum (x := .established) nofun, h.count_eq_sum (x := .closed) nofun,
    countP_connections, ← Finset.sum_add_distrib]
  refine ⟨Eq.trans (Finset.sum_congr rfl fun n hn => ?_) hone,
    Eq.trans (Finset.sum_congr rfl fun n hn => ?_) hone⟩
  · exact (h.counted (List.getElem?_eq_getElem (Finset.mem_range.mp hn))).1
  · rw [List.getElem?_eq_getElem (Finset.mem_range.mp hn)]
    exact (h.counted (List.getElem?_eq_getElem (Finset.mem_range.mp hn))).2

/-! ### Handshakes -/

/-- A connection that was accepted has tried one handshake at most, after it was registered, and no
handshake has ended that was not tried. -/
theorem Ran.handshakes (h : Ran s br es) (henlisted : Enlisted s es) {n : Nat}
    (hn : n < s.connections.length) :
    Connection.countOf .succeeded (eventsOf n es) + Connection.countOf .failed (eventsOf n es) ≤
        Connection.countOf .attempted (eventsOf n es) ∧
      Connection.countOf .attempted (eventsOf n es) ≤
        if n ∈ (registrations es).map (·.2) then 1 else 0 := by
  have hc := List.getElem?_eq_getElem hn
  obtain ⟨as, ces, hrun, -, hevents⟩ := h.run n _ hc
  obtain ⟨hattempted, hdecided⟩ := (Connection.Tally.nil (.accepted _ _) rfl).run hrun
  rw [hevents, countOf_born, countOf_born, countOf_born]
  simp only [reduceCtorEq, if_false, Nat.zero_add]
  refine ⟨Nat.le_of_add_right_le hdecided, ?_⟩
  refine hattempted.trans ?_
  by_cases habsent : s.connections[n].stage = .absent
  · rw [habsent]
    exact Nat.zero_le _
  · obtain ⟨id, hid⟩ := henlisted.begun n _ hc habsent
    rw [if_pos (List.mem_map.mpr ⟨_, hid, rfl⟩)]
    exact Connection.Stage.attempts_le_one _

/-- Handshakes are tried by registered connections, once, and end once at most. -/
theorem Ran.count_handshakes (h : Ran s br es) (henlisted : Enlisted s es) :
    (entries es).count .succeeded + (entries es).count .failed ≤ (entries es).count .attempted ∧
      (entries es).count .attempted ≤ (registrations es).length := by
  rw [h.count_eq_sum (x := .succeeded) nofun, h.count_eq_sum (x := .failed) nofun,
    h.count_eq_sum (x := .attempted) nofun, ← Finset.sum_add_distrib]
  refine ⟨Finset.sum_le_sum fun n hn => (h.handshakes henlisted (Finset.mem_range.mp hn)).1, ?_⟩
  calc ∑ n ∈ Finset.range s.connections.length, Connection.countOf .attempted (eventsOf n es)
      ≤ ∑ n ∈ Finset.range s.connections.length,
          if n ∈ (registrations es).map (·.2) then 1 else 0 :=
        Finset.sum_le_sum fun n hn => (h.handshakes henlisted (Finset.mem_range.mp hn)).2
    _ = ((Finset.range s.connections.length).filter
          (· ∈ (registrations es).map (·.2))).card := (Finset.card_filter _ _).symm
    _ ≤ ((registrations es).map (·.2)).toFinset.card :=
        Finset.card_le_card fun n hn => List.mem_toFinset.mpr (Finset.mem_filter.mp hn).2
    _ ≤ ((registrations es).map (·.2)).length := List.toFinset_card_le _
    _ = (registrations es).length := List.length_map _

/-! ### Messages -/

def Event.departed? : Event κ → Option (Nat × Message κ)
  | .connection n (.sent m) => some (n, m)
  | _ => none

/-- The messages that were written completely, with the connections they went out on. -/
def departed (es : List (Event κ)) : List (Nat × Message κ) := es.filterMap Event.departed?

omit [Kind κ] in
/-- Messages of one kind are counted twice, in number and in size. -/
theorem messages_recordAll {f g : Metrics → UInt64} {p : Event κ → Option (Nat × Message κ)}
    (h : ∀ m e, f (m.recordAll (Event.entry? e).toList) =
        f m + UInt64.ofNat ((p e).elim 0 fun _ => 1) ∧
      g (m.recordAll (Event.entry? e).toList) =
        g m + UInt64.ofNat ((p e).elim 0 fun d => 8 + d.2.body.length))
    (m : Metrics) (es : List (Event κ)) :
    f (m.recordAll (entries es)) = f m + UInt64.ofNat (es.filterMap p).length ∧
      g (m.recordAll (entries es)) =
        g m + UInt64.ofNat ((es.filterMap p).map fun d => 8 + d.2.body.length).sum := by
  refine ⟨?_, Metrics.counter_recordAll Event.entry? p _ (fun m e => (h m e).2) m es⟩
  have hnumber := Metrics.counter_recordAll Event.entry? p _ (fun m e => (h m e).1) m es
  rwa [List.map_const', List.sum_replicate_nat, Nat.mul_one] at hnumber

omit [Kind κ] in
theorem received_recordAll (m : Metrics) (es : List (Event κ)) :
    (m.recordAll (entries es)).messagesReceived =
        m.messagesReceived + UInt64.ofNat (arrived es).length ∧
      (m.recordAll (entries es)).bytesReceived =
        m.bytesReceived + UInt64.ofNat ((arrived es).map fun d => 8 + d.2.body.length).sum := by
  refine messages_recordAll (f := (·.messagesReceived)) (g := (·.bytesReceived)) (fun m e => ?_) m es
  have hnone : ∀ n : UInt64, n = n + UInt64.ofNat 0 := fun n => (UInt64.add_zero n).symm
  cases e with
  | connection n e => cases e <;> first | exact ⟨rfl, rfl⟩ | exact ⟨hnone _, hnone _⟩
  | _ => exact ⟨hnone _, hnone _⟩

omit [Kind κ] in
theorem sent_recordAll (m : Metrics) (es : List (Event κ)) :
    (m.recordAll (entries es)).messagesSent = m.messagesSent + UInt64.ofNat (departed es).length ∧
      (m.recordAll (entries es)).bytesSent =
        m.bytesSent + UInt64.ofNat ((departed es).map fun d => 8 + d.2.body.length).sum := by
  refine messages_recordAll (f := (·.messagesSent)) (g := (·.bytesSent)) (fun m e => ?_) m es
  have hnone : ∀ n : UInt64, n = n + UInt64.ofNat 0 := fun n => (UInt64.add_zero n).symm
  cases e with
  | connection n e => cases e <;> first | exact ⟨rfl, rfl⟩ | exact ⟨hnone _, hnone _⟩
  | _ => exact ⟨hnone _, hnone _⟩

omit [Kind κ] in
/-- On each connection they are those that it has sent. -/
theorem sent_eventsOf (n : Nat) (es : List (Event κ)) :
    Connection.sent (eventsOf n es) = ((departed es).filter (·.1 = n)).map (·.2) := by
  refine filterMap_eventsOf (fun k ce => ?_) (fun e a h => ?_) n es
  · cases ce <;> rfl
  · cases e <;> first | exact ⟨_, _, rfl⟩ | cases h

/-- What the connections have written behind the eight bytes of the handshake: the frames of the
messages that were written completely, and a part of one more at most. -/
theorem wrote_eventsOf {settings : ServerSettings} {transport : TransportSettings} {entropy : Source}
    {as : List (Action κ)} (hrun : (create settings transport entropy).run as = some (s, es))
    (n : Nat) :
    ∃ part, (Connection.wrote (eventsOf n es)).drop handshakeSize =
        (((departed es).filter (·.1 = n)).map (·.2)).flatMap Frame.bytes ++ part ∧
      (part = [] ∨ ∃ m : Message κ, part <+: Frame.bytes m ∧ part ≠ Frame.bytes m) := by
  obtain ⟨br, hlives⟩ := lives_run hrun
  rw [← sent_eventsOf]
  by_cases hlt : n < s.connections.length
  · obtain ⟨part, hframes, hpart⟩ := (hlives.sound n _ (List.getElem?_eq_getElem hlt)).hasWritten.cut
    refine ⟨part, hframes, hpart.imp (·.1) ?_⟩
    rintro ⟨m, unsent, -, hbegun⟩
    exact ⟨m, hbegun.isPrefix, hbegun.part_ne⟩
  · rw [(hlives.blank n (Nat.le_of_not_lt hlt)).2]
    exact ⟨[], rfl, .inl rfl⟩

/-! ### The account -/

/-- What the counters of a server say that was `s₀`, where `first` was the first number to assign, `as`
was done and `es` happened.  Counters hold numbers modulo `2 ^ 64`. -/
structure Account (first : UInt64) (s₀ : Server κ) (as : List (Action κ)) (s : Server κ)
    (es : List (Event κ)) : Prop where
  /-- They hold what happened, and nothing else. -/
  recorded : s.metrics = Metrics.recordAll {} (entries es)
  /-- Every socket that is accepted is counted, and has a connection. -/
  total : s.metrics.connectionsTotal = UInt64.ofNat (accepts as)
  accepted : s.connections.length = accepts as
  /-- The gauge holds the number of connections that are validating or open, -/
  active : Metrics.Fits (entries es) → s.metrics.connectionsActive =
    UInt64.ofNat (s.connections.countP fun c => c.phase = .validating ∨ c.phase = .opened)
  /-- and it never stood at zero when one of them was closed, -/
  unsaturated : Metrics.Fits (entries es) → ∀ pre post, entries es = pre ++ .closed :: post →
    (Metrics.recordAll {} pre).connectionsActive ≠ 0
  /-- unless `2 ^ 64` of them were open at once, for which as many sockets must be accepted. -/
  fits : accepts as < 2 ^ 64 → Metrics.Fits (entries es)
  /-- The sockets are counted that the hook did not approve of or for which no id was left. -/
  rejected : s.metrics.connectionsRejected = UInt64.ofNat (refusals first as)
  attempted : s.metrics.handshakesTotal = UInt64.ofNat ((entries es).count .attempted)
  succeeded : s.metrics.handshakesSuccess = UInt64.ofNat ((entries es).count .succeeded)
  failed : s.metrics.handshakesFailed = UInt64.ofNat ((entries es).count .failed)
  /-- No handshake ends that was not tried, and none is tried on a socket that was turned away. -/
  decided_le : (entries es).count .succeeded + (entries es).count .failed ≤
    (entries es).count .attempted
  attempted_le : (entries es).count .attempted + refusals first as ≤ accepts as
  received : s.metrics.messagesReceived = UInt64.ofNat (arrived es).length
  bytesReceived : s.metrics.bytesReceived =
    UInt64.ofNat ((arrived es).map fun d => 8 + d.2.body.length).sum
  /-- The messages received are all that were ever put into the inbound queue, but for those that the
  application put there itself. -/
  pushed : ((s₀.mail as).map (·.message)).Perm ((arrived es).map (·.2) ++ as.flatMap Action.injected)
  /-- They wait there, but for those from the front that updates handled or the application took. -/
  waiting : ∃ gone, s₀.mail as = gone ++ s.inbound.toList ∧ Removes as es gone
  sent : s.metrics.messagesSent = UInt64.ofNat (departed es).length
  bytesSent : s.metrics.bytesSent = UInt64.ofNat ((departed es).map fun d => 8 + d.2.body.length).sum
  /-- The messages sent are those of which the whole frame was written, on each connection. -/
  written : ∀ n, ∃ part, (Connection.wrote (eventsOf n es)).drop handshakeSize =
      (((departed es).filter (·.1 = n)).map (·.2)).flatMap Frame.bytes ++ part ∧
    (part = [] ∨ ∃ m : Message κ, part <+: Frame.bytes m ∧ part ≠ Frame.bytes m)

theorem account_run {settings : ServerSettings} {transport : TransportSettings} {entropy : Source}
    {as : List (Action κ)} (hrun : (create settings transport entropy).run as = some (s, es)) :
    Account settings.firstClientId.toUInt64 (create settings transport entropy) as s es := by
  have hran := ran_run hrun
  have hrecorded := recorded_run hrun
  obtain ⟨hlength, hregistered, hrejected⟩ := accepts_run hrun
  obtain ⟨hestablished, hclosed⟩ := hran.count_entries
  obtain ⟨hdecided, hattempted⟩ := hran.count_handshakes (.run hrun)
  have haccepts : s.connections.length = accepts as := hlength.trans (Nat.zero_add _)
  have hcount : ∀ (f : Metrics → UInt64) (x : Metrics.Entry), f {} = 0 →
      (∀ m e, f (m.record e) = f m + UInt64.ofNat (if e = x then 1 else 0)) →
        f s.metrics = UInt64.ofNat ((entries es).count x) := by
    intro f x hzero hstep
    rw [hrecorded, Metrics.count_recordAll hstep, hzero, UInt64.zero_add]
  obtain ⟨hreceived, hreceivedBytes⟩ := received_recordAll {} es
  obtain ⟨hsent, hsentBytes⟩ := sent_recordAll {} es
  rw [← hrecorded] at hreceived hreceivedBytes hsent hsentBytes
  refine
    { recorded := hrecorded
      total := ?_
      accepted := haccepts
      active := fun hfits => ?_
      unsaturated := fun hfits pre post => (hran.gauged hfits).connectionsActive_ne_zero
      fits := fun hfew p hp => ?_
      rejected := hrejected.trans (UInt64.zero_add _)
      attempted := ?_
      succeeded := ?_
      failed := ?_
      decided_le := hdecided
      attempted_le := (Nat.add_le_add_right hattempted _).trans (Nat.le_of_eq hregistered)
      received := hreceived.trans (UInt64.zero_add _)
      bytesReceived := hreceivedBytes.trans (UInt64.zero_add _)
      pushed := pushed_run hrun
      waiting := waiting_run hrun
      sent := hsent.trans (UInt64.zero_add _)
      bytesSent := hsentBytes.trans (UInt64.zero_add _)
      written := wrote_eventsOf hrun }
  · rw [hcount (·.connectionsTotal) .established rfl, hestablished, haccepts]
    intro m e
    cases e <;> first | rfl | exact (UInt64.add_zero _).symm
  · have hgauge := (hran.gauged hfits).connectionsActive_toNat
    have hlive : (s.connections.countP fun c => c.phase = .validating ∨ c.phase = .opened) =
        s.connections.countP (·.isConnected) :=
      List.countP_congr fun c _ => by simp [Connection.isConnected, Phase.isLive_iff]
    rw [← hrecorded, hestablished, ← hclosed, Nat.add_sub_cancel_left, ← hlive] at hgauge
    rw [← hgauge, UInt64.ofNat_toNat]
  · have hle := hp.sublist.count_le .established
    rw [hestablished, haccepts] at hle
    omega
  · refine hcount (·.handshakesTotal) .attempted rfl fun m e => ?_
    cases e <;> first | rfl | exact (UInt64.add_zero _).symm
  · refine hcount (·.handshakesSuccess) .succeeded rfl fun m e => ?_
    cases e <;> first | rfl | exact (UInt64.add_zero _).symm
  · refine hcount (·.handshakesFailed) .failed rfl fun m e => ?_
    cases e <;> first | rfl | exact (UInt64.add_zero _).symm

end Server

/-! ### Clients -/

namespace Client

variable {κ : Type}

/-- The gauge holds one while the client is connected, and zero otherwise. -/
def Counted (c : Client κ) : Prop :=
  c.metrics.connectionsActive = if c.isConnected then 1 else 0

/-- The gauge goes with the connection. -/
theorem Counted.absorb {c : Client κ} (h : Counted c) {x : Connection κ}
    (hx : c.connection = some x) {o : Connection.Outcome κ}
    (hmarks : Connection.marks o.2 = Connection.marksBetween x.isConnected o.1.isConnected) :
    (c.absorb o).1.metrics.connectionsActive = if o.1.isConnected then 1 else 0 := by
  unfold Counted at h
  rw [metrics_absorb, Metrics.connectionsActive_recordAll rfl,
    show (Connection.entries o.2).filter _ = _ from hmarks]
  rw [isConnected, hx, Option.any_some] at h
  cases hbefore : x.isConnected with
  | false =>
    rw [hbefore] at h
    cases o.1.isConnected with
    | false => exact h
    | true => exact congrArg (· + 1) h
  | true =>
    rw [hbefore] at h
    cases o.1.isConnected with
    | false =>
      show (if c.metrics.connectionsActive = 0 then 0 else c.metrics.connectionsActive - 1) = _
      rw [h]
      rfl
    | true => exact h

theorem Counted.disconnect {c : Client κ} (h : Counted c) :
    Counted c.disconnect.1 ∧ c.disconnect.1.connection = none := by
  unfold Client.disconnect
  split
  · next hnone =>
    unfold Counted isConnected at *
    rw [hnone] at h
    exact ⟨by rw [h, hnone], hnone⟩
  · next x hx =>
    refine ⟨(h.absorb hx (Connection.marks_close x)).trans ?_, rfl⟩
    rw [Connection.isConnected_of_closed (Connection.phase_close x)]
    rfl

theorem Counted.connect {c : Client κ} (h : Counted c) (host : String) (portNumber : UInt16)
    (found : Except String (List Address)) : Counted (c.connect host portNumber found).1.1 := by
  obtain ⟨hcounted, hnone⟩ : Counted c.dropped.1 ∧ c.dropped.1.connection = none := by
    rcases c.dropped_cases with hleft | ⟨hnone, -, hstays⟩
    · rw [hleft]
      exact h.disconnect
    · rw [hstays]
      exact ⟨h, hnone⟩
  cases hfound : finds found with
  | false =>
    obtain ⟨e, he⟩ := c.connect_of_not_finds host portNumber hfound
    rw [he]
    exact hcounted
  | true =>
    rw [c.connect_of_finds host portNumber hfound]
    unfold Counted isConnected at *
    rw [hnone] at hcounted
    exact hcounted

variable [Kind κ]

theorem Counted.step {c : Client κ} (h : Counted c) {a : Action κ} {o : Outcome κ}
    (hstep : c.step a = some o) : Counted o.1 := by
  cases a with
  | connect host portNumber found => cases hstep; exact h.connect host portNumber found
  | disconnect => cases hstep; exact h.disconnect.1
  | send m =>
    cases hstep
    cases hx : c.connection with
    | none =>
      have hsame : c.send m = c := by
        rw [Client.send, hx, Option.map_none, ← hx]
      rw [hsame]
      exact h
    | some x =>
      have hlive : (c.send m).isConnected = c.isConnected := by
        have hphase : (x.send .application m).isConnected = x.isConnected := by
          unfold Connection.send
          split <;> rfl
        rw [isConnected, isConnected, Client.send, hx, Option.map_some, Option.any_some,
          Option.any_some, hphase]
      unfold Counted
      rw [hlive]
      exact h
  | take =>
    obtain ⟨p, -, rfl⟩ := Option.map_eq_some_iff.mp hstep
    exact h
  | connection a =>
    simp only [Client.step] at hstep
    split at hstep
    · cases hstep
    · obtain ⟨x, hx, hstep⟩ := Option.bind_eq_some_iff.mp hstep
      obtain ⟨o', hstep', rfl⟩ := Option.map_eq_some_iff.mp hstep
      refine (h.absorb hx (Connection.marks_step hstep')).trans ?_
      rw [isConnected, connection_absorb, Option.any_some]

theorem counted_run {settings : ClientSettings} {transport : TransportSettings}
    {as : List (Action κ)} {o : Outcome κ} (hrun : (create settings transport).run as = some o) :
    Counted o.1 := by
  have hcreated : Counted (create (κ := κ) settings transport) := rfl
  exact Run.all_invariant (I := Counted) (fun _ _ _ h hstep => h.step hstep) hcreated hrun

end Client

/-! ### Whole runs -/

/-- **The counters account for whole runs.**  After any run of a server its counters hold, modulo
`2 ^ 64`, how many sockets it accepted and turned away, how many handshakes were tried and how they
ended, and the numbers and sizes of the messages it received and sent; and the gauge holds how many of
its connections are validating or open (`Account`).  After any run of a client its gauge holds one if
the client is connected, and zero otherwise. -/
theorem counters_account {κ : Type} [Kind κ] {settings : ServerSettings} {clientSettings : ClientSettings}
    {transport clientTransport : TransportSettings} {entropy : Source}
    {as : List (Server.Action κ)} {s : Server κ} {es : List (Server.Event κ)}
    {bs : List (Client.Action κ)} {c : Client κ} {fs : List (Client.Event κ)}
    (hrun : (Server.create settings transport entropy).run as = some (s, es))
    (hclient : (Client.create clientSettings clientTransport).run bs = some (c, fs)) :
    Server.Account settings.firstClientId.toUInt64 (Server.create settings transport entropy) as s es ∧
      c.metrics.connectionsActive = if c.isConnected then 1 else 0 :=
  ⟨Server.account_run hrun, Client.counted_run hclient⟩

/-- The hook approves of the first socket, on which a message comes in and one goes out, and not of the
second, which it disconnects itself; a client finds the server and loses it again. -/
theorem counters_account_chat :
    let m : Message GameTag := ⟨⟨.chat, 2⟩, [7, 8], rfl⟩
    let as : List (Server.Action GameTag) :=
      [.start .loopback 0, .accept [] true, .connection 0 (.turn .ready),
        .connection 0 (.turn (.wrote 8)),
        .connection 0 (.arrive (Bytes.ofWord (scramble 0) ++ Frame.bytes m)),
        .connection 0 (.turn .ready), .connection 0 (.turn .ready), .connection 0 (.turn .ready),
        .connection 0 (.turn .ready), .messageClient 0 m, .connection 0 (.takeUp .application),
        .connection 0 (.chain 0 .ready), .connection 0 (.chain 0 (.wrote 10)),
        .accept [(1, .disconnect)] false]
    let bs : List (Client.Action GameTag) := [.connect "localhost" 0 (.ok [.v4 127 0 0 1]),
      .connection (.turn .ready), .connection (.expire .finished), .connection (.turn .ready)]
    ∃ s es c fs, (Server.create {} {} fun _ => 0).run as = some (s, es) ∧
      (Client.create {} {}).run bs = some (c, fs) ∧ s.metrics.connectionsTotal = 2 ∧
      s.metrics.connectionsActive = 1 ∧ s.metrics.connectionsRejected = 1 ∧
      s.metrics.handshakesTotal = 1 ∧ s.metrics.messagesReceived = 1 ∧
      s.metrics.bytesReceived = 10 ∧ s.metrics.messagesSent = 1 ∧ s.metrics.bytesSent = 10 ∧
      c.metrics.connectionsActive = 0 := by
  intro m as bs
  have hruns : ((Server.create {} {} fun _ => 0).run as).any (fun o =>
      o.1.connections.countP (fun c => c.phase = .validating ∨ c.phase = .opened) == 1 &&
        Server.arrived o.2 == [(0, m)] && Server.departed o.2 == [(0, m)] &&
        (Server.entries o.2).count .attempted == 1) = true := by
    decide +kernel
  have hclients : ((Client.create {} {}).run bs).any (fun o => !o.1.isConnected) = true := by
    decide +kernel
  obtain ⟨⟨s, es⟩, hrun, hlast⟩ := (Option.any_eq_true _ _).mp hruns
  obtain ⟨⟨c, fs⟩, hclient, hleft⟩ := (Option.any_eq_true _ _).mp hclients
  simp only [Bool.and_eq_true, beq_iff_eq, Bool.not_eq_true'] at hlast hleft
  obtain ⟨⟨⟨hlive, harrived⟩, hdeparted⟩, hattempted⟩ := hlast
  obtain ⟨haccount, hgauge⟩ := counters_account hrun hclient
  refine ⟨s, es, c, fs, hrun, hclient, haccount.total, ?_, haccount.rejected, ?_, ?_, ?_, ?_, ?_, ?_⟩
  · rw [haccount.active (haccount.fits (by decide)), hlive]
    rfl
  · rw [haccount.attempted, hattempted]
    rfl
  · rw [haccount.received, harrived]
    rfl
  · rw [haccount.bytesReceived, harrived]
    rfl
  · rw [haccount.sent, hdeparted]
    rfl
  · rw [haccount.bytesSent, hdeparted]
    rfl
  · rw [hgauge, hleft]
    rfl

end Parley
