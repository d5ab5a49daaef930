import Mathlib.Algebra.Group.Nat.Defs
import Mathlib.Data.List.Pairwise
import Parley.Proofs.Server.Lives

/-!
# Parley.Proofs.Server.Delivery — the handler is told of the messages as they came in

As long as the counter of ids has not gone all the way round, every id is given to one connection and
every connection has one id at most (`Numbered`).  So of each connection the messages the handler was
told of, and behind them those that still wait in the inbound queue, are the messages the connection
has read (`Dispatched`); once the server has forgotten a connection, what it still reads is dropped.
A connection that is not closed stays registered (`Retained`) and so is not forgotten.
-/

namespace Parley.Server

variable {κ : Type}

/-- The messages of a queue that came in under an id. -/
def queued (id : UInt32) (ls : List (Letter κ)) : List (Message κ) :=
  ls.filterMap fun l => if l.origin = some id then some l.message else none

theorem queued_append (id : UInt32) (ls ks : List (Letter κ)) :
    queued id (ls ++ ks) = queued id ls ++ queued id ks := List.filterMap_append

theorem queued_cons_of_ne {id : UInt32} {l : Letter κ} (h : l.origin ≠ some id)
    (ls : List (Letter κ)) : queued id (l :: ls) = queued id ls := by
  simp [queued, h]

theorem queued_cons_self {id : UInt32} {l : Letter κ} (h : l.origin = some id)
    (ls : List (Letter κ)) : queued id (l :: ls) = l.message :: queued id ls := by
  simp [queued, h]

theorem queued_letters (id x : UInt32) (ms : List (Message κ)) :
    queued id (ms.map fun m => ⟨some x, m⟩) = if x = id then ms else [] := by
  induction ms with
  | nil => simp [queued]
  | cons m ms ih =>
    rw [List.map_cons]
    by_cases hx : x = id
    · rw [if_pos hx] at ih ⊢
      rw [queued_cons_self (by simp [hx]), ih]
    · rw [if_neg hx] at ih ⊢
      rw [queued_cons_of_ne (by simpa using hx), ih]

/-- A letter whose sender is found came in under the id of that connection. -/
theorem exists_of_senderOf {v : Core κ} {l : Letter κ} {n : Nat} (h : v.senderOf l = some n) :
    ∃ id, l.origin = some id ∧ ((id, n) ∈ v.registry.entries ∨ (id, n) ∈ v.retired.entries) := by
  obtain ⟨id, hid, hfind⟩ := Option.bind_eq_some_iff.mp h
  exact ⟨id, hid, Registry.mem_of_find?_or hfind⟩

/-! ### Ids -/

section Ids

variable {v v' : Core κ} {b b' : Bool} {es es' : List (Event κ)} {first : Nat}

/-- Connection `n` has the id it was registered under, or it has none and no main task. -/
def Named (es : List (Event κ)) (n : Nat) (c : Connection κ) : Prop :=
  (c.id = 0 ∧ c.stage = .absent) ∨ (c.id, n) ∈ registrations es

/-- The ids given out, of which the first was to be `first`, are in order. -/
structure Numbered (v : Core κ) (first : Nat) (b : Bool) (es : List (Event κ)) : Prop where
  named : ∀ (n : Nat) (c : Connection κ), v.connections[n]? = some c → Named es n c
  entered : ∀ e, e ∈ v.registry.entries ∨ e ∈ v.retired.entries → e ∈ registrations es
  apart : (registrations es).Pairwise fun d e => d.1 ≠ e.1 ∧ d.2 ≠ e.2
  /-- At most one id per connection has been used up, and only ids below the next one. -/
  counted : ∃ k, k + b.toNat ≤ v.connections.length ∧ v.nextId = UInt64.ofNat (first + k) ∧
    ∀ e ∈ registrations es,
      first ≤ e.1.toNat ∧ e.1.toNat < first + k ∧ e.2 + b.toNat < v.connections.length

namespace Numbered

theorem eq_of_fst (h : Numbered v first b es) {d e : Registry.Entry} (hd : d ∈ registrations es)
    (he : e ∈ registrations es) (heq : d.1 = e.1) : d = e := by
  by_contra hne
  have hsymm : Std.Symm fun d e : Registry.Entry => d.1 ≠ e.1 := ⟨fun _ _ => Ne.symm⟩
  have hpair : (registrations es).Pairwise fun d e => d.1 ≠ e.1 := h.apart.imp And.left
  exact hpair.forall hd he hne heq

theorem eq_of_snd (h : Numbered v first b es) {d e : Registry.Entry} (hd : d ∈ registrations es)
    (he : e ∈ registrations es) (heq : d.2 = e.2) : d = e := by
  by_contra hne
  have hsymm : Std.Symm fun d e : Registry.Entry => d.2 ≠ e.2 := ⟨fun _ _ => Ne.symm⟩
  have hpair : (registrations es).Pairwise fun d e => d.2 ≠ e.2 := h.apart.imp And.right
  exact hpair.forall hd he hne heq

theorem create (settings : ServerSettings) (transport : TransportSettings) (entropy : Source) :
    Numbered (Server.create (κ := κ) settings transport entropy).core settings.firstClientId.toNat false
      [] where
  named n c hn := absurd (List.getElem?_eq_some_iff.mp hn).1 (Nat.not_lt_zero n)
  entered e he := he.elim nofun nofun
  apart := .nil
  counted := by
    refine ⟨0, Nat.le_refl 0, ?_, nofun⟩
    show settings.firstClientId.toUInt64 = _
    exact UInt64.toNat_inj.mp (by simp)

/-- An act that gives out no id. -/
theorem still (h : Numbered v first b es) (hes : registrations es' = [])
    (hnamed : ∀ (n : Nat) (c : Connection κ), v'.connections[n]? = some c → Named es n c)
    (hentered : ∀ e, e ∈ v'.registry.entries ∨ e ∈ v'.retired.entries →
      e ∈ v.registry.entries ∨ e ∈ v.retired.entries)
    (hcounted : ∃ k, k + b'.toNat ≤ v'.connections.length ∧ v'.nextId = UInt64.ofNat (first + k) ∧
      ∀ e ∈ registrations es,
        first ≤ e.1.toNat ∧ e.1.toNat < first + k ∧ e.2 + b'.toNat < v'.connections.length) :
    Numbered v' first b' (es ++ es') := by
  have hregs : registrations (es ++ es') = registrations es := by
    rw [registrations_append, hes, List.append_nil]
  refine ⟨?_, ?_, ?_, ?_⟩
  · unfold Named
    rw [hregs]
    exact hnamed
  · rw [hregs]
    exact fun e he => h.entered e (hentered e he)
  · rw [hregs]
    exact h.apart
  · rw [hregs]
    exact hcounted

/-- A connection makes a step, and has no id afterwards that is not its own. -/
theorem connection (h : Numbered v first b es) {n : Nat} {c c' : Connection κ}
    {inbound : Deque (Letter κ)} (hn : v.connections[n]? = some c) (hes : registrations es' = [])
    (hid : Named es n c') :
    Numbered { v with connections := v.connections.set n c', inbound := inbound } first b
      (es ++ es') := by
  refine h.still hes ?_ (fun e he => he) ?_
  · intro k d hk
    by_cases hkn : k = n
    · subst hkn
      rw [List.getElem?_set_self (List.getElem?_eq_some_iff.mp hn).1] at hk
      cases hk
      exact hid
    · rw [List.getElem?_set_ne (Ne.symm hkn)] at hk
      exact h.named k d hk
  · obtain ⟨k, hk⟩ := h.counted
    refine ⟨k, ?_⟩
    rw [List.length_set]
    exact hk

/-- There is another connection, which has no id and no main task yet. -/
theorem appear (h : Numbered v first false es) {c : Connection κ}
    (hc : c.id = 0 ∧ c.stage = .absent) (hes : registrations es' = []) :
    Numbered { v with connections := v.connections ++ [c] } first true (es ++ es') := by
  refine h.still hes ?_ (fun e he => he) ?_
  · intro n d hn
    by_cases hlt : n < v.connections.length
    · rw [List.getElem?_append_left hlt] at hn
      exact h.named n d hn
    · rw [List.getElem?_append_right (by omega)] at hn
      rw [List.mem_singleton.mp (List.mem_of_getElem? hn)]
      exact .inl hc
  · obtain ⟨k, hk, hnext, hbelow⟩ := h.counted
    rw [List.length_append, List.length_singleton]
    refine ⟨k, Nat.succ_le_succ hk, hnext, fun e he => ?_⟩
    obtain ⟨habove, hlt, hsnd⟩ := hbelow e he
    exact ⟨habove, hlt, Nat.succ_lt_succ hsnd⟩

/-- The next id is above all others, and the last connection has none. -/
theorem next (h : Numbered v first true es) {n : Nat} (hlast : n + 1 = v.connections.length)
    (hroom : v.nextId.toNat < UInt32.size) (hbound : first + v.connections.length ≤ 2 ^ 64) :
    ∃ k, k + 1 ≤ v.connections.length ∧ v.nextId = UInt64.ofNat (first + k) ∧
      v.nextId.toUInt32.toNat = first + k ∧
      ∀ e ∈ registrations es, first ≤ e.1.toNat ∧ e.1.toNat < first + k ∧ e.2 < n := by
  obtain ⟨k, hk, hnext, hbelow⟩ := h.counted
  have hk' : k + 1 ≤ v.connections.length := hk
  have htoNat : v.nextId.toNat = first + k := by
    rw [hnext, UInt64.toNat_ofNat']
    exact Nat.mod_eq_of_lt (by omega)
  refine ⟨k, hk, hnext, ?_, fun e he => ?_⟩
  · rw [UInt64.toNat_toUInt32, htoNat]
    exact Nat.mod_eq_of_lt (by rw [← htoNat]; exact hroom)
  · obtain ⟨habove, hlt, hsnd⟩ := hbelow e he
    have hsnd' : e.2 + 1 < v.connections.length := hsnd
    exact ⟨habove, hlt, by omega⟩

theorem ne_of_fresh (h : Numbered v first true es) {n : Nat} (hlast : n + 1 = v.connections.length)
    (hroom : v.nextId.toNat < UInt32.size) (hbound : first + v.connections.length ≤ 2 ^ 64)
    {e : Registry.Entry} (he : e ∈ registrations es) : e.1 ≠ v.nextId.toUInt32 ∧ e.2 ≠ n := by
  obtain ⟨k, -, -, hid, hbelow⟩ := h.next hlast hroom hbound
  obtain ⟨-, hlt, hsnd⟩ := hbelow e he
  refine ⟨fun heq => ?_, Nat.ne_of_lt hsnd⟩
  rw [heq, hid] at hlt
  exact Nat.lt_irrefl _ hlt

/-- The next id goes to the last connection. -/
theorem register (h : Numbered v first true es) {n : Nat} (hlast : n + 1 = v.connections.length)
    (hroom : v.nextId.toNat < UInt32.size) (hbound : first + v.connections.length ≤ 2 ^ 64) :
    Numbered { v with
        nextId := v.nextId + 1
        registry := v.registry.insert v.nextId.toUInt32 n } first false
      (es ++ [.registered n v.nextId.toUInt32]) := by
  obtain ⟨k, hk, hnext, hid, hbelow⟩ := h.next hlast hroom hbound
  have hregs : registrations (es ++ [.registered n v.nextId.toUInt32]) =
      registrations es ++ [(v.nextId.toUInt32, n)] := registrations_append _ _
  refine ⟨?_, ?_, ?_, k + 1, hk, ?_, ?_⟩
  · unfold Named
    rw [hregs]
    exact fun m c hm => (h.named m c hm).imp_right (List.mem_append_left _)
  · rw [hregs]
    rintro e (he | he)
    · rcases Registry.of_mem_insert he with rfl | he
      · exact List.mem_append_right _ List.mem_cons_self
      · exact List.mem_append_left _ (h.entered e (.inl he))
    · exact List.mem_append_left _ (h.entered e (.inr he))
  · rw [hregs]
    refine List.pairwise_append.mpr ⟨h.apart, List.pairwise_singleton _ _, fun d hd e he => ?_⟩
    rw [List.mem_singleton.mp he]
    exact h.ne_of_fresh hlast hroom hbound hd
  · show v.nextId + 1 = _
    rw [hnext, ← Nat.add_assoc, UInt64.ofNat_add (first + k) 1]
    rfl
  · rw [hregs]
    intro e he
    rcases List.mem_append.mp he with he | he
    · obtain ⟨habove, hlt, hsnd⟩ := hbelow e he
      exact ⟨habove, by omega, show e.2 + 0 < v.connections.length by omega⟩
    · rw [List.mem_singleton.mp he]
      refine ⟨?_, ?_, show n + 0 < v.connections.length by omega⟩
      · rw [hid]
        exact Nat.le_add_right _ _
      · rw [hid]
        exact Nat.lt_succ_self _

/-- The last connection gets no id, although one may be used up. -/
theorem turnAway (h : Numbered v first true es) {next : UInt64}
    (hnext : next = v.nextId ∨ next = v.nextId + 1) :
    Numbered { v with nextId := next } first false (es ++ []) := by
  obtain ⟨k, hk, hv, hbelow⟩ := h.counted
  have hk' : k + 1 ≤ v.connections.length := hk
  obtain ⟨j, hkj, hj, hnextId⟩ : ∃ j, k ≤ j ∧ j ≤ v.connections.length ∧
      next = UInt64.ofNat (first + j) := by
    rcases hnext with rfl | rfl
    · exact ⟨k, Nat.le_refl k, by omega, hv⟩
    · refine ⟨k + 1, Nat.le_succ k, hk', ?_⟩
      rw [hv, ← Nat.add_assoc, UInt64.ofNat_add (first + k) 1]
      rfl
  refine h.still rfl h.named (fun e he => he) ⟨j, hj, hnextId, fun e he => ?_⟩
  obtain ⟨habove, hlt, hsnd⟩ := hbelow e he
  have hsnd' : e.2 + 1 < v.connections.length := hsnd
  exact ⟨habove, by omega, show e.2 + 0 < v.connections.length by omega⟩

/-- No id is zero, if the first one is not. -/
theorem ne_zero (h : Numbered v first b es) (hfirst : 1 ≤ first) {e : Registry.Entry}
    (he : e ∈ registrations es) : e.1 ≠ 0 := by
  intro hzero
  obtain ⟨k, -, -, hbelow⟩ := h.counted
  have hle := (hbelow e he).1
  rw [hzero] at hle
  exact absurd (hfirst.trans hle) (by decide)

/-- The connection with an id that a closed connection has is closed, unless the id is zero. -/
theorem closed_of_hasClosed {s : Server κ} (h : Numbered s.core first b es) {id : UInt32} {n : Nat}
    (hzero : id ≠ 0) (hid : (id, n) ∈ registrations es) (hclosed : s.HasClosed id) :
    s.Closed n := by
  obtain ⟨m, c, hm, hphase, rfl⟩ := hclosed
  rcases h.named m c hm with ⟨hnone, -⟩ | hnamed
  · exact absurd hnone hzero
  · obtain rfl : m = n := congrArg Prod.snd (h.eq_of_fst hnamed hid rfl)
    exact ⟨c, hm, hphase⟩

end Numbered

end Ids

/-! ### Letters -/

section Letters

open Connection (received)
open Registry (Known)

variable {v v' : Core κ} {b : Bool} {es es' : List (Event κ)} {first : Nat}

/-- The letters and the deliveries are those of the messages read. -/
structure Dispatched (v : Core κ) (es : List (Event κ)) : Prop where
  letters : ∀ l ∈ v.inbound.toList, ∃ e ∈ registrations es, l.origin = some e.1
  undelivered : ∀ n, (∀ id, (id, n) ∉ registrations es) → delivered n es = []
  known : ∀ id n, (id, n) ∈ registrations es → Known v.registry v.retired id →
    delivered n es ++ queued id v.inbound.toList = received (eventsOf n es)
  /-- The server no longer knows the connection, and drops what it still reads. -/
  forgotten : ∀ id n, (id, n) ∈ registrations es → ¬Known v.registry v.retired id →
    delivered n es <+: received (eventsOf n es)

namespace Dispatched

/-- The handler is told of the messages of a connection in the order they were read. -/
theorem delivered_isPrefix (h : Dispatched v es) (n : Nat) :
    delivered n es <+: received (eventsOf n es) := by
  by_cases hun : ∀ id, (id, n) ∉ registrations es
  · rw [h.undelivered n hun]
    exact List.nil_prefix
  · obtain ⟨id, hid⟩ := not_forall.mp hun
    have hreg := not_not.mp hid
    by_cases hknown : Known v.registry v.retired id
    · exact ⟨_, h.known id n hreg hknown⟩
    · exact h.forgotten id n hreg hknown

/-- An act that queues, delivers and registers nothing. -/
theorem still (h : Dispatched v es) (hregs : registrations es' = [])
    (hdelivered : ∀ n, delivered n es' = []) (hreceived : ∀ n, received (eventsOf n es') = [])
    (hinbound : v'.inbound.toList = v.inbound.toList)
    (hknown : ∀ id, Known v'.registry v'.retired id ↔ Known v.registry v.retired id) :
    Dispatched v' (es ++ es') := by
  refine ⟨?_, fun n => ?_, fun id n => ?_, fun id n => ?_⟩
  · rw [registrations_append, hregs, List.append_nil, hinbound]
    exact h.letters
  · rw [registrations_append, hregs, List.append_nil, delivered_append, hdelivered,
      List.append_nil]
    exact h.undelivered n
  · rw [registrations_append, hregs, List.append_nil, delivered_append, hdelivered,
      List.append_nil, eventsOf_append, Connection.received_append, hreceived, List.append_nil,
      hinbound, hknown]
    exact h.known id n
  · rw [registrations_append, hregs, List.append_nil, delivered_append, hdelivered,
      List.append_nil, eventsOf_append, Connection.received_append, hreceived, List.append_nil,
      hknown]
    exact h.forgotten id n

/-- Connection `n` reads messages, which are queued under its id. -/
theorem connection (h : Dispatched v es) (hnum : Numbered v first b es) {n : Nat} {x : UInt32}
    {ces : List (Connection.Event κ)} {conns : List (Connection κ)}
    (hreg : received ces ≠ [] → (x, n) ∈ registrations es) :
    Dispatched { v with
        connections := conns
        inbound := enqueueLetters x (received ces) v.inbound }
      (es ++ ces.map (.connection n)) := by
  by_cases hnone : received ces = []
  · have hquiet : ∀ k, received (eventsOf k (ces.map (Event.connection n))) = [] := by
      intro k
      rw [eventsOf_connection]
      split
      · exact hnone
      · rfl
    refine h.still (registrations_connection n ces) (fun k => delivered_connection k n ces) hquiet
      ?_ (fun _ => Iff.rfl)
    rw [hnone]
    rfl
  have hx := hreg hnone
  have hsame : ∀ id k, (id, k) ∈ registrations es → (x = id ↔ n = k) := by
    intro id k hid
    constructor
    · intro heq
      exact congrArg Prod.snd (hnum.eq_of_fst hx hid heq)
    · intro heq
      exact congrArg Prod.fst (hnum.eq_of_snd hx hid heq)
  have hregs : registrations (es ++ ces.map (Event.connection n)) = registrations es := by
    rw [registrations_append, registrations_connection, List.append_nil]
  have hdelivered : ∀ k, delivered k (es ++ ces.map (Event.connection n)) = delivered k es := by
    intro k
    rw [delivered_append, delivered_connection, List.append_nil]
  refine ⟨?_, ?_, ?_, ?_⟩
  · rw [hregs, toList_enqueueLetters]
    intro l hl
    rcases List.mem_append.mp hl with hl | hl
    · exact h.letters l hl
    · obtain ⟨m, -, rfl⟩ := List.mem_map.mp hl
      exact ⟨(x, n), hx, rfl⟩
  · rw [hregs]
    intro k hun
    rw [hdelivered]
    exact h.undelivered k hun
  · rw [hregs]
    intro id k hid hknown
    rw [hdelivered, toList_enqueueLetters, queued_append, queued_letters, ← List.append_assoc,
      h.known id k hid hknown, eventsOf_append, Connection.received_append, eventsOf_connection]
    simp only [hsame id k hid]
    split
    · rfl
    · rfl
  · rw [hregs]
    intro id k hid hunknown
    rw [hdelivered, eventsOf_append, Connection.received_append]
    exact (h.forgotten id k hid hunknown).trans (List.prefix_append _ _)

/-- A new id is given to a connection that has read nothing. -/
theorem register (h : Dispatched v es) {id : UInt32} {n : Nat} {next : UInt64}
    (hfresh : ∀ e ∈ registrations es, e.1 ≠ id ∧ e.2 ≠ n)
    (hunread : received (eventsOf n es) = []) :
    Dispatched { v with nextId := next, registry := v.registry.insert id n }
      (es ++ [.registered n id]) := by
  have hregs : registrations (es ++ [.registered n id]) = registrations es ++ [(id, n)] :=
    registrations_append _ _
  have hdelivered : ∀ k, delivered k (es ++ [.registered n id]) = delivered k es := by
    intro k
    rw [delivered_append]
    exact List.append_nil _
  have hevents : ∀ k, eventsOf k (es ++ [.registered n id]) = eventsOf k es := by
    intro k
    rw [eventsOf_append]
    exact List.append_nil _
  have hun : ∀ x, (x, n) ∉ registrations es := fun x hx => (hfresh _ hx).2 rfl
  have hnone : queued id v.inbound.toList = [] := by
    refine List.filterMap_eq_nil_iff.mpr fun l hl => if_neg fun hid => ?_
    obtain ⟨e, he, horigin⟩ := h.letters l hl
    exact (hfresh e he).1 (Option.some.inj (horigin.symm.trans hid))
  refine ⟨?_, ?_, ?_, ?_⟩
  · rw [hregs]
    intro l hl
    obtain ⟨e, he, horigin⟩ := h.letters l hl
    exact ⟨e, List.mem_append_left _ he, horigin⟩
  · rw [hregs]
    intro k hk
    rw [hdelivered]
    exact h.undelivered k fun x hx => hk x (List.mem_append_left _ hx)
  · rw [hregs]
    intro x k hx hknown
    rw [hdelivered, hevents]
    rcases List.mem_append.mp hx with hx | hx
    · exact h.known x k hx ((Registry.known_insert_iff.mp hknown).resolve_left (hfresh _ hx).1)
    · cases List.mem_singleton.mp hx
      rw [h.undelivered n hun, hnone, hunread]
      rfl
  · rw [hregs]
    intro x k hx hunknown
    rw [hdelivered, hevents]
    rcases List.mem_append.mp hx with hx | hx
    · exact h.forgotten x k hx fun hknown => hunknown (Registry.known_insert_iff.mpr (.inr hknown))
    · cases List.mem_singleton.mp hx
      exact absurd (Registry.known_insert_iff.mpr (.inl rfl)) hunknown

/-- The first letter is delivered. -/
theorem deliver (h : Dispatched v es) (hnum : Numbered v first b es) {l : Letter κ}
    {rest : Deque (Letter κ)} {n : Nat} (hpop : v.inbound.popFront? = some (l, rest))
    (hsender : v.senderOf l = some n) :
    Dispatched { v with inbound := rest } (es ++ [.delivered n l.message]) := by
  have hlist := Deque.toList_of_popFront? hpop
  obtain ⟨id, horigin, hentry⟩ := exists_of_senderOf hsender
  have hid := hnum.entered (id, n) hentry
  have hregs : registrations (es ++ [.delivered n l.message]) = registrations es := by
    rw [registrations_append]
    exact List.append_nil _
  have hevents : ∀ k, eventsOf k (es ++ [.delivered n l.message]) = eventsOf k es := by
    intro k
    rw [eventsOf_append]
    exact List.append_nil _
  have hother : ∀ k, n ≠ k → delivered k (es ++ [.delivered n l.message]) = delivered k es := by
    intro k hk
    simp [delivered, Event.delivered?, hk]
  have hself : delivered n (es ++ [.delivered n l.message]) = delivered n es ++ [l.message] := by
    simp [delivered, Event.delivered?]
  refine ⟨?_, ?_, ?_, ?_⟩
  · rw [hregs]
    intro k hk
    exact h.letters k (by rw [hlist]; exact List.mem_cons_of_mem _ hk)
  · rw [hregs]
    intro k hun
    rw [hother k (by rintro rfl; exact hun id hid)]
    exact h.undelivered k hun
  · rw [hregs]
    intro x k hx hknown
    have hall := h.known x k hx hknown
    rw [hlist] at hall
    rw [hevents]
    by_cases hk : n = k
    · subst hk
      have hxid : x = id := congrArg Prod.fst (hnum.eq_of_snd hx hid rfl)
      rw [queued_cons_self (by rw [horigin, hxid])] at hall
      rw [hself, List.append_assoc]
      exact hall
    · have hne : l.origin ≠ some x := by
        intro heq
        have hxid : id = x := Option.some.inj (horigin.symm.trans heq)
        exact hk (congrArg Prod.snd (hnum.eq_of_fst hid hx hxid))
      rw [queued_cons_of_ne hne] at hall
      rw [hother k hk]
      exact hall
  · rw [hregs]
    intro x k hx hunknown
    rw [hevents]
    have hk : n ≠ k := by
      rintro rfl
      have hxid : x = id := congrArg Prod.fst (hnum.eq_of_snd hx hid rfl)
      exact hunknown ⟨n, hxid ▸ hentry⟩
    rw [hother k hk]
    exact h.forgotten x k hx hunknown

/-- The first letter is dropped, since nobody knows its sender. -/
theorem drop (h : Dispatched v es) {l : Letter κ} {rest : Deque (Letter κ)}
    (hpop : v.inbound.popFront? = some (l, rest)) (hsender : v.senderOf l = none) :
    Dispatched { v with inbound := rest } (es ++ [.dropped l]) := by
  have hlist := Deque.toList_of_popFront? hpop
  obtain ⟨e, he, horigin⟩ := h.letters l (by rw [hlist]; exact List.mem_cons_self)
  have hunknown : ¬Known v.registry v.retired e.1 := by
    rw [Core.senderOf, horigin] at hsender
    exact Registry.find?_or_eq_none_iff.mp hsender
  have hdropped : Dispatched { v with inbound := rest } es := by
    refine ⟨fun k hk => ?_, h.undelivered, fun x k hx hknown => ?_, h.forgotten⟩
    · exact h.letters k (by rw [hlist]; exact List.mem_cons_of_mem _ hk)
    · have hall := h.known x k hx hknown
      have hne : l.origin ≠ some x := by
        intro heq
        have hxe : e.1 = x := Option.some.inj (horigin.symm.trans heq)
        exact hunknown (hxe ▸ hknown)
      rwa [hlist, queued_cons_of_ne hne] at hall
  exact hdropped.still rfl (fun _ => rfl) (fun _ => rfl) rfl (fun _ => Iff.rfl)

/-- The connections set aside are forgotten, since no letter is left. -/
theorem forget (h : Dispatched v es) (hempty : v.inbound.isEmpty = true) :
    Dispatched { v with retired := .empty } (es ++ []) := by
  have hnone : v.inbound.toList = [] := (Deque.isEmpty_iff _).mp hempty
  rw [List.append_nil]
  refine ⟨h.letters, h.undelivered, fun id n hid hknown => ?_, fun id n hid _ =>
    h.delivered_isPrefix n⟩
  obtain ⟨k, hk⟩ := hknown
  exact h.known id n hid ⟨k, hk.imp_right fun hk => absurd hk List.not_mem_nil⟩

end Dispatched

end Letters

variable [Kind κ] {s s' : Server κ} {b b' : Bool} {br br' : Nat → List UInt8}
  {es es' : List (Event κ)} {first : Nat}

namespace Numbered

/-- A connection that makes a step keeps the id it has. -/
theorem named_step (h : Numbered s.core first b es) {n : Nat} {c : Connection κ}
    {a : Connection.Action κ} {o : Connection.Outcome κ} (hn : s.connections[n]? = some c)
    (ha : a.isOwners = false) (hstep : c.step a = some o) : Named es n o.1 := by
  have hid := Connection.id_step hstep ha
  rcases h.named n c hn with ⟨hzero, habsent⟩ | hnamed
  · refine .inl ⟨hid.trans hzero, ?_⟩
    rcases Connection.stage_step hstep with hsame | ⟨-, -, hposted⟩
    · exact hsame.trans habsent
    · exact absurd habsent (hposted ha)
  · exact .inr (hid ▸ hnamed)

/-- A connection that begins has the id it is registered under. -/
theorem named_approve (h : Numbered s.core first b es) {n : Nat} {c : Connection κ} {id : UInt32}
    {o : Connection.Outcome κ} (hn : s.connections[n]? = some c)
    (hentry : (id, n) ∈ s.registry.entries) (hstep : c.step (.approve id) = some o) :
    Named es n o.1 := by
  cases Connection.move_of_step hstep with
  | approve =>
    show Named es n (c.approve id)
    unfold Connection.approve
    split
    · exact .inr (h.entered _ (.inl hentry))
    · exact h.named n c hn

theorem act (h : Numbered s.core first b es) (hact : Act s b br s' b' es')
    (hbound : first + s'.core.connections.length ≤ 2 ^ 64) :
    Numbered s'.core first b' (es ++ es') := by
  cases hact with
  | @connection _ n c a o hn ha hstep =>
    rw [core_absorb]
    rw [absorb_eq]
    exact h.connection hn (registrations_connection n o.2) (h.named_step hn ha hstep)
  | @approve _ n c id o hn hentry hstep =>
    rw [core_absorb]
    rw [absorb_eq]
    exact h.connection hn (registrations_connection n o.2) (h.named_approve hn hentry hstep)
  | abort hcore =>
    rw [hcore]
    refine h.still rfl ?_ (fun e he => he) ?_
    · intro n c hn
      rw [List.getElem?_map] at hn
      obtain ⟨c₀, hn₀, rfl⟩ := Option.map_eq_some_iff.mp hn
      refine (h.named n c₀ hn₀).imp_left fun ⟨hzero, habsent⟩ => ⟨hzero, ?_⟩
      simp [Connection.abort, habsent]
    · rw [List.length_map]
      exact h.counted
  | appear hcore => rw [hcore]; exact h.appear ⟨rfl, rfl⟩ rfl
  | register hlast hroom hcore =>
    rw [hcore] at hbound ⊢
    exact h.register hlast hroom hbound
  | turnAway hnext hcore => rw [hcore]; exact h.turnAway hnext
  | deliver hpop hsender hcore =>
    rw [hcore]; exact h.still rfl h.named (fun e he => he) h.counted
  | drop hpop hsender hcore =>
    rw [hcore]; exact h.still rfl h.named (fun e he => he) h.counted
  | prune hids hcore =>
    rw [hcore]; exact h.still rfl h.named (fun e he => Registry.of_mem_move _ he) h.counted
  | forget hempty hcore =>
    rw [hcore]
    refine h.still rfl h.named (fun e he => ?_) h.counted
    exact he.imp_right fun he => absurd he List.not_mem_nil
  | aside hcalls hcore hes =>
    rw [hcore]; exact h.still (registrations_aside hes) h.named (fun e he => he) h.counted

end Numbered

/-- A connection that reads messages has an id. -/
theorem Lives.registered_of_received (hlives : Lives s br es) {n : Nat} {c : Connection κ}
    {a : Connection.Action κ} {o : Connection.Outcome κ} (hn : s.connections[n]? = some c)
    (hstep : c.step a = some o) (hnamed : Named es n o.1)
    (hread : Connection.received o.2 ≠ []) : (o.1.id, n) ∈ registrations es := by
  refine hnamed.resolve_left fun ⟨_, habsent⟩ => hread ?_
  have hnone := ((hlives.sound n c hn).step hstep).received_of_absent habsent
  rw [Connection.received_append] at hnone
  exact (List.append_eq_nil_iff.mp hnone).2

theorem Dispatched.act (h : Dispatched s.core es) (hnum : Numbered s.core first b es)
    (hlives : Lives s br es) (hact : Act s b br' s' b' es')
    (hbound : first + s'.core.connections.length ≤ 2 ^ 64) : Dispatched s'.core (es ++ es') := by
  cases hact with
  | @connection _ n c a o hn ha hstep =>
    rw [core_absorb]
    rw [absorb_eq]
    exact h.connection hnum (hlives.registered_of_received hn hstep (hnum.named_step hn ha hstep))
  | @approve _ n c id o hn hentry hstep =>
    rw [core_absorb]
    rw [absorb_eq]
    exact h.connection hnum
      (hlives.registered_of_received hn hstep (hnum.named_approve hn hentry hstep))
  | abort hcore =>
    rw [hcore]; exact h.still rfl (fun _ => rfl) (fun _ => rfl) rfl (fun _ => Iff.rfl)
  | appear hcore =>
    rw [hcore]
    refine h.still rfl (fun _ => rfl) (fun n => ?_) rfl (fun _ => Iff.rfl)
    have hevents := eventsOf_connection (κ := κ) n s.connections.length [.established]
    rw [List.map_singleton] at hevents
    rw [hevents]
    split
    · rfl
    · rfl
  | @register _ n hlast hroom hcore =>
    rw [hcore] at hbound ⊢
    have hfresh := fun e he => hnum.ne_of_fresh (e := e) hlast hroom hbound he
    refine h.register hfresh ?_
    obtain ⟨c, hn⟩ : ∃ c, s.connections[n]? = some c :=
      ⟨_, List.getElem?_eq_getElem (by omega)⟩
    refine (hlives.sound n c hn).received_of_absent ?_
    rcases hnum.named n c hn with ⟨-, habsent⟩ | hnamed
    · exact habsent
    · exact absurd rfl (hfresh _ hnamed).2
  | turnAway hnext hcore =>
    rw [hcore]; exact h.still rfl (fun _ => rfl) (fun _ => rfl) rfl (fun _ => Iff.rfl)
  | deliver hpop hsender hcore => rw [hcore]; exact h.deliver hnum hpop hsender
  | drop hpop hsender hcore => rw [hcore]; exact h.drop hpop hsender
  | prune hids hcore =>
    rw [hcore]
    exact h.still rfl (fun _ => rfl) (fun _ => rfl) rfl (fun _ => Registry.known_move_iff _)
  | forget hempty hcore => rw [hcore]; exact h.forget hempty
  | aside hcalls hcore hes =>
    rw [hcore]
    refine h.still (registrations_aside hes) (delivered_aside hes) (fun n => ?_) rfl
      (fun _ => Iff.rfl)
    rw [eventsOf_aside hes]
    rfl

/-! ### Connections that stay registered -/

/-- A registered connection that is not closed stays registered, unless its id is zero. -/
def Retained (s : Server κ) (es : List (Event κ)) : Prop :=
  ∀ id n, id ≠ 0 → (id, n) ∈ registrations es → (id, n) ∈ s.registry.entries ∨ s.Closed n

theorem Retained.act (h : Retained s es) (hnum : Numbered s.core first b es)
    (hact : Act s b br s' b' es')
    (hbound : first + s'.core.connections.length ≤ 2 ^ 64) : Retained s' (es ++ es') := by
  have hclosed : ∀ n, s.Closed n → s'.Closed n := fun n hn =>
    Has.act Connection.stable_closed hn hact
  have hkeep : s'.core.registry = s.core.registry → registrations es' = [] →
      Retained s' (es ++ es') := by
    intro hregistry hes id n hzero hid
    rw [registrations_append, hes, List.append_nil] at hid
    have hentries : s'.registry = s.registry := hregistry
    rw [hentries]
    exact (h id n hzero hid).imp_right (hclosed n)
  cases hact with
  | connection hn ha hstep =>
    exact hkeep (by rw [core_absorb]) (registrations_connection _ _)
  | approve hn hentry hstep =>
    exact hkeep (by rw [core_absorb]) (registrations_connection _ _)
  | @register _ k hlast hroom hcore =>
    intro id n hzero hid
    have hentries : s'.registry = s.registry.insert s.nextId.toUInt32 k :=
      congrArg Core.registry hcore
    rw [hcore] at hbound
    rw [registrations_append] at hid
    rw [hentries]
    rcases List.mem_append.mp hid with hid | hid
    · have hne := (hnum.ne_of_fresh hlast hroom hbound hid).1
      exact (h id n hzero hid).imp (fun hentry => Registry.mem_enter_of_ne hentry hne) (hclosed n)
    · cases List.mem_singleton.mp hid
      exact .inl (Registry.mem_insert_self _ _ _)
  | @prune _ _ ids hids hcore =>
    intro id n hzero hid
    have hentries : s'.registry = (Registry.move ids s.registry s.retired).1 :=
      congrArg Core.registry hcore
    rw [registrations_append] at hid
    have hold : (id, n) ∈ registrations es := (List.mem_append.mp hid).resolve_right nofun
    rw [hentries]
    rcases h id n hzero hold with hentry | hover
    · by_cases hmem : id ∈ ids
      · exact .inr (hclosed n (hnum.closed_of_hasClosed hzero hold (hids id hmem)))
      · exact .inl (Registry.mem_move_of_notMem ids hentry hmem)
    · exact .inr (hclosed n hover)
  | aside hcalls hcore hes => exact hkeep (by rw [hcore]) (registrations_aside hes)
  | _ => exact hkeep (by simp only [*]) rfl

/-! ### The whole life of a server -/

section Life

variable {settings : ServerSettings} {transport : TransportSettings} {entropy : Source}

theorem Acts.accounted (h : Acts (create settings transport entropy) false br s b es)
    (hbound : settings.firstClientId.toNat + s.connections.length ≤ 2 ^ 64) :
    Numbered s.core settings.firstClientId.toNat b es ∧ Dispatched s.core es := by
  induction h with
  | refl => exact ⟨.create settings transport entropy, nofun, fun _ _ => rfl, nofun, nofun⟩
  | tail h hact ih =>
    have hle := hact.length_le
    obtain ⟨hnum, hdispatched⟩ := ih ((Nat.add_le_add_left hle _).trans hbound)
    exact ⟨hnum.act hact hbound, hdispatched.act hnum h.lives hact hbound⟩

/-- **The handler is told of the messages of a connection in the order it read them**, as long as
the counter of ids has not gone all the way round. -/
theorem Acts.delivered_isPrefix (h : Acts (create settings transport entropy) false br s b es)
    (hbound : settings.firstClientId.toNat + s.connections.length ≤ 2 ^ 64) (n : Nat) :
    delivered n es <+: Connection.received (eventsOf n es) :=
  (h.accounted hbound).2.delivered_isPrefix n

theorem Acts.retained (h : Acts (create settings transport entropy) false br s b es)
    (hbound : settings.firstClientId.toNat + s.connections.length ≤ 2 ^ 64) : Retained s es := by
  induction h with
  | refl => nofun
  | tail h hact ih =>
    have hbound' := (Nat.add_le_add_left hact.length_le _).trans hbound
    exact (ih hbound').act (h.accounted hbound').1 hact hbound

/-- **Nothing a connection read is lost** while it is not closed: once the inbound queue is empty, the
handler was told of all of it. -/
theorem Acts.delivered_eq (h : Acts (create settings transport entropy) false br s b es)
    (hfirst : 1 ≤ settings.firstClientId.toNat)
    (hbound : settings.firstClientId.toNat + s.connections.length ≤ 2 ^ 64) {n : Nat}
    {c : Connection κ} (hn : s.connections[n]? = some c) (hopen : c.phase ≠ .closed)
    (hempty : s.inbound.toList = []) : delivered n es = Connection.received (eventsOf n es) := by
  obtain ⟨hnum, hdispatched⟩ := h.accounted hbound
  rcases hnum.named n c hn with ⟨-, habsent⟩ | hnamed
  · have hprefix := hdispatched.delivered_isPrefix n
    rw [(h.lives.sound n c hn).received_of_absent habsent] at hprefix ⊢
    exact List.prefix_nil.mp hprefix
  · have hentry : (c.id, n) ∈ s.registry.entries := by
      have hzero : c.id ≠ 0 := hnum.ne_zero hfirst hnamed
      refine (h.retained hbound c.id n hzero hnamed).resolve_right fun ⟨c', hn', hclosed⟩ => ?_
      cases hn.symm.trans hn'
      exact hopen hclosed
    have hknown := hdispatched.known c.id n hnamed ⟨n, .inl hentry⟩
    rw [show s.core.inbound.toList = [] from hempty] at hknown
    exact (List.append_nil _).symm.trans hknown

end Life

end Parley.Server
