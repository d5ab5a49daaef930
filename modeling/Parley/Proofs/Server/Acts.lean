import Parley.Proofs.Registry
import Parley.Proofs.Server.Absorb

/-!
# Parley.Proofs.Server.Acts — what a server does, act by act

An act of a server is one step of one connection, one connection more, one id registered, one letter
taken off the inbound queue, connections set aside or forgotten.  An act is about the part of a server
that matters for its connections and their messages (`core`); whether the last connection is still
being accepted runs along, since at most one id is given to each.  Only closed connections are set
aside, and the calls that wait for the handler remember no others (`Regular`).
-/

namespace Parley.Server

variable {κ : Type}

/-! ### The core of a server -/

/-- The connections of a server, their ids, the letters that are not dispatched yet, and the calls
that wait for the handler. -/
structure Core (κ : Type) where
  limit : Nat
  source : Source
  nextId : UInt64
  connections : List (Connection κ)
  registry : Registry
  retired : Registry
  inbound : Deque (Letter κ)
  calls : List (Call κ)

def core (s : Server κ) : Core κ where
  limit := s.limit
  source := s.source
  nextId := s.nextId
  connections := s.connections
  registry := s.registry
  retired := s.retired
  inbound := s.inbound
  calls := s.calls

theorem core_absorb (s : Server κ) (n : Nat) (o : Connection.Outcome κ) :
    (s.absorb n o).1.core = { s.core with
      connections := s.connections.set n o.1
      inbound := enqueueLetters o.1.id (Connection.received o.2) s.inbound } := by
  rw [absorb_eq]
  rfl

/-- The number of the connection a letter came in on, if it is registered or set aside. -/
def Core.senderOf (v : Core κ) (l : Letter κ) : Option Nat :=
  l.origin.bind fun id => (v.registry.find? id).or (v.retired.find? id)

/-- Events that say nothing about connections, ids and letters. -/
def Event.isAside : Event κ → Bool
  | .rejected _ | .disconnected _ | .returned _ => true
  | _ => false

/-! ### Connections that are closed -/

/-- Connection `n` is there and has a property. -/
def Has (s : Server κ) (P : Connection κ → Prop) (n : Nat) : Prop :=
  ∃ c, s.connections[n]? = some c ∧ P c

instance (s : Server κ) (P : Connection κ → Prop) [DecidablePred P] (n : Nat) :
    Decidable (s.Has P n) :=
  inferInstanceAs (Decidable (∃ c, c ∈ s.connections[n]? ∧ P c))

theorem has_iff {s : Server κ} {P : Connection κ → Prop} {n : Nat} {c : Connection κ}
    (hn : s.connections[n]? = some c) : s.Has P n ↔ P c := by
  constructor
  · rintro ⟨d, hd, hP⟩
    cases hn.symm.trans hd
    exact hP
  · exact fun hP => ⟨c, hn, hP⟩

theorem not_has {s : Server κ} {P : Connection κ → Prop} {n : Nat}
    (hn : s.connections[n]? = none) : ¬s.Has P n := by
  rintro ⟨c, hc, -⟩
  rw [hn] at hc
  cases hc

/-- Connection `n` is closed. -/
def Closed (s : Server κ) (n : Nat) : Prop := s.Has (fun c => c.phase = .closed) n

instance (s : Server κ) (n : Nat) : Decidable (s.Closed n) :=
  inferInstanceAs (Decidable (s.Has (fun c => c.phase = .closed) n))

/-- A closed connection has the id. -/
def HasClosed (s : Server κ) (id : UInt32) : Prop :=
  ∃ n, s.Has (fun c => c.phase = .closed ∧ c.id = id) n

/-- The connections a waiting call will set aside are closed. -/
def Covers (s : Server κ) : Call κ → Prop
  | .updating _ _ => True
  | .sweeping _ _ n _ dead => s.Closed n ∧ ∀ id ∈ dead, s.HasClosed id
  | .reporting n => s.Closed n

/-- No connection of the server still looks for a socket, and the calls that wait will set aside
closed connections only. -/
structure Regular (s : Server κ) : Prop where
  phases : ∀ (n : Nat) (c : Connection κ), s.connections[n]? = some c → c.phase ≠ .connecting
  calls : ∀ call ∈ s.calls, s.Covers call

theorem Regular.create (settings : ServerSettings) (transport : TransportSettings) (entropy : Source) :
    Regular (Server.create (κ := κ) settings transport entropy) where
  phases n _ hn := absurd (List.getElem?_eq_some_iff.mp hn).1 (Nat.not_lt_zero n)
  calls := nofun

/-- A connection that is not connected is closed. -/
theorem Regular.closed_of_not_isConnected {s : Server κ} (hs : Regular s) {n : Nat}
    {c : Connection κ} (hn : s.connections[n]? = some c) (h : ¬c.isConnected = true) :
    s.Closed n := by
  refine ⟨c, hn, ?_⟩
  have hphase := hs.phases n c hn
  unfold Connection.isConnected at h
  cases hc : c.phase with
  | connecting => exact absurd hc hphase
  | validating => rw [hc] at h; exact absurd rfl h
  | opened => rw [hc] at h; exact absurd rfl h
  | closed => exact hc

/-- The id of a connection that is closed is the id of a closed connection. -/
theorem hasClosed_of_mem {s : Server κ} {n : Nat} (h : s.Closed n) {id : UInt32}
    (hid : id ∈ (s.connections[n]?.map (·.id)).toList) : s.HasClosed id := by
  obtain ⟨c, hn, hclosed⟩ := h
  rw [hn] at hid
  exact ⟨n, c, hn, hclosed, (List.mem_singleton.mp hid).symm⟩

/-! ### Acts -/

/-- The bytes an action brings in to connection `k`. -/
def Action.brings : Action κ → Nat → List UInt8
  | .connection n a, k => if k = n then a.brings else []
  | _, _ => []

/-- The application does something to the inbound queue itself. -/
def Action.isTampering : Action κ → Bool
  | .inject _ | .take => true
  | _ => false

variable [Kind κ]

/-- One act of a server: whether a connection is being accepted, the bytes that arrive at each
connection, the server and whether a connection is being accepted afterwards, and what happened. -/
inductive Act (s : Server κ) :
    Bool → (Nat → List UInt8) → Server κ → Bool → List (Event κ) → Prop where
  /-- A step of a connection. -/
  | connection {b : Bool} {n : Nat} {c : Connection κ} {a : Connection.Action κ}
    {o : Connection.Outcome κ} (hn : s.connections[n]? = some c) (ha : a.isOwners = false)
    (hstep : c.step a = some o) :
    Act s b (fun k => if k = n then a.brings else []) (s.absorb n o).1 b (s.absorb n o).2
  /-- A connection begins, with the id it is registered under. -/
  | approve {b : Bool} {n : Nat} {c : Connection κ} {id : UInt32} {o : Connection.Outcome κ}
    (hn : s.connections[n]? = some c) (hentry : (id, n) ∈ s.registry.entries)
    (hstep : c.step (.approve id) = some o) :
    Act s b (fun _ => []) (s.absorb n o).1 b (s.absorb n o).2
  /-- The tasks of all connections are dropped. -/
  | abort {b : Bool} {s' : Server κ}
    (hcore : s'.core = { s.core with connections := s.connections.map Connection.abort }) :
    Act s b (fun _ => []) s' b []
  /-- There is another connection, which is being accepted. -/
  | appear {s' : Server κ}
    (hcore : s'.core = { s.core with
      connections := s.connections ++
        [Connection.accepted s.limit (s.source.challenge s.connections.length)] }) :
    Act s false (fun _ => []) s' true [.connection s.connections.length .established]
  /-- The connection being accepted gets an id. -/
  | register {s' : Server κ} {n : Nat} (hn : n + 1 = s.connections.length)
    (hroom : s.nextId.toNat < UInt32.size)
    (hcore : s'.core = { s.core with
      nextId := s.nextId + 1
      registry := s.registry.insert s.nextId.toUInt32 n }) :
    Act s true (fun _ => []) s' false [.registered n s.nextId.toUInt32]
  /-- It gets none, although a number may be used up. -/
  | turnAway {s' : Server κ} {next : UInt64} (hnext : next = s.nextId ∨ next = s.nextId + 1)
    (hcore : s'.core = { s.core with nextId := next }) : Act s true (fun _ => []) s' false []
  /-- A letter is taken off the queue and delivered, or dropped if its sender is unknown. -/
  | deliver {b : Bool} {s' : Server κ} {l : Letter κ} {rest : Deque (Letter κ)} {n : Nat}
    (hpop : s.inbound.popFront? = some (l, rest)) (hsender : s.core.senderOf l = some n)
    (hcore : s'.core = { s.core with inbound := rest }) :
    Act s b (fun _ => []) s' b [.delivered n l.message]
  | drop {b : Bool} {s' : Server κ} {l : Letter κ} {rest : Deque (Letter κ)}
    (hpop : s.inbound.popFront? = some (l, rest)) (hsender : s.core.senderOf l = none)
    (hcore : s'.core = { s.core with inbound := rest }) :
    Act s b (fun _ => []) s' b [.dropped l]
  /-- Closed connections are set aside. -/
  | prune {b : Bool} {s' : Server κ} {ids : List UInt32} (hids : ∀ id ∈ ids, s.HasClosed id)
    (hcore : s'.core = { s.core with
      registry := (Registry.move ids s.registry s.retired).1
      retired := (Registry.move ids s.registry s.retired).2 }) :
    Act s b (fun _ => []) s' b []
  /-- No letter is left, and the connections set aside are forgotten. -/
  | forget {b : Bool} {s' : Server κ} (hempty : s.inbound.isEmpty = true)
    (hcore : s'.core = { s.core with retired := .empty }) : Act s b (fun _ => []) s' b []
  /-- Nothing happens that matters here, except that calls wait for the handler or go on. -/
  | aside {b : Bool} {s' : Server κ} {calls : List (Call κ)} {es : List (Event κ)}
    (hcalls : ∀ call ∈ calls, call ∈ s.calls ∨ s.Covers call)
    (hcore : s'.core = { s.core with calls := calls }) (hes : ∀ e ∈ es, e.isAside = true) :
    Act s b (fun _ => []) s' b es

/-- Acts one after the other. -/
inductive Acts (s : Server κ) (b : Bool) :
    (Nat → List UInt8) → Server κ → Bool → List (Event κ) → Prop where
  | refl : Acts s b (fun _ => []) s b []
  | tail {br br' : Nat → List UInt8} {s' s'' : Server κ} {b' b'' : Bool} {es es' : List (Event κ)}
    (h : Acts s b br s' b' es) (hact : Act s' b' br' s'' b'' es') :
    Acts s b (fun k => br k ++ br' k) s'' b'' (es ++ es')

namespace Acts

variable {s s' s'' : Server κ} {b b' b'' : Bool} {br br' : Nat → List UInt8}
  {es es' : List (Event κ)}

theorem single (h : Act s b br s' b' es) : Acts s b br s' b' es := by
  simpa using Acts.refl.tail h

theorem trans (h : Acts s b br s' b' es) (h' : Acts s' b' br' s'' b'' es') :
    Acts s b (fun k => br k ++ br' k) s'' b'' (es ++ es') := by
  induction h' with
  | refl => simpa using h
  | tail h' hact ih =>
    have hall := ih.tail hact
    simpa only [List.append_assoc] using hall

/-- Two chains in which nothing arrives. -/
theorem andThen (h : Acts s b (fun _ => []) s' b' es) (h' : Acts s' b' (fun _ => []) s'' b'' es') :
    Acts s b (fun _ => []) s'' b'' (es ++ es') := h.trans h'

theorem aside {es : List (Event κ)} (hcore : s'.core = s.core) (hes : ∀ e ∈ es, e.isAside = true) :
    Acts s b (fun _ => []) s' b es := single (.aside (fun _ => .inl) hcore hes)

/-- A call begins to wait for the handler. -/
theorem wait {call : Call κ} {es : List (Event κ)} (hcall : s.Covers call)
    (hes : ∀ e ∈ es, e.isAside = true) :
    Acts s b (fun _ => []) { s with calls := call :: s.calls } b es := by
  refine single (.aside (fun c hc => ?_) rfl hes)
  rcases List.mem_cons.mp hc with rfl | hc
  · exact .inr hcall
  · exact .inl hc

end Acts

/-! ### What the acts keep -/

section Keeping

open Connection (Continues Stable)

variable {s s' : Server κ} {b b' : Bool} {br : Nat → List UInt8} {es : List (Event κ)}
  {P : Connection κ → Prop}

theorem exists_set {n k : Nat} {c d : Connection κ} {a : Connection.Action κ}
    {o : Connection.Outcome κ} (hn : s.connections[n]? = some c) (hstep : c.step a = some o)
    (hk : s.connections[k]? = some d) :
    ∃ d', (s.connections.set n o.1)[k]? = some d' ∧ Continues d d' := by
  by_cases hkn : k = n
  · subst hkn
    cases hn.symm.trans hk
    exact ⟨o.1, List.getElem?_set_self (List.getElem?_eq_some_iff.mp hn).1, .inr ⟨a, o, hstep, rfl⟩⟩
  · exact ⟨d, (List.getElem?_set_ne (Ne.symm hkn)).trans hk, .inl rfl⟩

/-- An act takes no connection away; it is left alone or makes a step. -/
theorem Act.old (h : Act s b br s' b' es) {k : Nat} {d : Connection κ}
    (hk : s.connections[k]? = some d) :
    ∃ d', s'.core.connections[k]? = some d' ∧ Continues d d' := by
  have hsame : s'.core.connections = s.core.connections →
      ∃ d', s'.core.connections[k]? = some d' ∧ Continues d d' := fun heq =>
    ⟨d, (congrArg (·[k]?) heq).trans hk, .inl rfl⟩
  cases h with
  | connection hn ha hstep => rw [core_absorb]; exact exists_set hn hstep hk
  | approve hn hentry hstep => rw [core_absorb]; exact exists_set hn hstep hk
  | abort hcore =>
    refine ⟨d.abort, ?_, .inr ⟨.abort, _, rfl, rfl⟩⟩
    rw [hcore, List.getElem?_map, hk]
    rfl
  | appear hcore =>
    refine ⟨d, ?_, .inl rfl⟩
    rw [hcore, List.getElem?_append_left (List.getElem?_eq_some_iff.mp hk).1]
    exact hk
  | _ => exact hsame (by simp only [*])

theorem Act.length_le (h : Act s b br s' b' es) :
    s.core.connections.length ≤ s'.core.connections.length := by
  by_contra hgt
  obtain ⟨d, hd, -⟩ := h.old (List.getElem?_eq_getElem (Nat.lt_of_not_le hgt))
  exact Nat.lt_irrefl _ (List.getElem?_eq_some_iff.mp hd).1

/-- A connection that was not there before an act has just been accepted. -/
theorem Act.new (h : Act s b br s' b' es) {k : Nat} {d : Connection κ}
    (hk : s'.core.connections[k]? = some d) (hge : s.connections.length ≤ k) :
    ∃ limit ch, d = .accepted limit ch := by
  have hlt := (List.getElem?_eq_some_iff.mp hk).1
  cases h with
  | connection hn ha hstep => rw [core_absorb, List.length_set] at hlt; omega
  | approve hn hentry hstep => rw [core_absorb, List.length_set] at hlt; omega
  | abort hcore => rw [hcore, List.length_map] at hlt; omega
  | appear hcore =>
    rw [hcore, List.getElem?_append_right hge] at hk
    exact ⟨_, _, List.mem_singleton.mp (List.mem_of_getElem? hk)⟩
  | _ =>
    simp only [*] at hlt
    exact absurd hlt (Nat.not_lt_of_le hge)

/-- What every step of a connection keeps stays true of it. -/
theorem Has.act (hP : Stable P) {k : Nat} (h : s.Has P k) (hact : Act s b br s' b' es) :
    s'.Has P k := by
  obtain ⟨d, hk, hPd⟩ := h
  obtain ⟨d', hk', hcontinues⟩ := hact.old hk
  exact ⟨d', hk', hP.of_continues hcontinues hPd⟩

theorem Has.acts (hP : Stable P) {k : Nat} (h : s.Has P k) (hacts : Acts s b br s' b' es) :
    s'.Has P k := by
  induction hacts with
  | refl => exact h
  | tail hacts hact ih => exact ih.act hP hact

theorem HasClosed.acts {id : UInt32} (h : s.HasClosed id) (hacts : Acts s b br s' b' es) :
    s'.HasClosed id := by
  obtain ⟨n, hn⟩ := h
  exact ⟨n, hn.acts (Connection.stable_closed_id id) hacts⟩

theorem Covers.acts {call : Call κ} (h : s.Covers call) (hacts : Acts s b br s' b' es) :
    s'.Covers call := by
  cases call with
  | updating left handled => trivial
  | sweeping m exclude n rest dead =>
    exact ⟨h.1.acts Connection.stable_closed hacts, fun id hid => (h.2 id hid).acts hacts⟩
  | reporting n => exact Has.acts Connection.stable_closed h hacts

/-- What every step of a connection keeps stays true of all of them, if it is true of new ones. -/
theorem forall_act (hP : Stable P) (hnew : ∀ limit ch, P (.accepted limit ch))
    (h : ∀ (n : Nat) (c : Connection κ), s.connections[n]? = some c → P c)
    (hact : Act s b br s' b' es) (n : Nat) (c : Connection κ) (hn : s'.connections[n]? = some c) : P c := by
  by_cases hlt : n < s.connections.length
  · have hold := List.getElem?_eq_getElem hlt
    obtain ⟨c', hn', hcontinues⟩ := hact.old hold
    obtain rfl : c' = c := Option.some.inj (hn'.symm.trans hn)
    exact hP.of_continues hcontinues (h n _ hold)
  · obtain ⟨limit, ch, rfl⟩ := hact.new hn (Nat.le_of_not_lt hlt)
    exact hnew limit ch

namespace Regular

theorem act (h : Regular s) (hact : Act s b br s' b' es) : Regular s' := by
  refine ⟨forall_act Connection.stable_ne_connecting (fun _ _ => nofun) h.phases hact, ?_⟩
  have hcovers : ∀ call, s.Covers call → s'.Covers call := fun call hcall =>
    hcall.acts (.single hact)
  have hsame : s'.core.calls = s.core.calls → ∀ call ∈ s'.calls, s'.Covers call := by
    intro heq call hcall
    have hmem : call ∈ s'.core.calls := hcall
    rw [heq] at hmem
    exact hcovers call (h.calls call hmem)
  cases hact with
  | connection hn ha hstep => exact hsame (by rw [core_absorb])
  | approve hn hentry hstep => exact hsame (by rw [core_absorb])
  | aside hcalls hcore hes =>
    intro call hcall
    have hmem : call ∈ s'.core.calls := hcall
    rw [hcore] at hmem
    rcases hcalls call hmem with hold | hnew
    · exact hcovers call (h.calls call hold)
    · exact hcovers call hnew
  | _ => exact hsame (by simp only [*])

theorem acts (h : Regular s) (hacts : Acts s b br s' b' es) : Regular s' := by
  induction hacts with
  | refl => exact h
  | tail hacts hact ih => exact ih.act hact

end Regular

end Keeping


end Parley.Server
