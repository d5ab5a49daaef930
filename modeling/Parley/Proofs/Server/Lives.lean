import Parley.Proofs.Connection.Sound
import Parley.Proofs.Server.Acts

/-!
# Parley.Proofs.Server.Lives — every connection of a server is sound

A server's history holds the history of each of its connections.  Whatever the server does, each of
them has lived a life of its own from the moment it was accepted (`Lives`).
-/

namespace Parley.Server

variable {κ : Type}

/-! ### The history of a connection, and of the ids -/

def Event.of? (n : Nat) : Event κ → Option (Connection.Event κ)
  | .connection k e => if k = n then some e else none
  | _ => none

def Event.delivered? (n : Nat) : Event κ → Option (Message κ)
  | .delivered k m => if k = n then some m else none
  | _ => none

def Event.registered? : Event κ → Option Registry.Entry
  | .registered n id => some (id, n)
  | _ => none

/-- What happened to connection `n`. -/
def eventsOf (n : Nat) (es : List (Event κ)) : List (Connection.Event κ) :=
  es.filterMap (Event.of? n)

/-- The messages that came in on connection `n` and of which the handler was told. -/
def delivered (n : Nat) (es : List (Event κ)) : List (Message κ) :=
  es.filterMap (Event.delivered? n)

/-- The ids that were given out, with the connections that got them. -/
def registrations (es : List (Event κ)) : List Registry.Entry := es.filterMap Event.registered?

section Append

variable (n : Nat) (es fs : List (Event κ))

@[simp] theorem eventsOf_append : eventsOf n (es ++ fs) = eventsOf n es ++ eventsOf n fs := by
  simp [eventsOf]

@[simp] theorem delivered_append : delivered n (es ++ fs) = delivered n es ++ delivered n fs := by
  simp [delivered]

@[simp] theorem registrations_append :
    registrations (es ++ fs) = registrations es ++ registrations fs := by
  simp [registrations]

end Append

theorem eventsOf_connection (n k : Nat) (ces : List (Connection.Event κ)) :
    eventsOf n (ces.map (.connection k)) = if k = n then ces else [] := by
  rw [eventsOf, List.filterMap_map]
  split
  · next h =>
    have hof : Event.of? n ∘ Event.connection (κ := κ) k = some := by
      funext e
      simp [Event.of?, h]
    rw [hof, List.filterMap_some]
  · next h =>
    refine List.filterMap_eq_nil_iff.mpr fun e _ => ?_
    simp [Event.of?, h]

/-- What is done to a connection, it does. -/
theorem onConnection_self {s : Server κ} {n : Nat} {c : Connection κ} (hn : s.connections[n]? = some c)
    (f : Connection κ → Connection.Outcome κ) :
    (s.onConnection n f).1.connections[n]? = some (f c).1 ∧
      eventsOf n (s.onConnection n f).2 = (f c).2 := by
  unfold onConnection
  rw [hn]
  dsimp only
  rw [absorb_eq]
  refine ⟨List.getElem?_set_self (List.getElem?_eq_some_iff.mp hn).1, ?_⟩
  rw [eventsOf_connection, if_pos rfl]

/-- What the events of one connection tell is what all events tell of that connection. -/
theorem filterMap_eventsOf {α : Type} {f : Connection.Event κ → Option α}
    {g : Event κ → Option (Nat × α)} (hown : ∀ k ce, g (.connection k ce) = (f ce).map (k, ·))
    (hother : ∀ e a, g e = some a → ∃ k ce, e = .connection k ce) (n : Nat)
    (es : List (Event κ)) :
    (eventsOf n es).filterMap f = ((es.filterMap g).filter (·.1 = n)).map (·.2) := by
  rw [eventsOf, List.filterMap_filterMap, ← List.filterMap_eq_filter, List.filterMap_filterMap,
    List.map_filterMap]
  congr 1
  funext e
  cases hg : g e with
  | none =>
    cases e with
    | connection k ce =>
      have hf : f ce = none := Option.map_eq_none_iff.mp ((hown k ce).symm.trans hg)
      by_cases hk : k = n <;> simp [Event.of?, hk, hf]
    | _ => rfl
  | some a =>
    obtain ⟨k, ce, rfl⟩ := hother e a hg
    obtain ⟨m, hf, rfl⟩ := Option.map_eq_some_iff.mp ((hown k ce).symm.trans hg)
    by_cases hk : k = n <;> simp [Event.of?, hk, hf, Option.guard]

theorem delivered_connection (n k : Nat) (ces : List (Connection.Event κ)) :
    delivered n (ces.map (.connection k)) = [] := by
  simp [delivered, Event.delivered?]

theorem registrations_connection (k : Nat) (ces : List (Connection.Event κ)) :
    registrations (ces.map (.connection k)) = [] := by
  simp [registrations, Event.registered?]

theorem eventsOf_aside {es : List (Event κ)} (h : ∀ e ∈ es, e.isAside = true) (n : Nat) :
    eventsOf n es = [] := by
  refine List.filterMap_eq_nil_iff.mpr fun e he => ?_
  have haside := h e he
  cases e <;> first | rfl | cases haside

theorem delivered_aside {es : List (Event κ)} (h : ∀ e ∈ es, e.isAside = true) (n : Nat) :
    delivered n es = [] := by
  refine List.filterMap_eq_nil_iff.mpr fun e he => ?_
  have haside := h e he
  cases e <;> first | rfl | cases haside

theorem registrations_aside {es : List (Event κ)} (h : ∀ e ∈ es, e.isAside = true) :
    registrations es = [] := by
  refine List.filterMap_eq_nil_iff.mpr fun e he => ?_
  have haside := h e he
  cases e <;> first | rfl | cases haside

/-! ### Lives -/

variable [Kind κ] {s s' : Server κ} {b b' : Bool} {br br' : Nat → List UInt8}
  {es es' : List (Event κ)}

open Connection (Sound)

/-- Every connection is sound for the bytes that arrived and what happened to it, and nothing happened
to connections that do not exist. -/
structure Lives (s : Server κ) (br : Nat → List UInt8) (es : List (Event κ)) : Prop where
  sound : ∀ (n : Nat) (c : Connection κ), s.connections[n]? = some c →
    Sound c (br n) (eventsOf n es)
  blank : ∀ n, s.connections.length ≤ n → br n = [] ∧ eventsOf n es = []

namespace Lives

/-- A connection that was accepted and counted is sound. -/
theorem sound_established (limit : Nat) (ch : Challenge) :
    Sound (κ := κ) (.accepted limit ch) [] [.established] where
  orderly := ⟨nofun, nofun, nofun⟩
  hasRead := ⟨[], rfl, rfl, rfl⟩
  hasWritten := .before nofun rfl rfl rfl fun _ => rfl

/-- A new server has no connections. -/
theorem create (settings : ServerSettings) (transport : TransportSettings) (entropy : Source) :
    Lives (Server.create (κ := κ) settings transport entropy) (fun _ => []) [] where
  sound n _ hn := absurd (List.getElem?_eq_some_iff.mp hn).1 (Nat.not_lt_zero n)
  blank _ _ := ⟨rfl, rfl⟩

/-- The connections are left alone. -/
theorem still (h : Lives s br es) (hconn : s'.connections = s.connections)
    (hes : ∀ n, eventsOf n es' = []) : Lives s' (fun k => br k ++ []) (es ++ es') where
  sound n c hn := by
    rw [hconn] at hn
    rw [eventsOf_append, hes n, List.append_nil, List.append_nil]
    exact h.sound n c hn
  blank n hn := by
    rw [hconn] at hn
    rw [eventsOf_append, hes n, List.append_nil, List.append_nil]
    exact h.blank n hn

/-- A connection makes a step. -/
theorem connection (h : Lives s br es) {n : Nat} {c : Connection κ} {a : Connection.Action κ}
    {o : Connection.Outcome κ} (hn : s.connections[n]? = some c) (hstep : c.step a = some o) :
    Lives (s.absorb n o).1 (fun k => br k ++ if k = n then a.brings else [])
      (es ++ (s.absorb n o).2) := by
  have hlt : n < s.connections.length := (List.getElem?_eq_some_iff.mp hn).1
  rw [absorb_eq]
  refine ⟨fun k c' hk => ?_, fun k hk => ?_⟩
  · rw [eventsOf_append, eventsOf_connection]
    by_cases hkn : k = n
    · subst hkn
      rw [List.getElem?_set_self hlt] at hk
      cases hk
      rw [if_pos rfl, if_pos rfl]
      exact (h.sound k c hn).step hstep
    · rw [List.getElem?_set_ne (Ne.symm hkn)] at hk
      rw [if_neg hkn, if_neg (Ne.symm hkn), List.append_nil, List.append_nil]
      exact h.sound k c' hk
  · rw [List.length_set] at hk
    have hkn : k ≠ n := by omega
    rw [eventsOf_append, eventsOf_connection, if_neg hkn, if_neg (Ne.symm hkn), List.append_nil,
      List.append_nil]
    exact h.blank k hk

/-- The tasks of all connections are dropped. -/
theorem abort (h : Lives s br es) (hconn : s'.connections = s.connections.map Connection.abort) :
    Lives s' (fun k => br k ++ []) (es ++ []) where
  sound n c hn := by
    rw [hconn, List.getElem?_map] at hn
    obtain ⟨c₀, hn₀, rfl⟩ := Option.map_eq_some_iff.mp hn
    rw [eventsOf_append]
    exact (h.sound n c₀ hn₀).step (a := .abort) rfl
  blank n hn := by
    rw [hconn, List.length_map] at hn
    rw [List.append_nil, List.append_nil]
    exact h.blank n hn

/-- There is another connection. -/
theorem appear (h : Lives s br es)
    (hconn : s'.connections = s.connections ++
      [Connection.accepted s.limit (s.source.challenge s.connections.length)]) :
    Lives s' (fun k => br k ++ [])
      (es ++ [.connection s.connections.length .established]) where
  sound n c hn := by
    rw [eventsOf_append, List.append_nil]
    have hevents := eventsOf_connection (κ := κ) n s.connections.length [.established]
    rw [List.map_singleton] at hevents
    rw [hevents]
    rw [hconn] at hn
    by_cases hlt : n < s.connections.length
    · rw [List.getElem?_append_left hlt] at hn
      rw [if_neg (by omega), List.append_nil]
      exact h.sound n c hn
    · have hlen := (List.getElem?_eq_some_iff.mp hn).1
      rw [List.length_append, List.length_singleton] at hlen
      obtain rfl : n = s.connections.length := by omega
      rw [List.getElem?_append_right (Nat.le_refl _), Nat.sub_self] at hn
      obtain rfl := Option.some.inj hn
      obtain ⟨hbr, hnone⟩ := h.blank s.connections.length (Nat.le_refl _)
      rw [if_pos rfl, hbr, hnone]
      exact sound_established (κ := κ) s.limit (s.source.challenge s.connections.length)
  blank n hn := by
    rw [hconn, List.length_append, List.length_singleton] at hn
    rw [eventsOf_append, List.append_nil]
    obtain ⟨hbr, hnone⟩ := h.blank n (by omega)
    refine ⟨hbr, ?_⟩
    have hevents := eventsOf_connection (κ := κ) n s.connections.length [.established]
    rw [List.map_singleton, if_neg (by omega)] at hevents
    rw [hevents, hnone]
    rfl

theorem act (h : Lives s br es) (hact : Act s b br' s' b' es') :
    Lives s' (fun k => br k ++ br' k) (es ++ es') := by
  cases hact with
  | connection hn ha hstep => exact h.connection hn hstep
  | approve hn hentry hstep =>
    have hlives := h.connection hn hstep
    simpa only [Connection.Action.brings, ite_self] using hlives
  | abort hcore => exact h.abort (congrArg Core.connections hcore)
  | appear hcore => exact h.appear (congrArg Core.connections hcore)
  | register hn hroom hcore => exact h.still (congrArg Core.connections hcore) fun _ => rfl
  | turnAway hnext hcore => exact h.still (congrArg Core.connections hcore) fun _ => rfl
  | deliver hpop hsender hcore => exact h.still (congrArg Core.connections hcore) fun _ => rfl
  | drop hpop hsender hcore => exact h.still (congrArg Core.connections hcore) fun _ => rfl
  | prune hids hcore => exact h.still (congrArg Core.connections hcore) fun _ => rfl
  | forget hempty hcore => exact h.still (congrArg Core.connections hcore) fun _ => rfl
  | aside hcalls hcore hes => exact h.still (congrArg Core.connections hcore) (eventsOf_aside hes)

theorem acts (h : Lives s br es) (hacts : Acts s b br' s' b' es') :
    Lives s' (fun k => br k ++ br' k) (es ++ es') := by
  induction hacts with
  | refl => exact h.still rfl fun _ => rfl
  | tail hacts hact ih =>
    have hall := ih.act hact
    simpa only [List.append_assoc] using hall

end Lives

/-- The connections of a server from its beginning on. -/
theorem Acts.lives {settings : ServerSettings} {transport : TransportSettings} {entropy : Source}
    (h : Acts (create settings transport entropy) false br s b es) :
    Lives s br es := (Lives.create settings transport entropy).acts h

/-- All connections of a server have had a socket. -/
theorem Acts.stage_ne_connecting {settings : ServerSettings} {transport : TransportSettings}
    {entropy : Source} (h : Acts (create settings transport entropy) false br s b es) {n : Nat}
    {c : Connection κ} (hn : s.connections[n]? = some c) : c.stage ≠ .connecting := by
  induction h generalizing n c with
  | refl => exact absurd (List.getElem?_eq_some_iff.mp hn).1 (Nat.not_lt_zero n)
  | tail h hact ih =>
    exact forall_act (fun _ _ _ hstep hc => Connection.stage_ne_connecting hstep hc)
      (fun _ _ => nofun) (fun _ _ hk => ih hk) hact n c hn

end Parley.Server
