import Parley.Proofs.Connection.Transfer
import Parley.Proofs.Network.Clients
import Parley.Proofs.Network.Faithful
import Parley.Proofs.Server.Delivery

/-!
# Parley.Proofs.Network.Delivery — end to end

What the handler of a server is told of a connection is the beginning of what the client at the other
end has enqueued, and what is put into the inbound queue of the client is the beginning of what the
server has enqueued for it; when nothing is left to do at either end or in between, it is all of it
(`end_to_end_delivery`).  The way leads through the outbound queue, the write chain, the link, the
reading task, the inbound queue and the registry.
-/

namespace Parley.Network

variable {κ : Type}

/-! ### Messages at the ends -/

/-- The messages of which the handler was told for connection `n` of the server. -/
def deliveredFrom (n : Nat) (es : List (Event κ)) : List (Message κ) :=
  Server.delivered n (serverEvents es)

/-- The messages that the connection at an end has read. -/
def receivedAt (es : List (Event κ)) (e : End) : List (Message κ) :=
  Connection.received (eventsAt es e)

/-- The messages that the tasks at an end have put into the outbound queue. -/
def enqueuedAt (es : List (Event κ)) (e : End) : List (Message κ) :=
  Connection.enqueued (eventsAt es e)

/-- A new server, to which nobody is linked. -/
def create (settings : ServerSettings) (transport : TransportSettings) (entropy : Source) :
    Network κ where
  server := Server.create settings transport entropy

/-- Two ends are the ends of a link. -/
def Linked (net : Network κ) (a b : End) : Prop := (a, b) ∈ net.flows.map Flow.ends

variable [Kind κ]

/-- The connection of a client and that of the server are idle, all bytes between them have arrived,
and the inbound queue of the server is empty. -/
structure Settled (net : Network κ) (i k n : Nat) : Prop where
  server : net.server.Has Connection.Idle n
  client : ∃ c x, net.clients[i]? = some c ∧ c.current = k ∧ c.connection = some x ∧ x.Idle
  arrived : ∀ f ∈ net.flows,
    f.ends = (.client i k, .server n) ∨ f.ends = (.server n, .client i k) →
      f.inFlight = [] ∧ f.ending = none
  dispatched : net.server.inbound.toList = []

variable {net : Network κ} {br : End → List UInt8} {es : List (Event κ)}
  {settings : ServerSettings} {transport : TransportSettings} {entropy : Source}

/-! ### The connections at the ends -/

open Connection (HasRead HasWritten Idle Sound)

/-- A connection to which nothing has happened accounts for any bytes that have arrived. -/
theorem accounts_nil (arrived : List UInt8) :
    ∃ x : Connection κ, HasRead x arrived [] ∧ HasWritten x [] := by
  refine ⟨{ Connection.outgoing 0 with inlet := { pending := arrived } }, ⟨[], rfl, rfl, rfl⟩, ?_⟩
  exact .before nofun rfl rfl rfl fun _ => rfl

/-- At every end there is a connection that accounts for the bytes that arrived and for what
happened. -/
theorem Parties.accounts (h : Parties (Server.create settings transport entropy) net br es) (e : End) :
    ∃ x : Connection κ, HasRead x (br e) (eventsAt es e) ∧ HasWritten x (eventsAt es e) := by
  have hnone : eventsAt es e = [] →
      ∃ x : Connection κ, HasRead x (br e) (eventsAt es e) ∧ HasWritten x (eventsAt es e) := by
    intro hes
    rw [hes]
    exact accounts_nil (br e)
  cases e with
  | server n =>
    have hlives := h.server.lives
    by_cases hn : n < net.server.connections.length
    · have hsound := hlives.sound n _ (List.getElem?_eq_getElem hn)
      exact ⟨_, hsound.hasRead, hsound.hasWritten⟩
    · exact hnone (hlives.blank n (Nat.le_of_not_lt hn)).2
  | client i k =>
    by_cases hi : i < net.clients.length
    · have hlives := h.clients i _ (List.getElem?_eq_getElem hi)
      rcases Nat.lt_trichotomy k net.clients[i].current with hlt | rfl | hgt
      · rcases hlives.former k _ (List.getElem?_eq_getElem hlt) with hes | hsound
        · exact hnone hes
        · exact ⟨_, hsound.hasRead, hsound.hasWritten⟩
      · cases hx : net.clients[i].connection with
        | none => exact hnone (hlives.later _ (by rw [hx]; exact Nat.le_refl _)).2
        | some x =>
          have hsound := hlives.present x hx
          exact ⟨x, hsound.hasRead, hsound.hasWritten⟩
      · have hle : net.clients[i].connection.toList.length ≤ 1 := by
          cases net.clients[i].connection with
          | none => exact Nat.zero_le 1
          | some x => exact Nat.le_refl 1
        exact hnone (hlives.later k (by omega)).2
    · refine hnone ?_
      show Client.eventsOf k (clientEvents i es) = []
      rw [(h.nobody i (Nat.le_of_not_lt hi)).2]
      rfl
  | stranger j => exact hnone rfl

namespace Faithful

variable {a b : End}

/-- What arrives at one end of a link was written at the other. -/
theorem conveys (h : Faithful (Server.create settings transport entropy) net br es)
    (hlinked : net.Linked a b) (ha : ∀ j, a ≠ .stranger j) :
    ∃ f ∈ net.flows, f.ends = (a, b) ∧ f.Conveys (br b) (writtenAt es a) (net.At Ended b) := by
  obtain ⟨f, hf, hends⟩ := List.mem_map.mp hlinked
  obtain ⟨rfl, rfl⟩ := Prod.mk.inj hends
  exact ⟨f, hf, rfl, h.carried.conveys f hf ha⟩

/-- The messages read at one end of a link are the first of those enqueued at the other. -/
theorem received_isPrefix (h : Faithful (Server.create settings transport entropy) net br es)
    (hk : Kind.WrittenReads κ) (hlinked : net.Linked a b) (ha : ∀ j, a ≠ .stranger j) :
    receivedAt es b <+: enqueuedAt es a := by
  obtain ⟨f, -, -, hconveys⟩ := h.conveys hlinked ha
  obtain ⟨x, -, hwritten⟩ := h.parties.accounts a
  obtain ⟨y, hread, -⟩ := h.parties.accounts b
  exact hread.received_isPrefix_enqueued hk hwritten hconveys.told

/-- They are all of them once both ends are idle and all bytes between them have arrived. -/
theorem received_eq (h : Faithful (Server.create settings transport entropy) net br es)
    (hk : Kind.WrittenReads κ) (hlinked : net.Linked a b) (ha : ∀ j, a ≠ .stranger j)
    {x y : Connection κ} (hx : x.Idle) (hwritten : HasWritten x (eventsAt es a)) (hy : y.Idle)
    (hsound : Sound y (br b) (eventsAt es b)) (hhears : ¬net.At Ended b)
    (harrived : ∀ f ∈ net.flows, f.ends = (a, b) → f.inFlight = [] ∧ f.ending = none) :
    receivedAt es b = enqueuedAt es a := by
  obtain ⟨f, hf, hends, hconveys⟩ := h.conveys hlinked ha
  obtain ⟨hempty, hgoes⟩ := harrived f hf hends
  have hbytes : br b = writtenAt es a := by
    have hwhole := hconveys.whole hhears hgoes
    rwa [hempty, List.append_nil] at hwhole
  exact hy.received_eq_enqueued hk hsound hx hwritten hbytes

/-- In a settled network the messages read at the two ends are those enqueued at the others. -/
theorem received_of_settled (h : Faithful (Server.create settings transport entropy) net br es)
    (hk : Kind.WrittenReads κ) {i k n : Nat} (hlinked : net.Linked (.client i k) (.server n))
    (hsettled : net.Settled i k n) :
    receivedAt es (.server n) = enqueuedAt es (.client i k) ∧
      receivedAt es (.client i k) = enqueuedAt es (.server n) := by
  have hback : net.Linked (.server n) (.client i k) := h.carried.paired _ hlinked
  obtain ⟨y, hn, hy⟩ := hsettled.server
  obtain ⟨c, x, hi, rfl, hx, hidle⟩ := hsettled.client
  have hsy : Sound y (br (.server n)) (eventsAt es (.server n)) := h.parties.server.lives.sound n y hn
  have hsx : Sound x (br (.client i c.current)) (eventsAt es (.client i c.current)) :=
    (h.parties.clients i c hi).present x hx
  obtain ⟨-, -, -, -, hyends⟩ := hy.reading hsy
  obtain ⟨-, -, -, -, hxends⟩ := hidle.reading hsx
  have hserver : ¬net.At Ended (.server n) := by
    rintro ⟨y', hn', hended⟩
    cases hn.symm.trans hn'
    exact hended hyends
  have hclient : ¬net.At Ended (.client i c.current) := by
    rintro ⟨c', hi', hover | ⟨x', -, hx', hended⟩⟩
    · cases hi.symm.trans hi'
      exact Nat.lt_irrefl _ hover
    · cases hi.symm.trans hi'
      cases hx.symm.trans hx'
      exact hended hxends
  constructor
  · exact h.received_eq hk hlinked nofun hidle hsx.hasWritten hy hsy hserver fun f hf hends =>
      hsettled.arrived f hf (.inl hends)
  · exact h.received_eq hk hback nofun hy hsy.hasWritten hidle hsx hclient fun f hf hends =>
      hsettled.arrived f hf (.inr hends)

end Faithful

/-! ### Runs -/

theorem faithful_create (settings : ServerSettings) (transport : TransportSettings) (entropy : Source) :
    Faithful (κ := κ) (Server.create settings transport entropy) (create settings transport entropy)
      (fun _ => []) [] where
  parties := by
    refine ⟨.refl, fun i c hi => ?_, fun _ _ => ⟨fun _ => rfl, rfl⟩⟩
    exact absurd (List.getElem?_eq_some_iff.mp hi).1 (Nat.not_lt_zero i)
  carried := by
    refine ⟨fun f hf => absurd hf List.not_mem_nil, fun _ _ => rfl, List.nodup_nil, fun p hp => ?_,
      fun p hp => ?_⟩
    · exact absurd hp List.not_mem_nil
    · exact absurd hp List.not_mem_nil

/-- **Every run keeps the books.** -/
theorem faithful_run {as : List (Action κ)}
    (hrun : (create settings transport entropy).run as = some (net, es))
    (hown : ∀ a ∈ as, a.isTampering = false) :
    ∃ br, Faithful (Server.create settings transport entropy) net br es := by
  refine Run.all_history
    (I := fun net _ es => ∃ br, Faithful (Server.create settings transport entropy) net br es)
    ⟨_, faithful_create settings transport entropy⟩ ?_ hrun
  rintro pre a post net₁ es₁ net₂ es₂ rfl - hstep ⟨br, h⟩
  exact h.step (hown a (by simp)) hstep

/-- **End-to-end delivery.**  In every run of a network whose server leaves its inbound queue to
updates, the messages the handler was told of for a connection are the first of those the client's
connection at the other end has enqueued, and the messages put into the client's inbound queue while it
had this connection are the first of those the server's connection has enqueued.  Nothing is missing when
nothing is left to do.  The client's queue is what it was when the client entered, with all that was put
there behind it, but for what its application took out.  The number of connections is bounded only
because ids repeat once the 64 bits of their counter are used up. -/
theorem end_to_end_delivery (hk : Kind.WrittenReads κ) {as : List (Action κ)}
    (hrun : (create settings transport entropy).run as = some (net, es))
    (hown : ∀ a ∈ as, a.isTampering = false)
    (hids : settings.firstClientId.toNat + net.server.connections.length ≤ 2 ^ 64)
    {i k n : Nat} (hlinked : net.Linked (.client i k) (.server n)) :
    deliveredFrom n es <+: enqueuedAt es (.client i k) ∧
      queuedAt i k (create settings transport entropy) as <+: enqueuedAt es (.server n) ∧
      (1 ≤ settings.firstClientId.toNat → net.Settled i k n →
        deliveredFrom n es = enqueuedAt es (.client i k) ∧
          queuedAt i k (create settings transport entropy) as = enqueuedAt es (.server n)) ∧
      queuedAt i k (create settings transport entropy) as = receivedAt es (.client i k) ∧
      ∃ c d, net.clients[i]? = some c ∧ (entered as)[i]? = some d ∧
        Client.Passes d.inbound.toList ((mailAt i (create settings transport entropy) as).map (·.2))
          (takesAt i as) c.inbound.toList := by
  obtain ⟨br, h⟩ := faithful_run hrun hown
  have hback : net.Linked (.server n) (.client i k) := h.carried.paired _ hlinked
  have hserver := h.parties.server
  have hqueued : queuedAt i k (create settings transport entropy) as = receivedAt es (.client i k) :=
    queuedAt_run hrun i k
  refine ⟨?_, ?_, fun hfirst hsettled => ?_, hqueued, ?_⟩
  · exact (hserver.delivered_isPrefix hids n).trans (h.received_isPrefix hk hlinked nofun)
  · rw [hqueued]
    exact h.received_isPrefix hk hback nofun
  · obtain ⟨hreceived, hreceived'⟩ := h.received_of_settled hk hlinked hsettled
    obtain ⟨y, hn, hidle⟩ := hsettled.server
    have hopen : y.phase ≠ .closed := by
      rw [hidle.opened]
      nofun
    exact ⟨(hserver.delivered_eq hfirst hids hn hopen hsettled.dispatched).trans hreceived,
      hqueued.trans hreceived'⟩
  · obtain ⟨c, hi, -⟩ : net.At Met (.client i k) := h.carried.joined _ hback
    obtain ⟨d, hd, hpasses⟩ := (waits_run hrun rfl).passes i c hi
    refine ⟨c, d, hi, hd, ?_⟩
    rw [mailAt_run hrun, List.map_map]
    exact hpasses

/-- A client connects, both ends do the handshake, and each sends the other a message, one of which
arrives in two pieces. -/
theorem end_to_end_chat :
    let m : Message GameTag := ⟨⟨.chat, 2⟩, [7, 8], rfl⟩
    let m' : Message GameTag := ⟨⟨.ping, 0⟩, [], rfl⟩
    let as : List (Action GameTag) :=
      [.server (.start .loopback 0), .enter (Client.create {} {}),
        .client 0 (.connect "" 0 (.ok [.v4 127 0 0 1])), .join 0 [] true,
        .server (.connection 0 (.turn .ready)), .server (.connection 0 (.turn (.wrote 8))),
        .carry 1 8, .client 0 (.connection (.turn .ready)),
        .client 0 (.connection (.turn (.wrote 8))), .carry 0 8,
        .server (.connection 0 (.turn .ready)), .server (.connection 0 (.turn .ready)),
        .client 0 (.connection (.turn .ready)), .client 0 (.send m),
        .client 0 (.connection (.takeUp .application)), .client 0 (.connection (.chain 0 .ready)),
        .client 0 (.connection (.chain 0 (.wrote 10))), .carry 0 4,
        .server (.connection 0 (.turn .ready)), .carry 0 6, .server (.connection 0 (.turn .ready)),
        .server (.connection 0 (.turn .ready)), .server (.update none false), .server .resume,
        .server (.messageClient 0 m'), .server (.connection 0 (.takeUp .application)),
        .server (.connection 0 (.chain 0 .ready)), .server (.connection 0 (.chain 0 (.wrote 8))),
        .carry 1 8, .client 0 (.connection (.turn .ready)), .client 0 (.connection (.turn .ready))]
    ∃ net es, (create {} {} fun _ => 0).run as = some (net, es) ∧
      deliveredFrom 0 es = [m] ∧ queuedAt 0 0 (create {} {} fun _ => 0) as = [m'] := by
  intro m m' as
  have hruns : ((create {} {} fun _ => 0).run as).any (fun o =>
      o.1.server.connections[0]?.any (·.waits) && o.1.server.connections.length == 1 &&
      o.1.server.inbound.toList.isEmpty &&
      o.1.clients[0]?.any (fun c => c.current == 0 && c.connection.any (·.waits)) &&
      o.1.flows == [⟨.client 0 0, .server 0, [], none, false⟩,
        ⟨.server 0, .client 0 0, [], none, false⟩] &&
      enqueuedAt o.2 (.client 0 0) == [m] && enqueuedAt o.2 (.server 0) == [m']) = true := by
    decide +kernel
  obtain ⟨⟨net, es⟩, hrun, hlast⟩ := (Option.any_eq_true _ _).mp hruns
  simp only [Bool.and_eq_true, beq_iff_eq, List.isEmpty_iff, Option.any_eq_true] at hlast
  obtain ⟨⟨⟨⟨⟨⟨⟨y, hn, hy⟩, hlength⟩, hempty⟩, c, hi, hcurrent, x, hx, hwaits⟩, hflows⟩, hsent⟩,
    hsent'⟩ := hlast
  have hsettled : net.Settled 0 0 0 := by
    refine ⟨⟨y, hn, .of_waits hy⟩, ⟨c, x, hi, hcurrent, hx, .of_waits hwaits⟩, fun f hf _ => ?_,
      hempty⟩
    rw [hflows] at hf
    rcases List.mem_cons.mp hf with rfl | hf
    · exact ⟨rfl, rfl⟩
    · rw [List.mem_singleton.mp hf]
      exact ⟨rfl, rfl⟩
  have hlinked : net.Linked (.client 0 0) (.server 0) := by
    rw [Linked, hflows]
    exact List.mem_cons_self
  obtain ⟨-, -, hall, -⟩ := end_to_end_delivery Kind.gameTag_writtenReads hrun (by decide)
    (by rw [hlength]; decide) hlinked
  obtain ⟨hdelivered, hqueued⟩ := hall (by decide) hsettled
  exact ⟨net, es, hrun, hdelivered.trans hsent, hqueued.trans hsent'⟩

end Parley.Network
