import Parley.Proofs.Network.Flows
import Parley.Proofs.Server.Operations

/-!
# Parley.Proofs.Network.Faithful — every step of a network keeps the books

In a network the server and the clients have lived lives of their own (`Parties`), and the flows
carry what is written at one end to the other (`Carried`).  Every step keeps both (`Faithful.step`):
what is delivered to an end arrives there, or the end takes nothing any more.
-/

namespace Parley.Network

variable {κ : Type}

/-! ### What a network leaves to its parties -/

/-- The application puts letters into the inbound queue of the server or takes some out. -/
def Action.isTampering : Action κ → Bool
  | .server a => a.isTampering
  | _ => false

theorem not_isOwners_of_isArrival {a : Connection.Action κ} (ha : a.isArrival = true) :
    a.isOwners = false := by
  cases a <;> first | rfl | cases ha

/-- Where the server acts by itself, nothing arrives. -/
theorem brings_of_own {a : Server.Action κ} (ha : isServersOwn a = true) :
    a.brings = fun _ => [] := by
  funext k
  cases a with
  | connection n a =>
    cases a <;> first | exact ite_self _ | cases ha
  | _ => rfl

/-- Where a client acts by itself, nothing arrives. -/
theorem brings_of_clientsOwn {c : Client κ} {a : Client.Action κ} (ha : isClientsOwn c a = true) :
    a.brings c = fun _ => [] := by
  funext k
  cases a with
  | connection a =>
    cases a <;> first | exact ite_self _ | cases ha
  | _ => rfl

variable [Kind κ] {start : Server κ} {net net' : Network κ} {br : End → List UInt8}
  {es fs : List (Event κ)}

/-! ### The parties -/

/-- The server has come from its beginning by its own acts, and the connections of the clients are
sound, for the bytes that arrived at the ends and what happened there. -/
structure Parties (start : Server κ) (net : Network κ) (br : End → List UInt8)
    (es : List (Event κ)) : Prop where
  server : Server.Acts start false (fun n => br (.server n)) net.server false (serverEvents es)
  clients : ∀ i c, net.clients[i]? = some c →
    Client.Lives c (fun k => br (.client i k)) (clientEvents i es)
  nobody : ∀ i, net.clients.length ≤ i →
    (∀ k, br (.client i k) = []) ∧ clientEvents i es = []

/-- The bytes that arrive at connections of the server. -/
def atServer (sbr : Nat → List UInt8) : End → List UInt8
  | .server n => sbr n
  | _ => []

/-- The bytes that arrive at connections of client `i`. -/
def atClient (i : Nat) (cbr : Nat → List UInt8) : End → List UInt8
  | .client j k => if j = i then cbr k else []
  | _ => []

namespace Parties

theorem of_eq (h : Parties start net br es) (hserver : net'.server = net.server)
    (hclients : net'.clients = net.clients) : Parties start net' br es := by
  obtain ⟨hs, hc, hn⟩ := h
  refine ⟨?_, ?_, ?_⟩
  · rwa [hserver]
  · rwa [hclients]
  · rwa [hclients]

/-- The server acts. -/
theorem absorbServer (h : Parties start net br es) {s' : Server κ} {sbr : Nat → List UInt8}
    {ses : List (Server.Event κ)} (hacts : Server.Acts net.server false sbr s' false ses)
    (hserver : net'.server = s') (hclients : net'.clients = net.clients) :
    Parties start net' (fun e => br e ++ atServer sbr e) (es ++ ses.map .server) where
  server := by
    rw [hserver, serverEvents_append, serverEvents_server]
    exact h.server.trans hacts
  clients i c hi := by
    rw [hclients] at hi
    rw [clientEvents_append, clientEvents_server, List.append_nil]
    simp only [atServer, List.append_nil]
    exact h.clients i c hi
  nobody i hi := by
    rw [hclients] at hi
    rw [clientEvents_append, clientEvents_server, List.append_nil]
    simp only [atServer, List.append_nil]
    exact h.nobody i hi

/-- Client `i` acts. -/
theorem absorbClient (h : Parties start net br es) {i : Nat} {c c' : Client κ}
    {cbr : Nat → List UInt8} {ces : List (Client.Event κ)} (hi : net.clients[i]? = some c)
    (hacts : Client.Acts c cbr c' ces) (hserver : net'.server = net.server)
    (hclients : net'.clients = net.clients.set i c') :
    Parties start net' (fun e => br e ++ atClient i cbr e) (es ++ ces.map (.client i)) := by
  have hlt : i < net.clients.length := (List.getElem?_eq_some_iff.mp hi).1
  refine ⟨?_, fun j d hj => ?_, fun j hj => ?_⟩
  · rw [hserver, serverEvents_append, serverEvents_client, List.append_nil]
    simp only [atClient, List.append_nil]
    exact h.server
  · rw [hclients] at hj
    rw [clientEvents_append, clientEvents_client]
    by_cases hij : j = i
    · subst hij
      rw [List.getElem?_set_self hlt] at hj
      cases hj
      simp only [atClient, if_pos]
      exact (h.clients j c hi).acts hacts
    · rw [List.getElem?_set_ne (Ne.symm hij)] at hj
      simp only [atClient, if_neg hij, if_neg (Ne.symm hij), List.append_nil]
      exact h.clients j d hj
  · rw [hclients, List.length_set] at hj
    have hij : j ≠ i := by omega
    rw [clientEvents_append, clientEvents_client]
    simp only [atClient, if_neg hij, if_neg (Ne.symm hij), List.append_nil]
    exact h.nobody j hj

end Parties

/-! ### The network -/

/-- The parties keep to the rules, and the flows carry what they write. -/
structure Faithful (start : Server κ) (net : Network κ) (br : End → List UInt8)
    (es : List (Event κ)) : Prop where
  parties : Parties start net br es
  carried : Carried net br es

theorem append_atServer_nil (br : End → List UInt8) :
    (fun e => br e ++ atServer (fun _ => []) e) = br := by
  funext e
  cases e <;> exact List.append_nil _

theorem append_atClient_nil (br : End → List UInt8) (i : Nat) :
    (fun e => br e ++ atClient i (fun _ => []) e) = br := by
  funext e
  cases e with
  | client j k =>
    show br (.client j k) ++ (if j = i then [] else []) = _
    rw [ite_self, List.append_nil]
  | _ => exact List.append_nil _

namespace Faithful

/-- The server acts, and nothing arrives. -/
theorem absorbServer (h : Faithful start net br es) {o : Server.Outcome κ}
    (hacts : Server.Acts net.server false (fun _ => []) o.1 false o.2) :
    Faithful start (net.absorbServer o).1 br (es ++ (net.absorbServer o).2) := by
  have hparties : Parties start (net.absorbServer o).1 (fun e => br e ++ atServer (fun _ => []) e)
      (es ++ o.2.map .server) := h.parties.absorbServer hacts rfl rfl
  rw [append_atServer_nil] at hparties
  have hpersists : Persists net { net with server := o.1 } := .server hacts rfl rfl
  have hcarried : Carried { net with server := o.1 } br es := h.carried.still hpersists rfl
  exact ⟨hparties, hcarried.settle _⟩

/-- Client `i` acts, and nothing arrives. -/
theorem absorbClient (h : Faithful start net br es) {i : Nat} {c : Client κ}
    {o : Client.Outcome κ} (hi : net.clients[i]? = some c)
    (hacts : Client.Acts c (fun _ => []) o.1 o.2) :
    Faithful start (net.absorbClient i o).1 br (es ++ (net.absorbClient i o).2) := by
  have hparties : Parties start (net.absorbClient i o).1
      (fun e => br e ++ atClient i (fun _ => []) e) (es ++ o.2.map (.client i)) :=
    h.parties.absorbClient hi hacts rfl rfl
  rw [append_atClient_nil] at hparties
  have hpersists : Persists net { net with clients := net.clients.set i o.1 } :=
    .client hi hacts rfl rfl rfl
  have hcarried : Carried { net with clients := net.clients.set i o.1 } br es :=
    h.carried.still hpersists rfl
  exact ⟨hparties, hcarried.settle _⟩

end Faithful

/-! ### Deliveries -/

/-- Something arrives at a connection exactly as long as the stream that arrives has not ended. -/
theorem step_arrival_isSome {c : Connection κ} {a : Connection.Action κ} (ha : a.isArrival = true) :
    (c.step a).isSome = true ↔ ¬Ended c := by
  unfold Ended
  rw [not_not]
  cases a with
  | arrive bytes =>
    show (if _ then _ else _ : Option _).isSome = true ↔ _
    split <;> simp [*]
  | expire ending =>
    show (if _ then _ else _ : Option _).isSome = true ↔ _
    split <;> simp [*]
  | _ => cases ha

/-- What becomes of a network when something is delivered to an end: the end takes it as its next
step, or it has ended and nothing changes. -/
inductive Delivered (start : Server κ) (net : Network κ) (br : End → List UInt8)
    (es : List (Event κ)) (target : End) (bytes : List UInt8) : Outcome κ → Prop
  | lost {net' : Network κ} (hended : net.At Ended target) (hflows : net'.flows = net.flows)
    (hpersists : Persists net net') (hparties : Parties start net' br es) :
    Delivered start net br es target bytes (net', [])
  | taken {net' : Network κ} {fs : List (Event κ)} (hended : ¬net.At Ended target)
    (hflows : net'.flows = net.flows) (hpersists : Persists net net')
    (hparties : Parties start net' (fun e => br e ++ if e = target then bytes else [])
      (es ++ fs)) :
    Delivered start net br es target bytes (net'.settle fs)

theorem append_atServer_single (br : End → List UInt8) (n : Nat) (bytes : List UInt8) :
    (fun e => br e ++ atServer (fun k => if k = n then bytes else []) e) =
      fun e => br e ++ if e = .server n then bytes else [] := by
  funext e
  cases e <;> simp [atServer]

theorem append_atClient_single (br : End → List UInt8) (i n : Nat) (bytes : List UInt8) :
    (fun e => br e ++ atClient i (fun k => if k = n then bytes else []) e) =
      fun e => br e ++ if e = .client i n then bytes else [] := by
  funext e
  cases e with
  | client j l =>
    by_cases hj : j = i
    · simp [atClient, hj]
    · simp [atClient, hj]
  | _ => simp [atClient]

theorem delivered_server {n : Nat} {a : Connection.Action κ} (s : Stranger → Stranger)
    (ha : a.isArrival = true) (h : Parties start net br es) (hmet : net.At Met (.server n)) :
    Delivered start net br es (.server n) a.brings (net.deliver (.server n) a s) := by
  have howners := not_isOwners_of_isArrival ha
  obtain ⟨c, hn, -⟩ := hmet
  have hserver : net.server.step (.connection n a) = (c.step a).map (net.server.absorb n) := by
    simp [Server.step, howners, hn]
  cases hstep : c.step a with
  | none =>
    have hended : Ended c := by
      by_contra hnot
      have hsome := (step_arrival_isSome ha).mpr hnot
      rw [hstep] at hsome
      cases hsome
    simp only [deliver, hserver, hstep, Option.map_none]
    exact .lost ⟨c, hn, hended⟩ rfl (.of_eq rfl rfl (Nat.le_refl _)) h
  | some o =>
    have hnot : ¬Ended c := (step_arrival_isSome ha).mp (by rw [hstep]; rfl)
    have hacts := Server.Acts.single (Server.Act.connection (b := false) hn howners hstep)
    have hparties : Parties start { net with server := (net.server.absorb n o).1 } _
        (es ++ (net.server.absorb n o).2.map .server) := h.absorbServer hacts rfl rfl
    rw [append_atServer_single] at hparties
    simp only [deliver, hserver, hstep, Option.map_some]
    refine .taken (fun hat => ?_) rfl (.server hacts rfl rfl) hparties
    obtain ⟨c', hn', hended⟩ := hat
    cases hn.symm.trans hn'
    exact hnot hended

theorem delivered_client {i k : Nat} {a : Connection.Action κ} (s : Stranger → Stranger)
    (ha : a.isArrival = true) (h : Parties start net br es) (hmet : net.At Met (.client i k)) :
    Delivered start net br es (.client i k) a.brings (net.deliver (.client i k) a s) := by
  have howners := not_isOwners_of_isArrival ha
  have hsame : Persists net net := .of_eq rfl rfl (Nat.le_refl _)
  obtain ⟨c, hi, hover | ⟨x, rfl, hx, -⟩⟩ := hmet
  · have hk : ¬c.current = k := Nat.ne_of_gt hover
    simp only [deliver, hi, if_neg hk]
    exact .lost ⟨c, hi, .inl hover⟩ rfl hsame h
  · have hclient : c.step (.connection a) = (x.step a).map c.absorb := by
      simp [Client.step, howners, hx]
    cases hstep : x.step a with
    | none =>
      have hended : Ended x := by
        by_contra hnot
        have hsome := (step_arrival_isSome ha).mpr hnot
        rw [hstep] at hsome
        cases hsome
      simp only [deliver, hi, if_pos, hclient, hstep, Option.map_none]
      exact .lost ⟨c, hi, .inr ⟨x, rfl, hx, hended⟩⟩ rfl hsame h
    | some o =>
      have hnot : ¬Ended x := (step_arrival_isSome ha).mp (by rw [hstep]; rfl)
      have hact : Client.Act c _ (c.absorb o).1 (c.absorb o).2 :=
        .connection hx hstep (Client.past_absorb c o) (Client.connection_absorb c o)
      have hparties : Parties start { net with clients := net.clients.set i (c.absorb o).1 } _
          (es ++ (c.absorb o).2.map (.client i)) := h.absorbClient hi (.single hact) rfl rfl
      rw [append_atClient_single] at hparties
      simp only [deliver, hi, if_pos, hclient, hstep, Option.map_some]
      refine .taken (fun hat => ?_) rfl (.client hi (.single hact) rfl rfl rfl) hparties
      obtain ⟨c', hi', hlt | ⟨y, -, hy, hended⟩⟩ := hat
      · cases hi.symm.trans hi'
        exact absurd hlt (Nat.lt_irrefl _)
      · cases hi.symm.trans hi'
        cases hx.symm.trans hy
        exact hnot hended

theorem delivered_deliver {target : End} {a : Connection.Action κ} (s : Stranger → Stranger)
    (ha : a.isArrival = true) (h : Parties start net br es) (hmet : net.At Met target) :
    Delivered start net br es target a.brings (net.deliver target a s) := by
  cases target with
  | server n => exact delivered_server s ha h hmet
  | client i k => exact delivered_client s ha h hmet
  | stranger j =>
    have hlen : net.strangers.length ≤ (net.strangers.modify j s).length := by
      rw [List.length_modify]
    exact .lost hmet rfl (.of_eq rfl rfl hlen) (h.of_eq rfl rfl)

namespace Faithful

/-- Bytes in flight, or the end behind them, are delivered. -/
theorem deliver (h : Faithful start net br es) {i : Nat} {f f' : Flow} {a : Connection.Action κ}
    (s : Stranger → Stranger) (ha : a.isArrival = true) (hf : net.flows[i]? = some f)
    (hends : f'.ends = f.ends)
    (hconveys : ∀ written deaf, ¬deaf → f.Conveys (br f.target) written deaf →
      f'.Conveys (br f.target ++ a.brings) written deaf) :
    ∃ br', Faithful start
      (Network.deliver { net with flows := net.flows.set i f' } f.target a s).1 br'
      (es ++ (Network.deliver { net with flows := net.flows.set i f' } f.target a s).2) := by
  have hmem : f ∈ net.flows := List.mem_of_getElem? hf
  have hmet : net.At Met f.target := h.carried.joined f.ends (List.mem_map_of_mem hmem)
  have hset : Persists net { net with flows := net.flows.set i f' } :=
    .of_eq rfl rfl (Nat.le_refl _)
  have hback : Persists { net with flows := net.flows.set i f' } net :=
    .of_eq rfl rfl (Nat.le_refl _)
  have hparties₀ : Parties start { net with flows := net.flows.set i f' } br es :=
    h.parties.of_eq rfl rfl
  suffices hall : ∀ o, Delivered start { net with flows := net.flows.set i f' } br es f.target
      a.brings o → ∃ br', Faithful start o.1 br' (es ++ o.2) from
    hall _ (delivered_deliver s ha hparties₀ (hset Met stable_met _ hmet))
  intro o hdelivered
  cases hdelivered with
  | @lost net' hended hflows hpersists hparties =>
    refine ⟨br, ?_, ?_⟩
    · rw [List.append_nil]
      exact hparties
    · rw [List.append_nil]
      refine h.carried.replace hf hends (hset.trans hpersists) hflows (fun _ _ => rfl)
        fun hsource => ?_
      exact ((h.carried.conveys f hmem hsource).of_deaf (hback Ended stable_ended _ hended) f').mono
        ((hset.trans hpersists) Ended stable_ended _)
  | @taken net' fs hended hflows hpersists hparties =>
    refine ⟨_, hparties.of_eq rfl rfl, ?_⟩
    refine Carried.settle (h.carried.replace hf hends (hset.trans hpersists) hflows
      (fun e he => ?_) fun hsource => ?_) fs
    · rw [if_neg he, List.append_nil]
    · rw [if_pos rfl]
      have hnot : ¬net.At Ended f.target := fun hat => hended (hset Ended stable_ended _ hat)
      exact (hconveys _ _ hnot (h.carried.conveys f hmem hsource)).mono
        ((hset.trans hpersists) Ended stable_ended _)

/-! ### Steps of flows -/

/-- A stranger writes. -/
theorem write (h : Faithful start net br es) {i : Nat} {bytes : List UInt8} {o : Outcome κ}
    (hstep : net.step (.write i bytes) = some o) : Faithful start o.1 br (es ++ o.2) := by
  simp only [Network.step] at hstep
  split at hstep
  · cases hstep
    rw [List.append_nil]
    exact ⟨h.parties.of_eq rfl rfl,
      h.carried.write i bytes (.of_eq rfl rfl (Nat.le_refl _)) rfl⟩
  · cases hstep

/-- A flow ends early. -/
theorem cut (h : Faithful start net br es) {i keep : Nat} {ending : Connection.Ending}
    {o : Outcome κ} (hstep : net.step (.cut i keep ending) = some o) :
    Faithful start o.1 br (es ++ o.2) := by
  simp only [Network.step] at hstep
  split at hstep
  · cases hstep
  · next f hf =>
    split at hstep
    · cases hstep
      rw [List.append_nil]
      have hends : Flow.ends
          { f with inFlight := f.inFlight.take keep, ending := some ending } = f.ends := rfl
      refine ⟨h.parties.of_eq rfl rfl, h.carried.replace hf hends
        (.of_eq rfl rfl (Nat.le_refl _)) rfl (fun _ _ => rfl) fun hsource => ?_⟩
      have hconveys := h.carried.conveys f (List.mem_of_getElem? hf) hsource
      exact hconveys.cut (List.take_prefix keep _) _
    · cases hstep

/-- Bytes in flight are delivered. -/
theorem carry (h : Faithful start net br es) {i k : Nat} {o : Outcome κ}
    (hstep : net.step (.carry i k) = some o) : ∃ br', Faithful start o.1 br' (es ++ o.2) := by
  simp only [Network.step] at hstep
  split at hstep
  · cases hstep
  · next f hf =>
    split at hstep
    · cases hstep
      exact h.deliver _ rfl hf rfl fun written deaf hnot hconveys => hconveys.carry hnot k
    · cases hstep

/-- The end of a flow is delivered. -/
theorem conclude (h : Faithful start net br es) {i : Nat} {o : Outcome κ}
    (hstep : net.step (.conclude i) = some o) : ∃ br', Faithful start o.1 br' (es ++ o.2) := by
  simp only [Network.step] at hstep
  split at hstep
  · cases hstep
  · next f hf =>
    split at hstep
    · split at hstep
      · cases hstep
      · cases hstep
        refine h.deliver _ rfl hf rfl fun written deaf hnot hconveys => ?_
        have hnothing : br f.target ++ [] = br f.target := List.append_nil _
        show Flow.Conveys _ (br f.target ++ []) written deaf
        rw [hnothing]
        exact ⟨hconveys.told, hconveys.flying, hconveys.whole⟩
    · cases hstep

/-! ### New links -/

/-- A client that is about to get a socket has written nothing. -/
theorem writtenAt_of_connecting (h : Faithful start net br es) {i : Nat} {c : Client κ}
    {x : Connection κ} (hi : net.clients[i]? = some c) (hx : c.connection = some x)
    (hstage : x.stage = .connecting) : writtenAt es (.client i c.current) = [] := by
  have hsound := (h.parties.clients i c hi).present x hx
  obtain ⟨-, hword, -⟩ := hsound.hasWritten.of_early (by rw [hstage]; rfl)
  unfold Connection.Word at hword
  rw [hstage] at hword
  exact hword

/-- A client gets a socket: nobody has sent anything to it before, and it has written nothing. -/
theorem attach (h : Faithful start net br es) {i : Nat} {o : Outcome κ} {far : End}
    (hattach : net.attach i = some (o, far)) :
    Faithful start o.1 br (es ++ o.2) ∧ (∃ k, far = .client i k) ∧ o.1.At Met far ∧
      (∀ p ∈ o.1.flows.map Flow.ends, p.2 ≠ far) ∧ writtenAt (es ++ o.2) far = [] := by
  unfold Network.attach at hattach
  split at hattach
  · cases hattach
  next c hi =>
  split at hattach
  swap
  · cases hattach
  next hany =>
  obtain ⟨o', hstep, ho⟩ := Option.map_eq_some_iff.mp hattach
  cases ho
  obtain ⟨x, hx, hstage⟩ : ∃ x, c.connection = some x ∧ x.stage = .connecting := by
    cases hx : c.connection with
    | none => rw [hx] at hany; cases hany
    | some x => rw [hx] at hany; exact ⟨x, rfl, by simpa using hany⟩
  obtain ⟨p, hturn, rfl⟩ : ∃ p, x.step (.turn .ready) = some p ∧ o' = c.absorb p := by
    have hstep' : (x.step (.turn .ready)).map c.absorb = some o' := by
      simpa [Client.step, Connection.Action.isOwners, hx] using hstep
    obtain ⟨p, hp, hc⟩ := Option.map_eq_some_iff.mp hstep'
    exact ⟨p, hp, hc.symm⟩
  have hp : p.1.stage ≠ .connecting ∧ Connection.wrote p.2 = [] := by
    have hattached : some x.attach = some p := by
      simpa [Connection.step, Connection.turn, hstage] using hturn
    obtain rfl := Option.some.inj hattached
    unfold Connection.attach
    split
    · exact ⟨by simp, rfl⟩
    · exact ⟨by simp, rfl⟩
  have hact : Client.Act c (fun _ => []) (c.absorb p).1 (c.absorb p).2 := by
    have hact := Client.Act.connection hx hturn (Client.past_absorb c p)
      (Client.connection_absorb c p)
    simp only [Connection.Action.brings, ite_self] at hact
    exact hact
  have hends : (net.absorbClient i (c.absorb p)).1.flows.map Flow.ends = net.flows.map Flow.ends :=
    ends_settle _ _
  have hlt : i < net.clients.length := (List.getElem?_eq_some_iff.mp hi).1
  refine ⟨h.absorbClient hi (.single hact), ⟨_, rfl⟩, ?_, ?_, ?_⟩
  · refine ⟨(c.absorb p).1, List.getElem?_set_self hlt, .inr ⟨p.1, ?_, ?_, hp.1⟩⟩
    · exact congrArg List.length (Client.past_absorb c p).symm
    · exact Client.connection_absorb c p
  · rw [hends]
    intro q hq hfar
    have hmet := h.carried.joined q hq
    rw [hfar] at hmet
    obtain ⟨d, hd, hover | ⟨y, -, hy, hnot⟩⟩ := hmet
    · cases hi.symm.trans hd
      exact Nat.lt_irrefl _ hover
    · cases hi.symm.trans hd
      cases hx.symm.trans hy
      exact hnot hstage
  · have hevents : eventsAt ((c.absorb p).2.map (.client i)) (.client i c.current) = p.2 :=
      (eventsAt_client i c.current p.2 _).trans (if_pos rfl)
    rw [writtenAt_append, h.writtenAt_of_connecting hi hx hstage, List.nil_append]
    show Connection.wrote (eventsAt ((c.absorb p).2.map (.client i)) (.client i c.current)) = []
    rw [hevents]
    exact hp.2

/-- There is another client. -/
theorem enter (h : Faithful start net br es) {c : Client κ} (hnone : c.connection = none) :
    Faithful start { net with clients := net.clients ++ [c] } br (es ++ []) := by
  have hpersists : Persists net { net with clients := net.clients ++ [c] } := by
    intro P hP e he
    cases e with
    | server n => exact he
    | client i k =>
      obtain ⟨d, hi, hafter⟩ := he
      exact ⟨d, (List.getElem?_append_left (List.getElem?_eq_some_iff.mp hi).1).trans hi, hafter⟩
    | stranger j => exact he
  rw [List.append_nil]
  refine ⟨⟨h.parties.server, fun i d hi => ?_, fun i hi => ?_⟩, h.carried.still hpersists rfl⟩
  · by_cases hlt : i < net.clients.length
    · have hi' : (net.clients ++ [c])[i]? = some d := hi
      rw [List.getElem?_append_left hlt] at hi'
      exact h.parties.clients i d hi'
    · have hmem : d ∈ [c] := by
        have hi' : (net.clients ++ [c])[i]? = some d := hi
        rw [List.getElem?_append_right (Nat.le_of_not_lt hlt)] at hi'
        exact List.mem_of_getElem? hi'
      obtain rfl := List.mem_singleton.mp hmem
      obtain ⟨hbr, hes⟩ := h.parties.nobody i (Nat.le_of_not_lt hlt)
      rw [hes, show (fun k => br (.client i k)) = fun _ => [] from funext hbr]
      exact Client.Lives.start hnone
  · have hle : (net.clients ++ [c]).length ≤ i := hi
    rw [List.length_append] at hle
    exact h.parties.nobody i (by omega)

/-- An end that is new is linked with a stranger. -/
theorem meet (h : Faithful start net br es) {i k : Nat} (hmet : net.At Met (.client i k))
    (hfar : ∀ p ∈ net.flows.map Flow.ends, p.2 ≠ .client i k)
    (hwritten : writtenAt es (.client i k) = []) :
    Faithful start
      { net.link (.client i k) (.stranger net.strangers.length) with
        strangers := net.strangers ++ [{}] } br es := by
  have hpersists : Persists net
      { net.link (.client i k) (.stranger net.strangers.length) with
        strangers := net.strangers ++ [{}] } := .of_eq rfl rfl (by simp)
  have hnew : ∀ p ∈ net.flows.map Flow.ends, p.2 ≠ .stranger net.strangers.length := by
    intro p hp heq
    have hjoined := h.carried.joined p hp
    rw [heq] at hjoined
    exact Nat.lt_irrefl _ hjoined
  refine ⟨h.parties.of_eq rfl rfl, ?_⟩
  refine h.carried.link hpersists rfl nofun hfar hnew (hpersists Met stable_met _ hmet) ?_ hwritten
    rfl
  show net.strangers.length < (net.strangers ++ [({} : Stranger)]).length
  simp

section Accepting

variable {settings : ServerSettings} {transport : TransportSettings} {entropy : Source}

theorem regular (h : Faithful (Server.create settings transport entropy) net br es) :
    Server.Regular net.server :=
  (Server.Regular.create settings transport entropy).acts h.parties.server

/-- The server accepts a link from an end to which nothing was linked. -/
theorem acceptFrom (h : Faithful (Server.create settings transport entropy) net br es) {far : End}
    {deeds : List (Nat × Connection.Deed κ)} {approved : Bool} {o : Outcome κ}
    (haccept : net.acceptFrom far deeds approved = some o)
    (hfar : ∀ p ∈ net.flows.map Flow.ends, p.2 ≠ far) (hserver : ∀ n, far ≠ .server n)
    (hmet : net.At Met far) (hwritten : writtenAt es far = []) :
    Faithful (Server.create settings transport entropy) o.1 br (es ++ o.2) := by
  obtain ⟨so, hstep, rfl⟩ := Option.map_eq_some_iff.mp haccept
  have hacts : Server.Acts net.server false (fun _ => []) so.1 false so.2 :=
    Server.acts_of_step h.regular rfl hstep
  have hold := h.parties.server.lives
  have hparties : Parties (Server.create settings transport entropy)
      { net.link far (.server net.server.connections.length) with server := so.1 }
      (fun e => br e ++ atServer (fun _ => []) e) (es ++ so.2.map .server) :=
    h.parties.absorbServer hacts rfl rfl
  rw [append_atServer_nil] at hparties
  have hpersists : Persists net
      { net.link far (.server net.server.connections.length) with server := so.1 } :=
    .server hacts rfl rfl
  have hnew : so.1.Has Met net.server.connections.length := by
    have hlives := hparties.server.lives
    have hlt : net.server.connections.length < so.1.connections.length := by
      by_contra hge
      have hnone := (hlives.blank _ (Nat.le_of_not_lt hge)).2
      simp only [Server.step] at hstep
      split at hstep
      · cases hstep
        rw [serverEvents_append, serverEvents_server, Server.accept_eq] at hnone
        simp [Server.Outcome.andThen, Server.appear, Server.eventsOf, Server.Event.of?] at hnone
      · cases hstep
    have hlast := List.getElem?_eq_getElem hlt
    exact ⟨_, hlast, hparties.server.stage_ne_connecting hlast⟩
  have hnear : ∀ p ∈ net.flows.map Flow.ends, p.2 ≠ .server net.server.connections.length := by
    intro p hp heq
    have hjoined := h.carried.joined p hp
    rw [heq] at hjoined
    obtain ⟨c, hn, -⟩ := hjoined
    exact Nat.lt_irrefl _ (List.getElem?_eq_some_iff.mp hn).1
  have hblank : writtenAt es (.server net.server.connections.length) = [] := by
    show Connection.wrote (Server.eventsOf _ (serverEvents es)) = []
    rw [(hold.blank _ (Nat.le_refl _)).2]
    rfl
  have hlinked : Carried
      { net.link far (.server net.server.connections.length) with server := so.1 } br es :=
    h.carried.link hpersists rfl (hserver _) hfar hnear (hpersists Met stable_met _ hmet) hnew
      hwritten hblank
  exact ⟨hparties.of_eq rfl rfl, hlinked.settle _⟩

/-- A stranger connects to the server. -/
theorem dial (h : Faithful (Server.create settings transport entropy) net br es)
    {deeds : List (Nat × Connection.Deed κ)} {approved : Bool} {o : Outcome κ}
    (haccept : Network.acceptFrom { net with strangers := net.strangers ++ [{}] }
      (.stranger net.strangers.length) deeds approved = some o) :
    Faithful (Server.create settings transport entropy) o.1 br (es ++ o.2) := by
  have hpersists : Persists net { net with strangers := net.strangers ++ [{}] } :=
    .of_eq rfl rfl (by simp)
  have hentered : Faithful (Server.create settings transport entropy)
      { net with strangers := net.strangers ++ [{}] } br es :=
    ⟨h.parties.of_eq rfl rfl, h.carried.still hpersists rfl⟩
  refine hentered.acceptFrom haccept (fun p hp heq => ?_) nofun ?_ rfl
  · have hjoined := h.carried.joined p hp
    rw [heq] at hjoined
    exact Nat.lt_irrefl _ hjoined
  · show net.strangers.length < (net.strangers ++ [({} : Stranger)]).length
    simp

/-- A client gets a socket, and the server accepts the link. -/
theorem join (h : Faithful (Server.create settings transport entropy) net br es) {i : Nat}
    {deeds : List (Nat × Connection.Deed κ)} {approved : Bool} {o : Outcome κ}
    (hstep : net.step (.join i deeds approved) = some o) :
    Faithful (Server.create settings transport entropy) o.1 br (es ++ o.2) := by
  simp only [Network.step] at hstep
  split at hstep
  · cases hstep
  · next o₁ far hattach =>
    obtain ⟨p, hp, rfl⟩ := Option.map_eq_some_iff.mp hstep
    obtain ⟨hfaithful, ⟨k, rfl⟩, hmet, hfar, hwritten⟩ := h.attach hattach
    have haccepted := hfaithful.acceptFrom hp hfar nofun hmet hwritten
    rw [List.append_assoc] at haccepted
    exact haccepted

/-! ### Steps -/

/-- **Every step keeps the books**, unless the application puts letters into the inbound queue of the
server or takes some out. -/
theorem step {a : Action κ} {o : Outcome κ}
    (h : Faithful (Server.create settings transport entropy) net br es)
    (ha : a.isTampering = false) (hstep : net.step a = some o) :
    ∃ br', Faithful (Server.create settings transport entropy) o.1 br' (es ++ o.2) := by
  cases a with
  | server a =>
    simp only [Network.step] at hstep
    split at hstep
    · next hown =>
      obtain ⟨so, hso, rfl⟩ := Option.map_eq_some_iff.mp hstep
      have hacts := Server.acts_of_step h.regular ha hso
      rw [brings_of_own hown] at hacts
      exact ⟨br, h.absorbServer hacts⟩
    · cases hstep
  | client i a =>
    obtain ⟨c, hi, hc⟩ := Option.bind_eq_some_iff.mp hstep
    split at hc
    · next hown =>
      obtain ⟨co, hco, rfl⟩ := Option.map_eq_some_iff.mp hc
      have hacts := Client.acts_of_step hco
      rw [brings_of_clientsOwn hown] at hacts
      exact ⟨br, h.absorbClient hi hacts⟩
    · cases hc
  | enter c =>
    simp only [Network.step] at hstep
    split at hstep
    · next hnone =>
      cases hstep
      exact ⟨br, h.enter hnone⟩
    · cases hstep
  | join i deeds approved => exact ⟨br, h.join hstep⟩
  | meet i =>
    obtain ⟨⟨o₁, far⟩, hattach, rfl⟩ := Option.map_eq_some_iff.mp hstep
    obtain ⟨hfaithful, ⟨k, rfl⟩, hmet, hfar, hwritten⟩ := h.attach hattach
    exact ⟨br, hfaithful.meet hmet hfar hwritten⟩
  | dial deeds approved =>
    exact ⟨br, h.dial hstep⟩
  | write i bytes => exact ⟨br, h.write hstep⟩
  | cut i keep ending => exact ⟨br, h.cut hstep⟩
  | carry i k => exact h.carry hstep
  | conclude i => exact h.conclude hstep

end Accepting

end Faithful

end Parley.Network
