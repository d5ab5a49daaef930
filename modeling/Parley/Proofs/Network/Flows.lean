import Parley.Network
import Parley.Proofs.Client.Lives
import Parley.Proofs.Server.Lives

/-!
# Parley.Proofs.Network.Flows — what a flow does with the bytes written into it

The bytes written at the source of a flow are those that arrived at its target and, behind them,
those in flight, as long as the flow goes on and the target listens; what arrived is in any case the
beginning of what was written (`Flow.Conveys`).  In a network every flow does so, and no two flows
have the same target (`Carried`).
-/

namespace Parley.Network

variable {κ : Type}

/-! ### The history of an end -/

def Event.server? : Event κ → Option (Server.Event κ)
  | .server e => some e
  | _ => none

def Event.client? (i : Nat) : Event κ → Option (Client.Event κ)
  | .client j e => if j = i then some e else none
  | _ => none

/-- What happened to the server. -/
def serverEvents (es : List (Event κ)) : List (Server.Event κ) := es.filterMap Event.server?

/-- What happened to client `i`. -/
def clientEvents (i : Nat) (es : List (Event κ)) : List (Client.Event κ) :=
  es.filterMap (Event.client? i)

/-- What happened to the connection at an end. -/
def eventsAt (es : List (Event κ)) : End → List (Connection.Event κ)
  | .server n => Server.eventsOf n (serverEvents es)
  | .client i k => Client.eventsOf k (clientEvents i es)
  | .stranger _ => []

/-- The bytes written at an end. -/
def writtenAt (es : List (Event κ)) (e : End) : List UInt8 := Connection.wrote (eventsAt es e)

section Append

variable (es fs : List (Event κ))

@[simp] theorem serverEvents_append :
    serverEvents (es ++ fs) = serverEvents es ++ serverEvents fs := List.filterMap_append

@[simp] theorem clientEvents_append (i : Nat) :
    clientEvents i (es ++ fs) = clientEvents i es ++ clientEvents i fs := List.filterMap_append

@[simp] theorem eventsAt_append (e : End) :
    eventsAt (es ++ fs) e = eventsAt es e ++ eventsAt fs e := by
  cases e with
  | server n => simp [eventsAt]
  | client i k => simp [eventsAt]
  | stranger i => rfl

@[simp] theorem writtenAt_append (e : End) :
    writtenAt (es ++ fs) e = writtenAt es e ++ writtenAt fs e := by
  simp [writtenAt]

end Append

theorem serverEvents_server (es : List (Server.Event κ)) : serverEvents (es.map .server) = es := by
  rw [serverEvents, List.filterMap_map]
  exact List.filterMap_some

theorem serverEvents_client (i : Nat) (es : List (Client.Event κ)) :
    serverEvents (es.map (.client i)) = [] := by
  simp [serverEvents, Event.server?]

theorem clientEvents_server (i : Nat) (es : List (Server.Event κ)) :
    clientEvents i (es.map .server) = [] := by
  simp [clientEvents, Event.client?]

theorem clientEvents_client (i j : Nat) (es : List (Client.Event κ)) :
    clientEvents i (es.map (.client j)) = if j = i then es else [] := by
  rw [clientEvents, List.filterMap_map]
  split
  · next h =>
    have hof : Event.client? i ∘ Event.client (κ := κ) j = some := by
      funext e
      exact if_pos h
    rw [hof, List.filterMap_some]
  · next h => exact List.filterMap_eq_nil_iff.mpr fun e _ => if_neg h

/-- What a step of connection `n` of the server adds to the history of an end. -/
theorem eventsAt_server (n : Nat) (ces : List (Connection.Event κ)) (e : End) :
    eventsAt ((ces.map (.connection n)).map .server) e = if e = .server n then ces else [] := by
  cases e with
  | server k =>
    rw [eventsAt, serverEvents_server, Server.eventsOf_connection]
    simp only [End.server.injEq, eq_comm]
  | client i k =>
    rw [eventsAt, clientEvents_server]
    rfl
  | stranger i => rfl

/-- What a step of the `k`-th connection of client `i` adds to the history of an end. -/
theorem eventsAt_client (i k : Nat) (ces : List (Connection.Event κ)) (e : End) :
    eventsAt ((ces.map (⟨k, ·⟩)).map (.client i)) e = if e = .client i k then ces else [] := by
  cases e with
  | server n =>
    rw [eventsAt, serverEvents_client]
    rfl
  | client j l =>
    rw [eventsAt, clientEvents_client]
    by_cases hi : i = j
    · rw [if_pos hi, Client.eventsOf_map]
      simp only [End.client.injEq, hi, true_and, eq_comm]
    · rw [if_neg hi, if_neg fun h => hi (End.client.inj h).1.symm]
      rfl
  | stranger j => rfl

/-! ### Routing -/

/-- A flow takes bytes as long as it has not ended. -/
def Flow.take (f : Flow) (bytes : List UInt8) : Flow :=
  if f.ending = none then { f with inFlight := f.inFlight ++ bytes } else f

theorem Flow.take_nil (f : Flow) : f.take [] = f := by
  unfold take
  rw [List.append_nil, ite_self]

theorem Flow.take_take (f : Flow) (bs cs : List UInt8) : (f.take bs).take cs = f.take (bs ++ cs) := by
  unfold take
  by_cases h : f.ending = none
  · rw [if_pos h, if_pos h, if_pos h, List.append_assoc]
  · rw [if_neg h, if_neg h, if_neg h]

@[simp] theorem Flow.source_take (f : Flow) (bs : List UInt8) : (f.take bs).source = f.source := by
  unfold take
  split <;> rfl

theorem emit_eq (source : End) (bytes : List UInt8) (flows : List Flow) :
    emit source bytes flows = flows.map fun f => f.take (if f.source = source then bytes else []) := by
  refine List.map_congr_left fun f _ => ?_
  by_cases hs : f.source = source
  · simp [Flow.take, hs]
  · rw [if_neg hs, Flow.take_nil, if_neg fun h => hs h.1]

theorem emit_nil (source : End) (flows : List Flow) : emit source [] flows = flows := by
  rw [emit_eq]
  simp only [ite_self, Flow.take_nil, List.map_id']

theorem route_server (flows : List Flow) (n : Nat) (ce : Connection.Event κ) :
    route flows (.server (.connection n ce)) = emit (.server n) ce.written flows := by
  cases ce <;> first | rfl | exact (emit_nil _ _).symm

theorem route_client (flows : List Flow) (i k : Nat) (ce : Connection.Event κ) :
    route flows (.client i ⟨k, ce⟩) = emit (.client i k) ce.written flows := by
  cases ce <;> first | rfl | exact (emit_nil _ _).symm

theorem writtenAt_server (n : Nat) (ce : Connection.Event κ) (e : End) :
    writtenAt [.server (.connection n ce)] e = if e = .server n then ce.written else [] := by
  have hevents := eventsAt_server n [ce] e
  rw [List.map_singleton, List.map_singleton] at hevents
  rw [writtenAt, hevents]
  split
  · simp [Connection.wrote]
  · rfl

theorem writtenAt_client (i k : Nat) (ce : Connection.Event κ) (e : End) :
    writtenAt [.client i ⟨k, ce⟩] e = if e = .client i k then ce.written else [] := by
  have hevents := eventsAt_client i k [ce] e
  rw [List.map_singleton, List.map_singleton] at hevents
  rw [writtenAt, hevents]
  split
  · simp [Connection.wrote]
  · rfl

/-- A flow gets what an event wrote at its source. -/
theorem route_eq (flows : List Flow) (e : Event κ) :
    route flows e = flows.map fun f => f.take (writtenAt [e] f.source) := by
  cases e with
  | server e =>
    cases e with
    | connection n ce =>
      rw [route_server, emit_eq]
      simp only [writtenAt_server]
    | _ =>
      refine (List.map_id flows).symm.trans (List.map_congr_left fun f _ => ?_)
      cases f.source <;> exact (Flow.take_nil f).symm
  | client i e =>
    obtain ⟨k, ce⟩ := e
    rw [route_client, emit_eq]
    simp only [writtenAt_client]

/-- Every flow gets what was written at its source. -/
theorem foldl_route (es : List (Event κ)) (flows : List Flow) :
    es.foldl route flows = flows.map fun f => f.take (writtenAt es f.source) := by
  induction es generalizing flows with
  | nil =>
    have hsame : (fun f : Flow => f.take (writtenAt ([] : List (Event κ)) f.source)) = id := by
      funext f
      have hnone : writtenAt ([] : List (Event κ)) f.source = [] := by cases f.source <;> rfl
      rw [hnone, Flow.take_nil]
      rfl
    rw [hsame, List.map_id, List.foldl_nil]
  | cons e es ih =>
    rw [List.foldl_cons, ih, route_eq, List.map_map]
    refine List.map_congr_left fun f _ => ?_
    have hsplit : writtenAt (e :: es) f.source = writtenAt [e] f.source ++ writtenAt es f.source :=
      writtenAt_append [e] es f.source
    rw [hsplit, ← Flow.take_take, Function.comp_apply, Flow.source_take]

/-! ### One flow -/

namespace Flow

/-- What a flow has made of the bytes written at its source; a deaf target takes no more of them. -/
structure Conveys (f : Flow) (arrived written : List UInt8) (deaf : Prop) : Prop where
  told : arrived <+: written
  flying : ¬deaf → arrived ++ f.inFlight <+: written
  whole : ¬deaf → f.ending = none → arrived ++ f.inFlight = written

namespace Conveys

variable {f : Flow} {arrived written : List UInt8} {deaf deaf' : Prop}

theorem mono (h : f.Conveys arrived written deaf) (hdeaf : deaf → deaf') :
    f.Conveys arrived written deaf' where
  told := h.told
  flying hnot := h.flying (mt hdeaf hnot)
  whole hnot := h.whole (mt hdeaf hnot)

/-- More is written. -/
theorem take (h : f.Conveys arrived written deaf) (bytes : List UInt8) :
    (f.take bytes).Conveys arrived (written ++ bytes) deaf := by
  unfold Flow.take
  by_cases hgoes : f.ending = none
  · rw [if_pos hgoes]
    have hwhole : ¬deaf → arrived ++ (f.inFlight ++ bytes) = written ++ bytes := by
      intro hnot
      rw [← List.append_assoc, h.whole hnot hgoes]
    refine ⟨h.told.trans (List.prefix_append _ _), fun hnot => ?_, fun hnot _ => hwhole hnot⟩
    exact hwhole hnot ▸ List.prefix_refl _
  · rw [if_neg hgoes]
    exact ⟨h.told.trans (List.prefix_append _ _),
      fun hnot => (h.flying hnot).trans (List.prefix_append _ _), fun _ hgo => absurd hgo hgoes⟩

/-- The flow ends after some of the bytes in flight. -/
theorem cut (h : f.Conveys arrived written deaf) {bytes : List UInt8} {ended : Bool}
    (hbytes : bytes <+: f.inFlight) (ending : Connection.Ending) :
    Conveys { f with inFlight := bytes, ending := some ending, ended := ended } arrived written
      deaf where
  told := h.told
  flying hnot := ((List.prefix_append_right_inj _).mpr hbytes).trans (h.flying hnot)
  whole _ hgo := nomatch hgo

/-- The first bytes in flight arrive. -/
theorem carry (h : f.Conveys arrived written deaf) (hnot : ¬deaf) (k : Nat) :
    Conveys { f with inFlight := f.inFlight.drop k } (arrived ++ f.inFlight.take k) written
      deaf := by
  have hall : arrived ++ f.inFlight.take k ++ f.inFlight.drop k = arrived ++ f.inFlight := by
    rw [List.append_assoc, List.take_append_drop]
  refine ⟨?_, fun _ => ?_, fun _ hgoes => ?_⟩
  · exact ((List.prefix_append_right_inj _).mpr (List.take_prefix k _)).trans (h.flying hnot)
  · rw [hall]
    exact h.flying hnot
  · rw [hall]
    exact h.whole hnot hgoes

/-- A deaf target loses what is delivered. -/
theorem of_deaf (h : f.Conveys arrived written deaf) (hdeaf : deaf) (f' : Flow) :
    f'.Conveys arrived written deaf where
  told := h.told
  flying hnot := absurd hdeaf hnot
  whole hnot := absurd hdeaf hnot

end Conveys

/-- Where a flow begins and where it ends. -/
def ends (f : Flow) : End × End := (f.source, f.target)

@[simp] theorem ends_take (f : Flow) (bytes : List UInt8) : (f.take bytes).ends = f.ends := by
  unfold Flow.take
  split <;> rfl

end Flow

/-- Settling leaves every flow where it goes. -/
theorem ends_settle (net : Network κ) (fs : List (Event κ)) :
    (net.settle fs).1.flows.map Flow.ends = net.flows.map Flow.ends := by
  simp only [settle, endFlows, foldl_route, List.map_map]
  refine List.map_congr_left fun f _ => ?_
  simp only [Function.comp_apply]
  split
  · exact Flow.ends_take f _
  · exact Flow.ends_take f _

/-! ### The connections at the ends -/

/-- There was a connection at an end, and it is over or has a property; of strangers nothing is
known. -/
def At (net : Network κ) (P : Connection κ → Prop) : End → Prop
  | .server n => net.server.Has P n
  | .client i k => ∃ c, net.clients[i]? = some c ∧ c.After P k
  | .stranger j => j < net.strangers.length

/-- The stream that arrives has ended. -/
def Ended (x : Connection κ) : Prop := x.inlet.ending ≠ none

/-- The connection has had a socket. -/
def Met (x : Connection κ) : Prop := x.stage ≠ .connecting

/-- The flows of a network carry the bytes written at their sources to their targets. -/
structure Carried (net : Network κ) (br : End → List UInt8) (es : List (Event κ)) : Prop where
  conveys : ∀ f ∈ net.flows, (∀ j, f.source ≠ .stranger j) →
    f.Conveys (br f.target) (writtenAt es f.source) (net.At Ended f.target)
  unheard : ∀ e, (∀ p ∈ net.flows.map Flow.ends, p.2 ≠ e) → br e = []
  apart : ((net.flows.map Flow.ends).map Prod.snd).Nodup
  paired : ∀ p ∈ net.flows.map Flow.ends, p.swap ∈ net.flows.map Flow.ends
  joined : ∀ p ∈ net.flows.map Flow.ends, net.At Met p.2

variable [Kind κ] {net net' : Network κ} {br br' : End → List UInt8} {es fs : List (Event κ)}

open Connection (Stable)

theorem stable_ended : Stable (κ := κ) Ended := by
  intro x a o hstep hended
  have hterms : o.1.inlet.ending = x.inlet.ending.or a.ends :=
    congrArg Connection.Terms.ending (Connection.terms_step hstep)
  unfold Ended at hended ⊢
  rw [hterms]
  exact fun h => hended (Option.or_eq_none_iff.mp h).1

theorem stable_met : Stable (κ := κ) Met := fun _ _ _ hstep h =>
  Connection.stage_ne_connecting hstep h

/-- What is true at an end stays true. -/
def Persists (net net' : Network κ) : Prop := ∀ P, Stable P → ∀ e, net.At P e → net'.At P e

namespace Persists

theorem of_eq (hserver : net'.server = net.server) (hclients : net'.clients = net.clients)
    (hstrangers : net.strangers.length ≤ net'.strangers.length) : Persists net net' := by
  intro P hP e h
  cases e with
  | server n =>
    unfold At at h ⊢
    rwa [hserver]
  | client i k =>
    unfold At at h ⊢
    rwa [hclients]
  | stranger j => exact Nat.lt_of_lt_of_le h hstrangers

theorem trans {net'' : Network κ} (h : Persists net net') (h' : Persists net' net'') :
    Persists net net'' := fun P hP e he => h' P hP e (h P hP e he)

theorem server {b b' : Bool} {sbr : Nat → List UInt8} {ses : List (Server.Event κ)}
    (hacts : Server.Acts net.server b sbr net'.server b' ses) (hclients : net'.clients = net.clients)
    (hstrangers : net'.strangers = net.strangers) : Persists net net' := by
  intro P hP e h
  cases e with
  | server n => exact Server.Has.acts hP h hacts
  | client i k =>
    unfold At at h ⊢
    rwa [hclients]
  | stranger j =>
    unfold At at h ⊢
    rwa [hstrangers]

theorem client {i : Nat} {c c' : Client κ} {cbr : Nat → List UInt8} {ces : List (Client.Event κ)}
    (hi : net.clients[i]? = some c) (hacts : Client.Acts c cbr c' ces)
    (hserver : net'.server = net.server) (hclients : net'.clients = net.clients.set i c')
    (hstrangers : net'.strangers = net.strangers) : Persists net net' := by
  intro P hP e h
  cases e with
  | server n =>
    unfold At at h ⊢
    rwa [hserver]
  | client j k =>
    obtain ⟨d, hj, hafter⟩ := h
    unfold At
    rw [hclients]
    by_cases hij : i = j
    · subst hij
      cases hi.symm.trans hj
      exact ⟨c', List.getElem?_set_self (List.getElem?_eq_some_iff.mp hi).1, hafter.acts hP hacts⟩
    · exact ⟨d, (List.getElem?_set_ne hij).trans hj, hafter⟩
  | stranger j =>
    unfold At at h ⊢
    rwa [hstrangers]

end Persists

/-! ### All flows -/

namespace Carried

/-- The flows go where they went, and each has conveyed what it should. -/
theorem keep (h : Carried net br es) (hpersists : Persists net net')
    (hends : net'.flows.map Flow.ends = net.flows.map Flow.ends)
    (hbr : ∀ e, (∀ p ∈ net.flows.map Flow.ends, p.2 ≠ e) → br' e = br e)
    (hconveys : ∀ f ∈ net'.flows, (∀ j, f.source ≠ .stranger j) →
      f.Conveys (br' f.target) (writtenAt (es ++ fs) f.source) (net'.At Ended f.target)) :
    Carried net' br' (es ++ fs) where
  conveys := hconveys
  unheard e he := by
    rw [hends] at he
    exact (hbr e he).trans (h.unheard e he)
  apart := by
    rw [hends]
    exact h.apart
  paired := by
    rw [hends]
    exact h.paired
  joined p hp := by
    rw [hends] at hp
    exact hpersists Met stable_met p.2 (h.joined p hp)

/-- Nothing happens to the flows. -/
theorem still (h : Carried net br es) (hpersists : Persists net net')
    (hflows : net'.flows = net.flows) : Carried net' br es := by
  rw [← List.append_nil es]
  refine h.keep hpersists (by rw [hflows]) (fun _ _ => rfl) fun f hf hsource => ?_
  rw [hflows] at hf
  rw [List.append_nil]
  exact (h.conveys f hf hsource).mono (hpersists Ended stable_ended _)

/-- The bytes that a step of a party wrote go into their flows. -/
theorem settle (h : Carried net br es) (fs : List (Event κ)) :
    Carried (net.settle fs).1 br (es ++ fs) := by
  refine h.keep (.of_eq rfl rfl (Nat.le_refl _)) (ends_settle net fs) (fun _ _ => rfl)
    fun f hf hsource => ?_
  simp only [Network.settle, endFlows, foldl_route, List.map_map] at hf
  obtain ⟨f₀, hf₀, rfl⟩ := List.mem_map.mp hf
  rw [Function.comp_apply] at hsource ⊢
  generalize hg : f₀.take (writtenAt fs f₀.source) = g at hsource ⊢
  have hends₀ : g.ends = f₀.ends := hg ▸ Flow.ends_take f₀ _
  have hsource₀ : g.source = f₀.source := congrArg Prod.fst hends₀
  have htarget₀ : g.target = f₀.target := congrArg Prod.snd hends₀
  have htaken : (∀ j, g.source ≠ .stranger j) →
      g.Conveys (br g.target) (writtenAt (es ++ fs) g.source) (net.At Ended g.target) := by
    rw [hsource₀, htarget₀, writtenAt_append, ← hg]
    exact fun hknown => (h.conveys f₀ hf₀ hknown).take _
  split
  · next hlet =>
    rw [if_pos hlet] at hsource
    exact (htaken hsource).cut (List.prefix_refl _) .finished
  · next hlet =>
    rw [if_neg hlet] at hsource
    exact htaken hsource

/-- One flow is replaced by another one with the same ends. -/
theorem replace (h : Carried net br es) {i : Nat} {f f' : Flow} (hf : net.flows[i]? = some f)
    (hends : f'.ends = f.ends) (hpersists : Persists net net')
    (hflows : net'.flows = net.flows.set i f') (hbr : ∀ e, e ≠ f.target → br' e = br e)
    (hconveys : (∀ j, f.source ≠ .stranger j) →
      f'.Conveys (br' f.target) (writtenAt es f.source) (net'.At Ended f.target)) :
    Carried net' br' es := by
  have hlt : i < net.flows.length := (List.getElem?_eq_some_iff.mp hf).1
  have hi : (net.flows.map Flow.ends)[i]? = some f.ends := by
    rw [List.getElem?_map, hf]
    rfl
  have hsame : net'.flows.map Flow.ends = net.flows.map Flow.ends := by
    obtain ⟨hlt', hget⟩ := List.getElem?_eq_some_iff.mp hi
    rw [hflows, List.map_set, hends, ← hget, List.set_getElem_self]
  rw [← List.append_nil es]
  refine h.keep hpersists hsame (fun e he => hbr e ?_) fun g hg hsource => ?_
  · exact Ne.symm (he f.ends (List.mem_of_getElem? hi))
  · rw [List.append_nil]
    rw [hflows] at hg
    obtain ⟨j, hj⟩ := List.mem_iff_getElem?.mp hg
    by_cases hij : i = j
    · subst hij
      rw [List.getElem?_set_self hlt] at hj
      cases hj
      rw [show f'.target = f.target from congrArg Prod.snd hends]
      rw [show f'.source = f.source from congrArg Prod.fst hends] at hsource ⊢
      exact hconveys hsource
    · rw [List.getElem?_set_ne hij] at hj
      have hother : g.target ≠ f.target := by
        intro heq
        refine hij ((List.getElem?_inj ?_ h.apart).mp ?_)
        · simpa using hlt
        · simp only [List.getElem?_map, hf, hj, Option.map_some]
          exact congrArg some heq.symm
      rw [hbr g.target hother]
      have hmem := List.mem_of_getElem? hj
      exact (h.conveys g hmem hsource).mono (hpersists Ended stable_ended _)

/-- Two ends that were not linked before are linked. -/
theorem link (h : Carried net br es) {a b : End} (hpersists : Persists net net')
    (hflows : net'.flows = net.flows ++ [{ source := a, target := b }, { source := b, target := a }])
    (hne : a ≠ b) (ha : ∀ p ∈ net.flows.map Flow.ends, p.2 ≠ a)
    (hb : ∀ p ∈ net.flows.map Flow.ends, p.2 ≠ b) (hmeta : net'.At Met a) (hmetb : net'.At Met b)
    (hwa : writtenAt es a = []) (hwb : writtenAt es b = []) : Carried net' br es := by
  have hnew : ∀ x y : End, br y = [] → writtenAt es x = [] →
      Flow.Conveys { source := x, target := y } (br y) (writtenAt es x) (net'.At Ended y) := by
    intro x y hy hx
    rw [hy, hx]
    exact ⟨List.nil_prefix, fun _ => List.nil_prefix, fun _ _ => rfl⟩
  have hends : net'.flows.map Flow.ends = net.flows.map Flow.ends ++ [(a, b), (b, a)] := by
    rw [hflows, List.map_append]
    rfl
  refine ⟨?_, ?_, ?_, ?_, ?_⟩
  · rw [hflows]
    intro f hf hsource
    rcases List.mem_append.mp hf with hf | hf
    · exact (h.conveys f hf hsource).mono (hpersists Ended stable_ended _)
    · rcases List.mem_cons.mp hf with rfl | hf
      · exact hnew a b (h.unheard b hb) hwa
      · obtain rfl := List.mem_singleton.mp hf
        exact hnew b a (h.unheard a ha) hwb
  · rw [hends]
    exact fun e he => h.unheard e fun p hp => he p (List.mem_append_left _ hp)
  · rw [hends, List.map_append]
    refine List.nodup_append.mpr ⟨h.apart, ?_, ?_⟩
    · simpa using Ne.symm hne
    · intro x hx y hy
      obtain ⟨p, hp, rfl⟩ := List.mem_map.mp hx
      rcases List.mem_cons.mp hy with rfl | hy
      · exact hb p hp
      · obtain rfl := List.mem_singleton.mp hy
        exact ha p hp
  · rw [hends]
    intro p hp
    rcases List.mem_append.mp hp with hp | hp
    · exact List.mem_append_left _ (h.paired p hp)
    · refine List.mem_append_right _ ?_
      rcases List.mem_cons.mp hp with rfl | hp
      · simp
      · obtain rfl := List.mem_singleton.mp hp
        simp
  · rw [hends]
    intro p hp
    rcases List.mem_append.mp hp with hp | hp
    · exact hpersists Met stable_met p.2 (h.joined p hp)
    · rcases List.mem_cons.mp hp with rfl | hp
      · exact hmetb
      · obtain rfl := List.mem_singleton.mp hp
        exact hmeta

/-- A stranger writes. -/
theorem write (h : Carried net br es) (i : Nat) (bytes : List UInt8) (hpersists : Persists net net')
    (hflows : net'.flows = emit (.stranger i) bytes net.flows) : Carried net' br es := by
  rw [emit_eq] at hflows
  have hends : net'.flows.map Flow.ends = net.flows.map Flow.ends := by
    rw [hflows, List.map_map]
    exact List.map_congr_left fun f _ => Flow.ends_take f _
  rw [← List.append_nil es]
  refine h.keep hpersists hends (fun _ _ => rfl) fun f hf hsource => ?_
  rw [List.append_nil]
  rw [hflows] at hf
  obtain ⟨g, hg, rfl⟩ := List.mem_map.mp hf
  rw [Flow.source_take] at hsource
  rw [if_neg (hsource i), Flow.take_nil]
  exact (h.conveys g hg hsource).mono (hpersists Ended stable_ended _)

end Carried

end Parley.Network
