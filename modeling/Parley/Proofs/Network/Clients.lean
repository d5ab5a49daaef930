import Parley.Proofs.Client.Lifecycle
import Parley.Proofs.Network.Flows

/-!
# Parley.Proofs.Network.Clients — the inbound queues of the clients

A step of a network is nothing to its clients, or a step of one of them, or one enters (`Fares`).  So
what is put into the inbound queue of a client (`mailAt`) is what its connections read, one after the
other (`queuedAt_run`), and it waits there behind what the client held when it entered, but for what its
application takes out (`waits_run`).
-/

namespace Parley.Network

open Client (Passes letterOf)

variable {κ : Type}

/-! ### What is put into the queue of a client -/

/-- The letters that a step put into the inbound queue of client `i`, with the number of the connection
it had. -/
def putAt (i : Nat) (net net' : Network κ) : List (Nat × Letter κ) :=
  match net.clients[i]?, net'.clients[i]? with
  | some c, some c' => (c.put c').map (c.current, ·)
  | _, _ => []

/-- The letters that were put there in a run. -/
def mailAt [Kind κ] (i : Nat) : Network κ → List (Action κ) → List (Nat × Letter κ)
  | _, [] => []
  | net, a :: as =>
    match net.step a with
    | none => []
    | some o => putAt i net o.1 ++ mailAt i o.1 as

/-- The messages that were put there while client `i` had its `k`-th connection. -/
def queuedAt [Kind κ] (i k : Nat) (net : Network κ) (as : List (Action κ)) : List (Message κ) :=
  ((mailAt i net as).filter (·.1 = k)).map (·.2.message)

/-! ### What is done to a client -/

def Action.entering? : Action κ → Option (Client κ)
  | .enter c => some c
  | _ => none

/-- The clients that entered, as they were then. -/
def entered (as : List (Action κ)) : List (Client κ) := as.filterMap Action.entering?

theorem entered_append (as bs : List (Action κ)) : entered (as ++ bs) = entered as ++ entered bs :=
  List.filterMap_append

/-- The application of client `i` takes a letter out of the inbound queue. -/
def Action.isTakeAt (i : Nat) : Action κ → Bool
  | .client j a => j == i && a.isTake
  | _ => false

/-- How many letters it takes. -/
def takesAt (i : Nat) (as : List (Action κ)) : Nat := as.countP (Action.isTakeAt i)

theorem takesAt_concat (i : Nat) (as : List (Action κ)) (a : Action κ) :
    takesAt i (as ++ [a]) = takesAt i as + takesAt i [a] := List.countP_append

theorem takesAt_client (i j : Nat) (a : Client.Action κ) :
    takesAt j [.client i a] = if i = j then Client.takes [a] else 0 := by
  simp only [takesAt, Client.takes, List.countP_singleton, Action.isTakeAt]
  by_cases hij : i = j <;> simp [hij]

variable [Kind κ] {net net' : Network κ} {es : List (Event κ)}

theorem mailAt_concat {i : Nat} {start : Network κ} {as : List (Action κ)} {a : Action κ} {o : Outcome κ}
    (hrun : start.run as = some (net, es)) (hstep : net.step a = some o) :
    mailAt i start (as ++ [a]) = mailAt i start as ++ putAt i net o.1 := by
  induction as generalizing start es with
  | nil =>
    cases hrun
    simp [mailAt, hstep]
  | cons b as ih =>
    obtain ⟨net₁, es₁, es₂, hfirst, hrest, -⟩ := Run.all_cons_eq_some_iff.mp hrun
    simp only [List.cons_append, mailAt, hfirst]
    rw [ih hrest, List.append_assoc]

/-! ### Steps -/

/-- What a step of a network is to its clients. -/
inductive Fares (net : Network κ) (a : Action κ) (o : Outcome κ) : Prop
  /-- Nothing. -/
  | still (hclients : o.1.clients = net.clients) (hevents : ∀ i, clientEvents i o.2 = [])
    (htakes : ∀ i, takesAt i [a] = 0) (hentered : entered [a] = [])
  /-- A step of one of them. -/
  | steps {i : Nat} {c : Client κ} {ca : Client.Action κ} {co : Client.Outcome κ}
    (hi : net.clients[i]? = some c) (hstep : c.step ca = some co)
    (hclients : o.1.clients = net.clients.set i co.1)
    (hevents : ∀ j, clientEvents j o.2 = if i = j then co.2 else [])
    (htakes : ∀ j, takesAt j [a] = if i = j then Client.takes [ca] else 0) (hentered : entered [a] = [])
  /-- There is another one. -/
  | enters {c : Client κ} (ha : a = .enter c) (hclients : o.1.clients = net.clients ++ [c])
    (hevents : o.2 = [])

/-- A step of the connection of a client. -/
theorem Fares.of_connection {a : Action κ} {o : Outcome κ} {i : Nat} {c : Client κ}
    {xa : Connection.Action κ} {co : Client.Outcome κ} (hi : net.clients[i]? = some c)
    (hstep : c.step (.connection xa) = some co) (hclients : o.1.clients = net.clients.set i co.1)
    (hevents : ∀ j, clientEvents j o.2 = if i = j then co.2 else []) (htakes : ∀ j, takesAt j [a] = 0)
    (hentered : entered [a] = []) : Fares net a o :=
  .steps hi hstep hclients hevents (fun j => (htakes j).trans (ite_self 0).symm) hentered

/-- A client gets a socket by a step of its own. -/
theorem exists_step_of_attach {i : Nat} {o : Outcome κ} {far : End}
    (h : net.attach i = some (o, far)) : ∃ c co, net.clients[i]? = some c ∧
      c.step (.connection (.turn .ready)) = some co ∧ o = net.absorbClient i co := by
  unfold attach at h
  split at h
  · cases h
  · next c hi =>
    split at h
    · obtain ⟨co, hstep, ho⟩ := Option.map_eq_some_iff.mp h
      cases ho
      exact ⟨c, co, hi, hstep, rfl⟩
    · cases h

/-- Where something arrives, at most one client makes a step. -/
theorem fares_deliver {a : Action κ} (hclients : net'.clients = net.clients) (target : End)
    (xa : Connection.Action κ) (s : Stranger → Stranger) (htakes : ∀ j, takesAt j [a] = 0)
    (hentered : entered [a] = []) : Fares net a (net'.deliver target xa s) := by
  have hstill : ∀ net' : Network κ, net'.clients = net.clients → Fares net a (net', []) :=
    fun net' hclients => .still hclients (fun _ => rfl) htakes hentered
  unfold deliver
  cases target with
  | server n =>
    dsimp only
    split
    · exact .still hclients (fun i => clientEvents_server i _) htakes hentered
    · exact hstill net' hclients
  | client i n =>
    dsimp only
    split
    · next c hi =>
      split
      · next co hco =>
        split at hco
        · exact .of_connection (hclients ▸ hi) hco (congrArg (·.set i co.1) hclients)
            (fun j => clientEvents_client j i co.2) htakes hentered
        · cases hco
      · exact hstill net' hclients
    · exact hstill net' hclients
  | stranger i => exact hstill _ hclients

/-- The server accepts a link, and that is nothing to a client. -/
theorem clients_acceptFrom {far : End} {deeds : List (Nat × Connection.Deed κ)} {approved : Bool}
    {o : Outcome κ} (h : net.acceptFrom far deeds approved = some o) :
    o.1.clients = net.clients ∧ ∀ i, clientEvents i o.2 = [] := by
  obtain ⟨so, -, rfl⟩ := Option.map_eq_some_iff.mp h
  exact ⟨rfl, fun i => clientEvents_server i _⟩

/-- **Every step is one of these.** -/
theorem fares_of_step {a : Action κ} {o : Outcome κ} (hstep : net.step a = some o) : Fares net a o := by
  cases a with
  | server a =>
    simp only [step] at hstep
    split at hstep
    · obtain ⟨so, -, rfl⟩ := Option.map_eq_some_iff.mp hstep
      exact .still rfl (fun i => clientEvents_server i _) (fun _ => rfl) rfl
    · cases hstep
  | client i a =>
    obtain ⟨c, hi, hc⟩ := Option.bind_eq_some_iff.mp hstep
    split at hc
    · obtain ⟨co, hco, rfl⟩ := Option.map_eq_some_iff.mp hc
      exact .steps hi hco rfl (fun j => clientEvents_client j i co.2) (fun j => takesAt_client i j a) rfl
    · cases hc
  | enter c =>
    simp only [step] at hstep
    split at hstep
    · cases hstep
      exact .enters rfl rfl rfl
    · cases hstep
  | join i deeds approved =>
    simp only [step] at hstep
    split at hstep
    · cases hstep
    · next o₁ far hattach =>
      obtain ⟨p, hp, rfl⟩ := Option.map_eq_some_iff.mp hstep
      obtain ⟨c, co, hi, hco, rfl⟩ := exists_step_of_attach hattach
      obtain ⟨hclients, hevents⟩ := clients_acceptFrom hp
      refine .of_connection hi hco hclients (fun j => ?_) (fun _ => rfl) rfl
      rw [clientEvents_append, hevents, List.append_nil]
      exact clientEvents_client j i co.2
  | meet i =>
    obtain ⟨⟨o₁, far⟩, hattach, rfl⟩ := Option.map_eq_some_iff.mp hstep
    obtain ⟨c, co, hi, hco, rfl⟩ := exists_step_of_attach hattach
    exact .of_connection hi hco rfl (fun j => clientEvents_client j i co.2) (fun _ => rfl) rfl
  | dial deeds approved =>
    obtain ⟨hclients, hevents⟩ := clients_acceptFrom hstep
    exact .still hclients hevents (fun _ => rfl) rfl
  | write i bytes =>
    simp only [step] at hstep
    split at hstep
    · cases hstep
      exact .still rfl (fun _ => rfl) (fun _ => rfl) rfl
    · cases hstep
  | cut f keep ending =>
    simp only [step] at hstep
    split at hstep
    · cases hstep
    · split at hstep
      · cases hstep
        exact .still rfl (fun _ => rfl) (fun _ => rfl) rfl
      · cases hstep
  | carry f k =>
    simp only [step] at hstep
    split at hstep
    · cases hstep
    · split at hstep
      · cases hstep
        refine fares_deliver ?_ _ _ _ (fun _ => ?_) ?_ <;> rfl
      · cases hstep
  | conclude f =>
    simp only [step] at hstep
    split at hstep
    · cases hstep
    · split at hstep
      · split at hstep
        · cases hstep
        · cases hstep
          refine fares_deliver ?_ _ _ _ (fun _ => ?_) ?_ <;> rfl
      · cases hstep

/-! ### What is read is queued -/

omit [Kind κ] in
theorem putAt_of_eq {i : Nat} (h : net'.clients[i]? = net.clients[i]?) : putAt i net net' = [] := by
  unfold putAt
  rw [h]
  split
  · next c c' hc hc' =>
    cases hc.symm.trans hc'
    rw [Client.put, List.drop_length, List.map_nil]
  · rfl

omit [Kind κ] in
theorem putAt_of_none {i : Nat} (h : net.clients[i]? = none) : putAt i net net' = [] := by
  unfold putAt
  rw [h]

/-- What a step puts into the queue of a client is what is read on its connections. -/
theorem Fares.putAt_eq {a : Action κ} {o : Outcome κ} (h : Fares net a o) (i : Nat) :
    putAt i net o.1 = (Client.mail (clientEvents i o.2)).map fun p => (p.1, letterOf p) := by
  cases h with
  | still hclients hevents =>
    rw [hevents]
    exact putAt_of_eq (by rw [hclients])
  | @steps j c ca co hj hstep hclients hevents =>
    have hlt : j < net.clients.length := (List.getElem?_eq_some_iff.mp hj).1
    rw [hevents]
    by_cases hij : j = i
    · subst hij
      have hj' : o.1.clients[j]? = some co.1 := by rw [hclients, List.getElem?_set_self hlt]
      rw [if_pos rfl, ← Client.put_step hstep, putAt, hj, hj']
    · rw [if_neg hij]
      exact putAt_of_eq (by rw [hclients, List.getElem?_set_ne hij])
  | @enters c _ hclients hevents =>
    rw [hevents]
    by_cases hlt : i < net.clients.length
    · exact putAt_of_eq (by rw [hclients, List.getElem?_append_left hlt])
    · exact putAt_of_none (List.getElem?_eq_none (Nat.le_of_not_lt hlt))

theorem mailAt_run {start : Network κ} {as : List (Action κ)} (hrun : start.run as = some (net, es))
    (i : Nat) :
    mailAt i start as = (Client.mail (clientEvents i es)).map fun p => (p.1, letterOf p) := by
  refine Run.all_history (I := fun _ as es =>
    mailAt i start as = (Client.mail (clientEvents i es)).map fun p => (p.1, letterOf p)) rfl ?_ hrun
  intro pre a post net₁ es₁ net₂ es₂ _ hpre hstep ih
  rw [mailAt_concat hpre hstep, ih, (fares_of_step hstep).putAt_eq, clientEvents_append,
    Client.mail_append, List.map_append]

/-- **What a connection of a client has read was queued** while the client had it, in order, and nothing
else was. -/
theorem queuedAt_run {start : Network κ} {as : List (Action κ)} (hrun : start.run as = some (net, es))
    (i k : Nat) : queuedAt i k start as = Connection.received (eventsAt es (.client i k)) := by
  rw [eventsAt, Client.received_eventsOf, queuedAt, mailAt_run hrun, List.filter_map, List.map_map]
  rfl

/-! ### Runs -/

/-- Every client holds what it held when it entered and, behind that, what its connections read, but for
what its application took out. -/
structure Waits (net : Network κ) (as : List (Action κ)) (es : List (Event κ)) : Prop where
  length_eq : (entered as).length = net.clients.length
  nobody : ∀ i, net.clients.length ≤ i → clientEvents i es = [] ∧ takesAt i as = 0
  passes : ∀ i c, net.clients[i]? = some c → ∃ d, (entered as)[i]? = some d ∧
    Passes d.inbound.toList ((Client.mail (clientEvents i es)).map letterOf) (takesAt i as)
      c.inbound.toList

namespace Waits

variable {as : List (Action κ)} {a : Action κ} {o : Outcome κ}

omit [Kind κ] in
/-- Nothing is done to any client. -/
theorem still (h : Waits net as es) (hclients : o.1.clients = net.clients)
    (hevents : ∀ i, clientEvents i o.2 = []) (htakes : ∀ i, takesAt i [a] = 0)
    (hnone : entered [a] = []) : Waits o.1 (as ++ [a]) (es ++ o.2) := by
  refine ⟨?_, fun i hi => ?_, fun i c hi => ?_⟩
  · rw [entered_append, hnone, List.append_nil, hclients]
    exact h.length_eq
  · rw [clientEvents_append, hevents, List.append_nil, takesAt_concat, htakes]
    exact h.nobody i (hclients ▸ hi)
  · rw [clientEvents_append, hevents, List.append_nil, takesAt_concat, htakes, entered_append, hnone,
      List.append_nil]
    exact h.passes i c (hclients ▸ hi)

/-- Client `i` makes a step. -/
theorem steps (h : Waits net as es) {i : Nat} {c : Client κ} {ca : Client.Action κ}
    {co : Client.Outcome κ} (hi : net.clients[i]? = some c) (hstep : c.step ca = some co)
    (hclients : o.1.clients = net.clients.set i co.1)
    (hevents : ∀ j, clientEvents j o.2 = if i = j then co.2 else [])
    (htakes : ∀ j, takesAt j [a] = if i = j then Client.takes [ca] else 0) (hnone : entered [a] = []) :
    Waits o.1 (as ++ [a]) (es ++ o.2) := by
  have hlt : i < net.clients.length := (List.getElem?_eq_some_iff.mp hi).1
  refine ⟨?_, fun j hj => ?_, fun j c' hj => ?_⟩
  · rw [entered_append, hnone, List.append_nil, hclients, List.length_set]
    exact h.length_eq
  · rw [hclients, List.length_set] at hj
    have hij : i ≠ j := Nat.ne_of_lt (Nat.lt_of_lt_of_le hlt hj)
    rw [clientEvents_append, hevents, if_neg hij, List.append_nil, takesAt_concat, htakes, if_neg hij]
    exact h.nobody j hj
  · rw [clientEvents_append, hevents, takesAt_concat, htakes, entered_append, hnone, List.append_nil]
    rw [hclients] at hj
    by_cases hij : i = j
    · subst hij
      obtain rfl := Option.some.inj ((List.getElem?_set_self hlt).symm.trans hj)
      obtain ⟨d, hd, hpasses⟩ := h.passes i c hi
      rw [if_pos rfl, if_pos rfl, Client.mail_append, List.map_append]
      exact ⟨d, hd, hpasses.trans (Client.passes_step hstep)⟩
    · rw [List.getElem?_set_ne hij] at hj
      rw [if_neg hij, if_neg hij, List.append_nil]
      exact h.passes j c' hj

omit [Kind κ] in
/-- Another client enters with what it holds. -/
theorem enters (h : Waits net as es) {c : Client κ} (hclients : net'.clients = net.clients ++ [c]) :
    Waits net' (as ++ [.enter c]) es := by
  have htakes : ∀ i, takesAt i (as ++ [.enter c]) = takesAt i as := fun i =>
    takesAt_concat i as (.enter c)
  refine ⟨?_, fun i hi => ?_, fun i d hi => ?_⟩
  · rw [entered_append, hclients, List.length_append, List.length_append, h.length_eq]
    rfl
  · rw [hclients, List.length_append] at hi
    rw [htakes]
    exact h.nobody i (Nat.le_of_add_right_le hi)
  · rw [htakes, entered_append]
    rw [hclients] at hi
    by_cases hlt : i < net.clients.length
    · rw [List.getElem?_append_left hlt] at hi
      rw [List.getElem?_append_left (h.length_eq ▸ hlt)]
      exact h.passes i d hi
    · have hge : net.clients.length ≤ i := Nat.le_of_not_lt hlt
      obtain ⟨hnone, hzero⟩ := h.nobody i hge
      rw [List.getElem?_append_right hge] at hi
      rw [List.getElem?_append_right (h.length_eq ▸ hge), h.length_eq, hnone, hzero]
      exact ⟨d, hi, .refl _⟩

theorem step (h : Waits net as es) (hstep : net.step a = some o) :
    Waits o.1 (as ++ [a]) (es ++ o.2) := by
  cases fares_of_step hstep with
  | still hclients hevents htakes hnone => exact h.still hclients hevents htakes hnone
  | steps hi hstep hclients hevents htakes hnone => exact h.steps hi hstep hclients hevents htakes hnone
  | enters ha hclients hevents =>
    rw [ha, hevents, List.append_nil]
    exact h.enters hclients

end Waits

/-- In a run that begins without clients, everything waits at its client until it is taken out. -/
theorem waits_run {start : Network κ} {as : List (Action κ)} (hrun : start.run as = some (net, es))
    (hnobody : start.clients = []) : Waits net as es := by
  refine Run.all_history (I := Waits) ⟨?_, fun i _ => ⟨rfl, rfl⟩, fun i c hi => ?_⟩ ?_ hrun
  · rw [hnobody]
    rfl
  · rw [hnobody] at hi
    cases hi
  · intro pre a post net₁ es₁ net₂ es₂ _ _ hstep h
    exact h.step hstep

end Parley.Network
