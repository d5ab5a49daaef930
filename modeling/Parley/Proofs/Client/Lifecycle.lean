import Parley.Proofs.Accounting
import Parley.Proofs.Client.Handshake
import Parley.Proofs.Connection.Stopped

/-!
# Parley.Proofs.Client.Lifecycle — giving a connection up and connecting again

The queue of messages received and the counters of a client outlive its connections.  A connection that
is given up is closed and its thread has ended (`Kept`), so that all that happens to the client from
then on happens to the next one: what was read on an earlier connection is queued before what is read
on a later one (`Ordered`), and nothing leaves the queue but what the application takes out of it
(`queued_run`).
-/

namespace Parley.Client

open Connection (Stopped received)

variable {κ : Type}

/-! ### What was read -/

def Event.read? : Event κ → Option (Nat × Message κ)
  | ⟨n, .received m⟩ => some (n, m)
  | _ => none

/-- The messages that were read, with the numbers of the connections they came in on. -/
def mail (es : List (Event κ)) : List (Nat × Message κ) := es.filterMap Event.read?

@[simp] theorem mail_append (es fs : List (Event κ)) : mail (es ++ fs) = mail es ++ mail fs :=
  List.filterMap_append

theorem mail_map (n : Nat) (ces : List (Connection.Event κ)) :
    mail (ces.map (⟨n, ·⟩)) = (received ces).map fun m => (n, m) := by
  unfold mail received
  rw [List.filterMap_map, List.map_filterMap]
  refine List.filterMap_congr fun e _ => ?_
  cases e <;> rfl

theorem n_of_read? {e : Event κ} {p : Nat × Message κ} (h : e.read? = some p) : p.1 = e.n := by
  obtain ⟨n, ce⟩ := e
  cases ce with
  | received m =>
    cases h
    rfl
  | _ => cases h

/-- What one connection has read is its part of the mail. -/
theorem received_eventsOf (k : Nat) (es : List (Event κ)) :
    received (eventsOf k es) = ((mail es).filter (·.1 = k)).map (·.2) := by
  induction es with
  | nil => rfl
  | cons e es ih =>
    have hmail : mail (e :: es) = mail [e] ++ mail es := mail_append [e] es
    have hevents : eventsOf k (e :: es) = eventsOf k [e] ++ eventsOf k es := eventsOf_append k [e] es
    rw [hmail, hevents, Connection.received_append, ih, List.filter_append, List.map_append]
    congr 1
    have hone : eventsOf k [e] = if e.n = k then [e.event] else [] := eventsOf_map k e.n [e.event]
    have hread : mail [e] = (received [e.event]).map fun m => (e.n, m) := mail_map e.n [e.event]
    rw [hone, hread]
    by_cases hk : e.n = k
    · rw [if_pos hk]
      simp [hk, List.filter_map, Function.comp_def]
    · rw [if_neg hk]
      simp [hk, List.filter_map, Function.comp_def]
      rfl

/-- A letter for a message that was read. -/
def letterOf (p : Nat × Message κ) : Letter κ := ⟨none, p.2⟩

/-! ### Events and the connections they happen to -/

/-- Everything happened to the connections in their order, and so far to none behind the current
one. -/
structure Ordered (c : Client κ) (es : List (Event κ)) : Prop where
  sorted : es.Pairwise fun e f => e.n ≤ f.n
  upto : ∀ e ∈ es, e.n ≤ c.current

theorem Ordered.append {c c' : Client κ} {es fs : List (Event κ)} (h : Ordered c es)
    (hfs : ∀ f ∈ fs, f.n = c.current) (hcurrent : c.current ≤ c'.current) :
    Ordered c' (es ++ fs) where
  sorted := by
    refine List.pairwise_append.mpr ⟨h.sorted, ?_, fun e he f hf => ?_⟩
    · refine List.pairwise_of_forall_mem_list fun e he f hf => ?_
      rw [hfs e he, hfs f hf]
    · rw [hfs f hf]
      exact h.upto e he
  upto e he := by
    rcases List.mem_append.mp he with he | he
    · exact (h.upto e he).trans hcurrent
    · rw [hfs e he]
      exact hcurrent

theorem n_of_mem_map {n : Nat} {ces : List (Connection.Event κ)} {e : Event κ}
    (he : e ∈ ces.map (⟨n, ·⟩)) : e.n = n := by
  obtain ⟨ce, -, rfl⟩ := List.mem_map.mp he
  rfl

/-! ### Calls of the application -/

theorem attended_absorb (c : Client κ) (o : Connection.Outcome κ) :
    (c.absorb o).1.attended = c.attended := by
  obtain ⟨metrics, inbound, h, -⟩ := foldl_note o.2 { c with connection := some o.1 }
  rw [absorb, h]

/-- There is a thread exactly when there is a connection, and every connection there was is closed
and has no thread any more. -/
structure Kept (c : Client κ) : Prop where
  present : c.connection.isSome = c.attended
  former : ∀ x ∈ c.past, x.phase = .closed ∧ Stopped x

/-- The number of connections a client has made. -/
def made (c : Client κ) : Nat := c.past.length + c.connection.toList.length

/-- What giving up the connection comes to. -/
structure Leaves (c : Client κ) (o : Outcome κ) : Prop where
  none : o.1.connection = none
  unattended : o.1.attended = false
  kept : Kept c → Kept o.1
  counted : Counted c → Counted o.1
  made_eq : o.1.made = c.made
  current : ∀ e ∈ o.2, e.n = c.current
  queued : o.1.inbound.toList = c.inbound.toList ++ (mail o.2).map letterOf

/-- The queue takes over what a connection has read. -/
theorem queued_absorb (c : Client κ) (o : Connection.Outcome κ) :
    (c.absorb o).1.inbound.toList = c.inbound.toList ++ (mail (c.absorb o).2).map letterOf := by
  have hmail : mail (c.absorb o).2 = (received o.2).map fun m => (c.current, m) := mail_map _ _
  rw [inbound_absorb, hmail, List.map_map]
  rfl

theorem leaves_disconnect (c : Client κ) : Leaves c c.disconnect := by
  cases hx : c.connection with
  | none =>
    have hdone : c.disconnect = ({ c with attended := false }, []) := by simp [disconnect, hx]
    have hcounted : Counted c → Counted c.disconnect.1 := fun h => h.disconnect.1
    rw [hdone] at hcounted ⊢
    refine ⟨hx, rfl, fun h => ⟨?_, h.former⟩, hcounted, rfl, nofun, (List.append_nil _).symm⟩
    rw [hx]
    rfl
  | some x =>
    have hdone : c.disconnect = ({ (c.absorb x.close).1 with
        past := c.past ++ [x.close.1.abort], connection := none, attended := false },
        (c.absorb x.close).2) := by simp [disconnect, hx]
    have hcounted : Counted c → Counted c.disconnect.1 := fun h => h.disconnect.1
    rw [hdone] at hcounted ⊢
    refine ⟨rfl, rfl, fun h => ⟨rfl, fun y hy => ?_⟩, hcounted, ?_, fun e he => n_of_mem_map he,
      queued_absorb c x.close⟩
    · rcases List.mem_append.mp hy with hy | hy
      · exact h.former y hy
      · rw [List.mem_singleton.mp hy]
        exact ⟨Connection.phase_close x, Connection.stopped_abort _⟩
    · simp [made, hx]

theorem leaves_dropped (c : Client κ) : Leaves c c.dropped := by
  rcases c.dropped_cases with hleft | ⟨hnone, hunattended, hstays⟩
  · rw [hleft]
    exact leaves_disconnect c
  · rw [hstays]
    exact ⟨hnone, hunattended, id, id, rfl, nofun, (List.append_nil _).symm⟩

/-- Connecting that makes a connection. -/
def Action.creates : Action κ → Bool
  | .connect _ _ found => finds found
  | _ => false

/-- Without a connection, nothing is sent. -/
theorem send_of_none {c : Client κ} (h : c.connection = none) (m : Message κ) : c.send m = c := by
  rw [send, h, Option.map_none, ← h]

/-! ### Steps and runs -/

variable [Kind κ]

/-- What an action comes to. -/
inductive Turn (c : Client κ) : Action κ → Outcome κ → Prop
  /-- The connection is given up. -/
  | leave {a : Action κ} {o : Outcome κ} (hcreates : a.creates = false) (htake : a.isTake = false)
    (h : Leaves c o) : Turn c a o
  /-- The connection is given up, and there is another one. -/
  | begin {a : Action κ} {o : Outcome κ} (hcreates : a.creates = true) (htake : a.isTake = false)
    (h : Leaves c o) :
    Turn c a ({ o.1 with connection := some (.outgoing c.limit), attended := true }, o.2)
  | send (m : Message κ) : Turn c (.send m) (c.send m, [])
  | take {l : Letter κ} {rest : Deque (Letter κ)} (hpop : c.inbound.popFront? = some (l, rest)) :
    Turn c .take ({ c with inbound := rest }, [])
  | connection {a : Connection.Action κ} {x : Connection κ} {o : Connection.Outcome κ}
    (hx : c.connection = some x) (hstep : x.step a = some o) : Turn c (.connection a) (c.absorb o)

variable {c : Client κ} {a : Action κ} {o : Outcome κ}

theorem turn_of_step (hstep : c.step a = some o) : Turn c a o := by
  cases a with
  | connect host portNumber found =>
    cases hstep
    cases hfound : finds found with
    | false =>
      obtain ⟨e, he⟩ := c.connect_of_not_finds host portNumber hfound
      rw [he]
      exact .leave hfound rfl (leaves_dropped c)
    | true =>
      rw [c.connect_of_finds host portNumber hfound]
      exact .begin hfound rfl (leaves_dropped c)
  | disconnect =>
    cases hstep
    exact .leave rfl rfl (leaves_disconnect c)
  | send m =>
    cases hstep
    exact .send m
  | take =>
    obtain ⟨⟨l, rest⟩, hpop, rfl⟩ := Option.map_eq_some_iff.mp hstep
    exact .take hpop
  | connection b =>
    simp only [Client.step] at hstep
    split at hstep
    · cases hstep
    · obtain ⟨x, hx, hstep⟩ := Option.bind_eq_some_iff.mp hstep
      obtain ⟨o', hstep', rfl⟩ := Option.map_eq_some_iff.mp hstep
      exact .connection hx hstep'

theorem Kept.step (h : Kept c) (hstep : c.step a = some o) : Kept o.1 := by
  cases turn_of_step hstep with
  | leave _ _ hleaves => exact hleaves.kept h
  | begin _ _ hleaves => exact ⟨rfl, (hleaves.kept h).former⟩
  | send m => exact ⟨(Option.isSome_map ..).trans h.present, h.former⟩
  | take => exact ⟨h.present, h.former⟩
  | connection hx hmove =>
    refine ⟨?_, ?_⟩
    · rw [connection_absorb, attended_absorb, ← h.present, hx]
      rfl
    · rw [past_absorb]
      exact h.former

/-- Only a client that connects makes a connection. -/
theorem made_step (hstep : c.step a = some o) :
    o.1.made = c.made + if a.creates then 1 else 0 := by
  cases turn_of_step hstep with
  | leave hcreates _ hleaves =>
    rw [hcreates]
    exact hleaves.made_eq
  | begin hcreates _ hleaves =>
    rw [hcreates, ← hleaves.made_eq, made, made, hleaves.none]
    rfl
  | send m =>
    show c.past.length + (c.connection.map _).toList.length = c.made
    cases hx : c.connection with
    | none => simp [made, hx]
    | some x => simp [made, hx]
  | take => rfl
  | connection hx hmove =>
    rw [made, made, past_absorb, connection_absorb, hx]
    rfl

theorem Ordered.step {es : List (Event κ)} (h : Ordered c es) (hstep : c.step a = some o) :
    Ordered o.1 (es ++ o.2) := by
  have hacts := acts_of_step hstep
  generalize o.1 = c', o.2 = fs, a.brings c = br at hacts
  induction hacts with
  | refl =>
    rw [List.append_nil]
    exact h
  | @tail _ _ c₁ c₂ es₁ es₂ _ hact ih =>
    rw [← List.append_assoc]
    cases hact with
    | connection hx hmove hpast =>
      exact ih.append (fun f hf => n_of_mem_map hf) (Nat.le_of_eq (congrArg List.length hpast.symm))
    | leave hx hpast =>
      refine ih.append (fun f hf => n_of_mem_map hf) ?_
      rw [current, current, hpast, List.length_append]
      exact Nat.le_add_right _ _
    | begin hnone hpast =>
      exact ih.append (fun f hf => absurd hf List.not_mem_nil)
        (Nat.le_of_eq (congrArg List.length hpast.symm))
    | aside hpast =>
      exact ih.append (fun f hf => absurd hf List.not_mem_nil)
        (Nat.le_of_eq (congrArg List.length hpast.symm))

/-- What is read in a step is queued, or the application takes a letter out. -/
theorem passes_step (hstep : c.step a = some o) :
    Passes c.inbound.toList ((mail o.2).map letterOf) (takes [a]) o.1.inbound.toList := by
  have htakes : a.isTake = false → takes [a] = 0 := fun htake => by
    rw [takes, List.countP_singleton, htake]
    rfl
  cases turn_of_step hstep with
  | leave _ htake hleaves =>
    rw [htakes htake]
    exact .of_append hleaves.queued
  | begin _ htake hleaves =>
    rw [htakes htake]
    exact .of_append hleaves.queued
  | send m => exact .refl _
  | take hpop => exact .of_cons (Deque.toList_of_popFront? hpop)
  | connection hx hmove => exact .of_append (queued_absorb c _)

/-- The letters that a step put into the inbound queue, behind those that waited there. -/
def put (c c' : Client κ) : List (Letter κ) := c'.inbound.toList.drop c.inbound.toList.length

/-- They are the messages read in it, all of them on the current connection. -/
theorem put_step (hstep : c.step a = some o) :
    (c.put o.1).map (c.current, ·) = (mail o.2).map fun p => (p.1, letterOf p) := by
  have hgrows : (∀ e ∈ o.2, e.n = c.current) →
      o.1.inbound.toList = c.inbound.toList ++ (mail o.2).map letterOf →
        (c.put o.1).map (c.current, ·) = (mail o.2).map fun p => (p.1, letterOf p) := by
    intro hcurrent hqueue
    rw [put, hqueue, List.drop_left, List.map_map]
    refine List.map_congr_left fun p hp => ?_
    obtain ⟨e, he, hread⟩ := List.mem_filterMap.mp hp
    rw [Function.comp_apply, n_of_read? hread, hcurrent e he]
  cases turn_of_step hstep with
  | leave _ _ hleaves => exact hgrows hleaves.current hleaves.queued
  | begin _ _ hleaves => exact hgrows hleaves.current hleaves.queued
  | send m => exact hgrows nofun (List.append_nil _).symm
  | connection hx hmove => exact hgrows (fun e he => n_of_mem_map he) (queued_absorb c _)
  | @take l rest hpop =>
    have hshort : rest.toList.length ≤ c.inbound.toList.length := by
      rw [Deque.toList_of_popFront? hpop]
      exact Nat.le_succ _
    rw [put, List.drop_eq_nil_of_le hshort]
    rfl

/-- What was ever queued waits in the queue, but for what the application took out. -/
structure Queued (c : Client κ) (as : List (Action κ)) (es : List (Event κ)) : Prop where
  takes_le : takes as ≤ (mail es).length
  inbound_eq : c.inbound.toList = ((mail es).map letterOf).drop (takes as)

variable {settings : ClientSettings} {transport : TransportSettings} {as : List (Action κ)}
  {es : List (Event κ)}

theorem kept_run (hrun : (create settings transport).run as = some (c, es)) : Kept c := by
  have hcreated : Kept (create (κ := κ) settings transport) :=
    ⟨rfl, fun x hx => absurd hx List.not_mem_nil⟩
  exact Run.all_invariant (I := Kept) (fun _ _ _ h hstep => h.step hstep) hcreated hrun

theorem made_run (hrun : (create settings transport).run as = some (c, es)) :
    c.made = as.countP Action.creates := by
  refine Run.all_history (I := fun c as _ => c.made = as.countP Action.creates) rfl ?_ hrun
  intro pre a post c₁ es₁ c₂ es₂ _ _ hstep hmade
  have hone : c₂.made = c₁.made + if a.creates then 1 else 0 := made_step hstep
  rw [hone, hmade, List.countP_append, List.countP_singleton]

theorem ordered_run (hrun : (create settings transport).run as = some (c, es)) : Ordered c es := by
  refine Run.all_history (I := fun c _ es => Ordered c es) ⟨.nil, nofun⟩ ?_ hrun
  intro pre a post c₁ es₁ c₂ es₂ _ _ hstep hordered
  exact hordered.step hstep

theorem passes_run {c₀ : Client κ} (hrun : c₀.run as = some (c, es)) :
    Passes c₀.inbound.toList ((mail es).map letterOf) (takes as) c.inbound.toList := by
  refine Run.all_history (I := fun c as es =>
    Passes c₀.inbound.toList ((mail es).map letterOf) (takes as) c.inbound.toList) (.refl _) ?_ hrun
  intro pre a post c₁ es₁ c₂ es₂ _ _ hstep hpasses
  rw [mail_append, List.map_append, takes, List.countP_append]
  exact hpasses.trans (passes_step hstep)

theorem queued_run (hrun : (create settings transport).run as = some (c, es)) :
    Queued c as es := by
  have hpasses := passes_run hrun
  refine ⟨?_, hpasses.after_eq⟩
  rw [← (mail es).length_map letterOf]
  exact hpasses.taken_le

/-! ### The lifecycle -/

/-- There is no connection, and none is counted. -/
structure Idle (c : Client κ) : Prop where
  none : c.connection = none
  unattended : c.attended = false
  disconnected : c.isConnected = false
  uncounted : c.metrics.connectionsActive = 0

omit [Kind κ] in
theorem Leaves.idle (h : Leaves c o) (hcounted : Counted c) : Idle o.1 := by
  have hdisconnected : o.1.isConnected = false := by
    rw [isConnected, h.none]
    rfl
  refine ⟨h.none, h.unattended, hdisconnected, ?_⟩
  have hgauge : o.1.metrics.connectionsActive = if o.1.isConnected then 1 else 0 := h.counted hcounted
  rw [hgauge, hdisconnected]
  rfl

/-- What is true of a client to which `as` was done while `es` happened. -/
structure Outlives (c : Client κ) (as : List (Action κ)) (es : List (Event κ)) : Prop where
  /-- There is a connection exactly when there is a thread. -/
  present : c.connection.isSome = c.attended
  /-- Each time an address was found there was one connection more, -/
  made : c.made = as.countP Action.creates
  /-- and all but the current one are closed, with no task left. -/
  former : ∀ x ∈ c.past, x.phase = .closed ∧ Stopped x
  /-- Nothing happens any more to those, whatever is done to them. -/
  silent : ∀ x ∈ c.past, ∀ bs p, x.run bs = some p → p.1.phase = .closed ∧ p.2 = []
  /-- After the application has disconnected there is no connection, -/
  disconnect : Idle c.disconnect.1
  /-- nor after it has tried to connect in vain; -/
  fails : ∀ host portNumber found, (c.connect host portNumber found).2 ≠ none →
    Idle (c.connect host portNumber found).1.1
  /-- and when it has not, there is a new one. -/
  begins : ∀ host portNumber found, (c.connect host portNumber found).2 = none →
    (c.connect host portNumber found).1.1.connection = some (.outgoing c.limit) ∧
      (c.connect host portNumber found).1.1.attended = true
  /-- Without a connection, nothing is sent. -/
  send : c.connection = none → ∀ m, c.send m = c
  /-- What was read on a connection comes before what was read on a later one, -/
  sorted : (mail es).Pairwise fun p q => p.1 ≤ q.1
  /-- on each connection in the order of reading; -/
  mail_of : ∀ k, ((mail es).filter (·.1 = k)).map (·.2) = received (eventsOf k es)
  /-- all of it was queued, and is taken from the front. -/
  queued : Queued c as es

/-- **The lifecycle of a client.**  Whatever is done to a client and its connections: a connection is
there exactly while the thread is that runs its tasks, and every other connection the client ever made
is closed and can do nothing any more; after the application has disconnected, or tried to connect in
vain, there is none, and none is counted; and the messages read are queued connection by connection,
and none is lost when it connects again (`Outlives`). -/
theorem outlives_connections (hrun : (create settings transport).run as = some (c, es)) :
    Outlives c as es := by
  have hkept := kept_run hrun
  have hcounted : Counted c := counted_run hrun
  refine
    { present := hkept.present
      made := made_run hrun
      former := hkept.former
      silent := ?silent
      disconnect := (leaves_disconnect c).idle hcounted
      fails := ?fails
      begins := ?begins
      send := send_of_none
      sorted := ?sorted
      mail_of := fun k => (received_eventsOf k es).symm
      queued := queued_run hrun }
  case silent =>
    intro x hx bs p hbs
    obtain ⟨hclosed, hstopped⟩ := hkept.former x hx
    exact hstopped.run hclosed hbs
  case fails =>
    intro host portNumber found hfault
    cases hfound : finds found with
    | false =>
      obtain ⟨e, he⟩ := c.connect_of_not_finds host portNumber hfound
      rw [he]
      exact (leaves_dropped c).idle hcounted
    | true =>
      rw [c.connect_of_finds host portNumber hfound] at hfault
      exact absurd rfl hfault
  case begins =>
    intro host portNumber found hfault
    cases hfound : finds found with
    | false =>
      obtain ⟨e, he⟩ := c.connect_of_not_finds host portNumber hfound
      rw [he] at hfault
      cases hfault
    | true =>
      rw [c.connect_of_finds host portNumber hfound]
      exact ⟨rfl, rfl⟩
  case sorted =>
    refine List.Pairwise.filterMap Event.read? ?_ (ordered_run hrun).sorted
    intro e f hle p hp q hq
    rw [n_of_read? hp, n_of_read? hq]
    exact hle

/-- A client reads a message, connects again, and reads another; the application takes out the first
one, and then tries to connect to a host that is not found. -/
theorem outlives_connections_reconnect :
    let m : Message GameTag := ⟨⟨.chat, 2⟩, [7, 8], rfl⟩
    let m' : Message GameTag := ⟨⟨.chat, 1⟩, [9], rfl⟩
    let visit (m : Message GameTag) : List (Action GameTag) :=
      [.connect "localhost" 0 (.ok [.v4 127 0 0 1]), .connection (.turn .ready),
        .connection (.arrive ([7, 0, 0, 0, 0, 0, 0, 0] ++ Frame.bytes m)),
        .connection (.turn .ready), .connection (.turn (.wrote 8)), .connection (.turn .ready),
        .connection (.turn .ready), .connection (.turn .ready)]
    ∃ c es, (create {} {}).run (visit m ++ visit m' ++ [.take]) = some (c, es) ∧
      c.connection.isSome = true ∧ c.made = 2 ∧ (∀ x ∈ c.past, x.phase = .closed) ∧
      c.inbound.toList = [⟨none, m'⟩] ∧
      Idle (c.connect "nowhere" 0 (.error "unknown")).1.1 := by
  intro m m' visit
  have hruns : ((create {} {}).run (visit m ++ visit m' ++ [.take])).any (fun o =>
      o.1.attended && mail o.2 == [(0, m), (1, m')]) = true := by
    decide +kernel
  obtain ⟨⟨c, es⟩, hrun, hlast⟩ := (Option.any_eq_true _ _).mp hruns
  rw [Bool.and_eq_true, beq_iff_eq] at hlast
  obtain ⟨hattended, hmail⟩ := hlast
  have h := outlives_connections hrun
  refine ⟨c, es, hrun, h.present.trans hattended, h.made, fun x hx => (h.former x hx).1, ?_, ?_⟩
  · rw [h.queued.inbound_eq, show mail es = _ from hmail]
    rfl
  · exact h.fails "nowhere" 0 (.error "unknown") nofun

end Parley.Client
