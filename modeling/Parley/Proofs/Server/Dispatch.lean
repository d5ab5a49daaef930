import Parley.Proofs.Server.Ids
import Parley.Proofs.Server.Reports
import Parley.Proofs.Server.Updating

/-!
# Parley.Proofs.Server.Dispatch — messages are dispatched in the order of arrival

The messages read by all connections are those taken off the inbound queue and, behind them, those
that wait in it, each under the id of the connection it came in on.  As long as a message of a
connection that was registered waits, the server knows this id: connections set aside are forgotten
only when the queue is empty (`Conserved`).  The main result is `dispatch_in_order`.
-/

namespace Parley.Server

variable {κ : Type}

/-! ### Arrivals -/

/-- A message that was read, the connection it came in on, and whether this connection was registered
at that moment. -/
structure Arrival (κ : Type) where
  sender : Nat
  message : Message κ
  listed : Bool
  deriving DecidableEq

/-- The messages that were read while the registry was that of `s`. -/
def arrivalsOf (s : Server κ) (es : List (Event κ)) : List (Arrival κ) :=
  (arrived es).map fun p => ⟨p.1, p.2, decide (p.1 ∈ s.registry.numbers)⟩

/-- The messages read in a run. -/
def arrivals [Kind κ] : Server κ → List (Action κ) → List (Arrival κ)
  | _, [] => []
  | s, a :: as =>
    match s.step a with
    | none => []
    | some o => s.arrivalsOf o.2 ++ arrivals o.1 as

theorem arrivals_concat [Kind κ] {s₀ s : Server κ} {as : List (Action κ)} {a : Action κ}
    {es : List (Event κ)} {o : Outcome κ} (hrun : s₀.run as = some (s, es))
    (hstep : s.step a = some o) : s₀.arrivals (as ++ [a]) = s₀.arrivals as ++ s.arrivalsOf o.2 := by
  induction as generalizing s₀ es with
  | nil =>
    cases hrun
    simp [arrivals, hstep]
  | cons b as ih =>
    obtain ⟨s₁, es₁, es₂, hfirst, hrest, -⟩ := Run.all_cons_eq_some_iff.mp hrun
    simp only [List.cons_append, arrivals, hfirst]
    rw [ih hrest, List.append_assoc]

/-! ### What became of them -/

/-- A letter was taken off the queue for a message that was read.  The handler was told of the message
and of the connection it came in on, unless this was no longer registered when the message came in. -/
structure Handled (a : Arrival κ) (p : Option Nat × Message κ) : Prop where
  message_eq : p.2 = a.message
  sender_eq : p.1 = some a.sender ∨ (p.1 = none ∧ a.listed = false)

/-- A letter waits for a message that was read, under the id of the connection it came in on, which is
known if this was registered when the message came in. -/
structure Pending (v : Core κ) (es : List (Event κ)) (a : Arrival κ) (l : Letter κ) : Prop where
  message_eq : l.message = a.message
  origin : ∃ id, l.origin = some id ∧ (id, a.sender) ∈ registrations es ∧
    (a.listed = true → Registry.Known v.registry v.retired id)

/-- The messages read are those taken off the queue and behind them those that wait in it. -/
def Conserved (v : Core κ) (arrivals : List (Arrival κ)) (es : List (Event κ)) : Prop :=
  ∃ done waiting, arrivals = done ++ waiting ∧ List.Forall₂ Handled done (popped es) ∧
    List.Forall₂ (Pending v es) waiting v.inbound.toList

section Conserving

variable {v v' : Core κ} {as : List (Arrival κ)} {a : Arrival κ} {l : Letter κ}
  {es es' : List (Event κ)} {first : Nat} {b b' : Bool}

theorem Pending.mono (h : Pending v es a l)
    (hknown : ∀ id, Registry.Known v.registry v.retired id → Registry.Known v'.registry v'.retired id) :
    Pending v' (es ++ es') a l := by
  obtain ⟨hmessage, id, horigin, hreg, hlisted⟩ := h
  refine ⟨hmessage, id, horigin, ?_, fun h => hknown id (hlisted h)⟩
  rw [registrations_append]
  exact List.mem_append_left _ hreg

namespace Conserved

/-- An act that takes nothing off the queue and reads nothing. -/
theorem still (h : Conserved v as es) (hpopped : popped es' = [])
    (hinbound : v'.inbound.toList = v.inbound.toList)
    (hknown : ∀ id, Registry.Known v.registry v.retired id →
      Registry.Known v'.registry v'.retired id) : Conserved v' as (es ++ es') := by
  obtain ⟨done, waiting, has, hdone, hwaiting⟩ := h
  refine ⟨done, waiting, has, ?_, ?_⟩
  · rw [popped_append, hpopped, List.append_nil]
    exact hdone
  · rw [hinbound]
    exact hwaiting.imp fun _ _ h => h.mono hknown

/-- The connections set aside are forgotten when the queue is empty. -/
theorem forget (h : Conserved v as es) (hempty : v.inbound.isEmpty = true) :
    Conserved { v with retired := .empty } as (es ++ []) := by
  obtain ⟨done, waiting, has, hdone, hwaiting⟩ := h
  have hnil := (Deque.isEmpty_iff _).mp hempty
  rw [hnil, List.forall₂_nil_right_iff] at hwaiting
  refine ⟨done, [], hwaiting ▸ has, ?_, ?_⟩
  · rw [popped_append]
    exact (List.append_nil _).symm ▸ hdone
  · show List.Forall₂ _ [] v.inbound.toList
    rw [hnil]
    exact .nil

/-- A letter is taken off the queue and handled as it should be. -/
theorem pop (h : Conserved v as es) {rest : Deque (Letter κ)} {p : Option Nat × Message κ}
    (hpop : v.inbound.popFront? = some (l, rest)) (hpopped : popped es' = [p])
    (hhandled : ∀ a, Pending v es a l → Handled a p) :
    Conserved { v with inbound := rest } as (es ++ es') := by
  obtain ⟨done, waiting, has, hdone, hwaiting⟩ := h
  rw [Deque.toList_of_popFront? hpop] at hwaiting
  cases hwaiting with
  | @cons a _ waiting _ hfirst hrest =>
    refine ⟨done ++ [a], waiting, by rw [has, List.append_assoc]; rfl, ?_, ?_⟩
    · rw [popped_append, hpopped]
      exact List.rel_append hdone (.cons (hhandled a hfirst) .nil)
    · exact hrest.imp fun _ _ h => h.mono fun _ hid => hid

/-- The handler is told of the connection the message came in on. -/
theorem deliver (h : Conserved v as es) (hnum : Numbered v first b es) {rest : Deque (Letter κ)}
    {n : Nat} (hpop : v.inbound.popFront? = some (l, rest)) (hsender : v.senderOf l = some n) :
    Conserved { v with inbound := rest } as (es ++ [.delivered n l.message]) := by
  obtain ⟨id, horigin, hentry⟩ := exists_of_senderOf hsender
  refine h.pop hpop rfl fun a ⟨hmessage, x, hx, hreg, _⟩ => ⟨hmessage, .inl ?_⟩
  obtain rfl : x = id := Option.some.inj (hx.symm.trans horigin)
  have hsame := hnum.eq_of_fst (hnum.entered (x, n) hentry) hreg rfl
  exact congrArg some (congrArg Prod.snd hsame)

/-- A letter is dropped only if its connection was not registered when the message came in. -/
theorem drop (h : Conserved v as es) {rest : Deque (Letter κ)}
    (hpop : v.inbound.popFront? = some (l, rest)) (hsender : v.senderOf l = none) :
    Conserved { v with inbound := rest } as (es ++ [.dropped l]) := by
  refine h.pop hpop rfl fun a ⟨hmessage, id, horigin, _, hlisted⟩ => ⟨hmessage, .inr ⟨rfl, ?_⟩⟩
  have hnone : ¬Registry.Known v.registry v.retired id := by
    refine Registry.find?_or_eq_none_iff.mp ?_
    rw [Core.senderOf, horigin] at hsender
    exact hsender
  exact Bool.eq_false_iff.mpr fun h => hnone (hlisted h)

/-- Connection `n` reads messages, which are queued under its id. -/
theorem arrive (h : Conserved v as es) (hnum : Numbered v first b es) {n : Nat} {id : UInt32}
    {ces : List (Connection.Event κ)} {conns : List (Connection κ)} {listed : Bool}
    (hreg : Connection.received ces ≠ [] → (id, n) ∈ registrations es)
    (hlisted : listed = true → ∃ x, (x, n) ∈ v.registry.entries) :
    Conserved { v with
        connections := conns
        inbound := enqueueLetters id (Connection.received ces) v.inbound }
      (as ++ (Connection.received ces).map fun m => ⟨n, m, listed⟩)
      (es ++ ces.map (.connection n)) := by
  obtain ⟨done, waiting, has, hdone, hwaiting⟩ := h
  refine ⟨done, waiting ++ (Connection.received ces).map fun m => ⟨n, m, listed⟩,
    by rw [has, List.append_assoc], ?_, ?_⟩
  · rw [popped_append, popped_connection, List.append_nil]
    exact hdone
  · rw [toList_enqueueLetters]
    refine List.rel_append (hwaiting.imp fun _ _ h => h.mono fun _ hid => hid) ?_
    rw [List.forall₂_map_left_iff, List.forall₂_map_right_iff, List.forall₂_same]
    intro m hm
    have hid := hreg (List.ne_nil_of_mem hm)
    refine ⟨rfl, id, rfl, ?_, fun hl => ?_⟩
    · rw [registrations_append]
      exact List.mem_append_left _ hid
    · obtain ⟨x, hx⟩ := hlisted hl
      have hsame := hnum.eq_of_snd (hnum.entered (x, n) (.inl hx)) hid rfl
      exact ⟨n, .inl (hsame ▸ hx)⟩

end Conserved

end Conserving

/-! ### Acts and steps -/

variable [Kind κ] {s s' : Server κ} {b b' : Bool} {br : Nat → List UInt8} {as : List (Arrival κ)}
  {es es' : List (Event κ)} {first : Nat}

/-- An act in which nothing is read. -/
theorem Conserved.act (h : Conserved s.core as es) (hnum : Numbered s.core first b es)
    (hact : Act s b br s' b' es') (hquiet : arrived es' = []) : Conserved s'.core as (es ++ es') := by
  have hunread : ∀ (n : Nat) (o : Connection.Outcome κ), arrived (s.absorb n o).2 = [] →
      Conserved (s.absorb n o).1.core as (es ++ (s.absorb n o).2) := by
    intro n o hnone
    rw [absorb_eq, arrived_connection, List.map_eq_nil_iff] at hnone
    rw [core_absorb, hnone]
    exact h.still (by rw [absorb_eq]; exact popped_connection n o.2) rfl fun _ hid => hid
  cases hact with
  | connection hn ha hstep => exact hunread _ _ hquiet
  | approve hn hentry hstep => exact hunread _ _ hquiet
  | abort hcore => rw [hcore]; exact h.still rfl rfl fun _ hid => hid
  | appear hcore => rw [hcore]; exact h.still rfl rfl fun _ hid => hid
  | register hn hroom hcore =>
    rw [hcore]; exact h.still rfl rfl fun _ hid => Registry.known_insert_iff.mpr (.inr hid)
  | turnAway hnext hcore => rw [hcore]; exact h.still rfl rfl fun _ hid => hid
  | deliver hpop hsender hcore => rw [hcore]; exact h.deliver hnum hpop hsender
  | drop hpop hsender hcore => rw [hcore]; exact h.drop hpop hsender
  | prune hids hcore => rw [hcore]; exact h.still rfl rfl fun _ => Registry.known_move _
  | forget hempty hcore => rw [hcore]; exact h.forget hempty
  | aside hcalls hcore hes => rw [hcore]; exact h.still (popped_aside hes) rfl fun _ hid => hid

theorem Conserved.acts (h : Conserved s.core as es) (hnum : Numbered s.core first b es)
    (hacts : Acts s b br s' b' es') (hquiet : arrived es' = [])
    (hbound : first + s'.connections.length ≤ 2 ^ 64) : Conserved s'.core as (es ++ es') := by
  suffices hboth : Conserved s'.core as (es ++ es') ∧ Numbered s'.core first b' (es ++ es') from
    hboth.1
  induction hacts with
  | refl => rw [List.append_nil]; exact ⟨h, hnum⟩
  | tail hacts hact ih =>
    rw [arrived_append] at hquiet
    obtain ⟨hbefore, hlast⟩ := List.append_eq_nil_iff.mp hquiet
    obtain ⟨hconserved, hnumbered⟩ :=
      ih hbefore ((Nat.add_le_add_left hact.length_le _).trans hbound)
    rw [← List.append_assoc]
    exact ⟨hconserved.act hnumbered hact hlast, hnumbered.act hact hbound⟩

omit [Kind κ] in
/-- Dispatching reads nothing. -/
theorem arrived_dispatch (left handled : Nat) (s : Server κ) :
    arrived (dispatch left handled s).2 = [] := by
  induction left generalizing s handled with
  | zero => rfl
  | succ left ih =>
    unfold dispatch
    split
    · rfl
    · dsimp only
      split
      · rfl
      · exact ih _ { s with inbound := _ }

omit [Kind κ] in
/-- Accepting a socket reads nothing. -/
theorem arrived_accept (s : Server κ) (deeds : List (Nat × Connection.Deed κ)) (approved : Bool) :
    arrived (s.accept deeds approved).2 = [] := by
  rw [accept_eq_shown]
  refine (arrived_append _ _).trans ?_
  rw [arrived_tame (shown_spec s deeds).tame, List.nil_append]
  generalize (s.shown deeds).1 = t
  cases approved with
  | false => exact arrived_tame (refused_reject s.connections.length t).tame
  | true =>
    simp only [↓reduceIte, enrol]
    split
    · exact (List.filterMap_cons_none rfl).trans (arrived_tame (Steady.approve _ _ _).tame)
    · exact arrived_tame (refused_reject _ _).tame

theorem Conserved.step (h : Conserved s.core as es) (hs : Regular s)
    (hnum : Numbered s.core first false es) (hlives : Lives s br es) {a : Action κ} {o : Outcome κ}
    (ha : a.isTampering = false) (hstep : s.step a = some o)
    (hbound : first + o.1.connections.length ≤ 2 ^ 64) :
    Conserved o.1.core (as ++ s.arrivalsOf o.2) (es ++ o.2) := by
  have hquiet : arrived o.2 = [] → Conserved o.1.core (as ++ s.arrivalsOf o.2) (es ++ o.2) := by
    intro hnone
    rw [arrivalsOf, hnone, List.map_nil, List.append_nil]
    exact h.acts hnum (acts_of_step hs ha hstep) hnone hbound
  cases turn_of_step hstep with
  | @connection n c ca o hn howners hca =>
    have hreg := hlives.registered_of_received hn hca (hnum.named_step hn howners hca)
    have harrivals : s.arrivalsOf (s.absorb n o).2 = (Connection.received o.2).map fun m =>
        ⟨n, m, decide (n ∈ s.registry.numbers)⟩ := by
      rw [absorb_eq, arrivalsOf, arrived_connection, List.map_map]
      rfl
    rw [harrivals, core_absorb, absorb_eq]
    refine h.arrive hnum hreg fun hlisted => ?_
    obtain ⟨e, he, heq⟩ := List.mem_map.mp (of_decide_eq_true hlisted)
    exact ⟨e.1, heq ▸ he⟩
  | accepts => exact hquiet (arrived_accept s _ _)
  | updates => exact hquiet (arrived_dispatch _ _ s)
  | updatesOn => exact hquiet (arrived_dispatch _ _ _)
  | steady _ _ hsteady => exact hquiet (arrived_tame hsteady.tame)
  | requeues htampering => cases htampering.symm.trans ha

/-! ### Runs -/

variable {settings : ServerSettings} {transport : TransportSettings} {entropy : Source}

/-- **Messages are dispatched in the order they came in on all connections.**  The application leaves
the inbound queue to updates, and no id has been given out twice.  Then every message that was read is
taken off the queue once, in order, and the handler is told of it and of the connection it came in on,
whether or not this is still registered; only what came in on a connection that was no longer
registered may be dropped.  And an update that is made next takes no more letters off the queue than
it may, and returns the number of those it took off itself, whatever happens before it returns. -/
theorem dispatch_in_order {as : List (Action κ)}
    (hrun : (create settings transport entropy).run as = some (s, es))
    (hown : ∀ a ∈ as, a.isTampering = false)
    (hbound : settings.firstClientId.toNat + s.connections.length ≤ 2 ^ 64) :
    Conserved s.core ((create settings transport entropy).arrivals as) es ∧
    ∀ (limit : Option Nat) (wait : Bool) (body : List (Action κ)) (s₁ s₂ : Server κ)
      (es₁ es₂ : List (Event κ)), s.step (.update limit wait) = some (s₁, es₁) →
      s₁.run body = some (s₂, es₂) → s₁.Waits s.calls.length body →
      (∀ a ∈ body, a.isTampering = false) →
      Tally s s₂ (limit.getD Message.addressMax)
        ((popped es₁).length + s₁.ownPopsAlong s.calls.length body) (es₁ ++ es₂) := by
  have hregular := Regular.create (κ := κ) settings transport entropy
  constructor
  · refine Run.all_history (I := fun s as es =>
      settings.firstClientId.toNat + s.connections.length ≤ 2 ^ 64 →
        Conserved s.core ((create settings transport entropy).arrivals as) es)
      (fun _ => ⟨[], [], rfl, .nil, .nil⟩) ?_ hrun hbound
    rintro pre a post s₁ es₁ s₂ es₂ rfl hpre hstep ih hbound₂
    have hbound₁ := (Nat.add_le_add_left (length_step (hregular.run hpre) hstep) _).trans hbound₂
    obtain ⟨br, hlives⟩ := lives_run hpre
    have hnumbered := ((Enrolled.create settings transport entropy).run hpre hbound₁).numbered
    rw [arrivals_concat hpre hstep]
    exact (ih hbound₁).step (hregular.run hpre) hnumbered hlives (hown a (by simp)) hstep hbound₂
  · intro limit wait body s₁ s₂ es₁ es₂ hstep hbody hwaits hbodyOwn
    exact tally_update (hregular.run hrun) hstep hbody hwaits hbodyOwn

/-- Two messages come in on a connection that is closed, reported and set aside before an update may
dispatch one of them.  While the handler is told of this one, it makes an update of its own, which
dispatches the other one and finds the queue empty then. -/
theorem dispatch_in_order_goodbye :
    let m : Message GameTag := ⟨⟨.chat, 2⟩, [7, 8], rfl⟩
    let as : List (Action GameTag) := [.start .loopback 0, .accept [] true, .accept [] true] ++
      (farewell m).map (.connection 0) ++ [.broadcast m none, .resume]
    let body : List (Action GameTag) := [.update none false, .resume, .resume]
    ∃ s es s₁ es₁ s₂ es₂, (create {} {} fun _ => 0).run as = some (s, es) ∧
      s.registry.numbers = [1] ∧ s.step (.update (some 1) false) = some (s₁, es₁) ∧
      s₁.run body = some (s₂, es₂) ∧
      List.Forall₂ Handled [⟨0, m, true⟩, ⟨0, m, true⟩] (popped (es ++ (es₁ ++ es₂))) ∧
      Tally s s₂ 1 1 (es₁ ++ es₂) := by
  intro m as body
  have hall : ((create {} {} fun _ => 0).run as).any (fun o =>
      o.1.registry.numbers == [1] && o.1.calls.isEmpty && o.1.connections.length == 2 &&
      (o.1.step (.update (some 1) false)).any fun p => decide (p.1.Waits 0 body) &&
        (popped p.2).length + p.1.ownPopsAlong 0 body == 1 &&
        (p.1.run body).any fun q => q.1.connections.length == 2 && q.1.inbound.toList.isEmpty) =
          true := by
    decide +kernel
  obtain ⟨⟨s, es⟩, hrun, hlast⟩ := (Option.any_eq_true _ _).mp hall
  simp only [Bool.and_eq_true, beq_iff_eq, List.isEmpty_iff, Option.any_eq_true,
    decide_eq_true_eq] at hlast
  obtain ⟨⟨⟨hnumbers, hidle⟩, hlength⟩, ⟨s₁, es₁⟩, hstep, ⟨hwaits, hown⟩, ⟨s₂, es₂⟩, hbody, hlength₂,
    hempty⟩ := hlast
  have harrivals : (create {} {} fun _ => 0).arrivals (as ++ .update (some 1) false :: body) =
      [⟨0, m, true⟩, ⟨0, m, true⟩] := by
    decide +kernel
  have htamper : ∀ a ∈ as ++ .update (some 1) false :: body, a.isTampering = false := by
    decide +kernel
  have hwhole : (create {} {} fun _ => 0).run (as ++ .update (some 1) false :: body) =
      some (s₂, es ++ (es₁ ++ es₂)) :=
    Run.all_append_of_eq_some hrun
      (Run.all_cons_eq_some_iff.mpr ⟨s₁, es₁, es₂, hstep, hbody, rfl⟩)
  obtain ⟨⟨done, waiting, hread, hdone, hwaiting⟩, -⟩ :=
    dispatch_in_order hwhole htamper (by rw [hlength₂]; decide)
  obtain ⟨-, htally⟩ := dispatch_in_order hrun
    (fun a ha => htamper a (List.mem_append_left _ ha)) (by rw [hlength]; decide)
  rw [show s₂.core.inbound.toList = [] from hempty, List.forall₂_nil_right_iff] at hwaiting
  rw [hwaiting, List.append_nil, harrivals] at hread
  refine ⟨s, es, s₁, es₁, s₂, es₂, hrun, hnumbers, hstep, hbody, hread ▸ hdone, ?_⟩
  have hupdate := htally (some 1) false body s₁ s₂ es₁ es₂ hstep hbody
    (by rw [show s.calls = [] from hidle]; exact hwaits)
    fun a ha => htamper a (List.mem_append_right _ (List.mem_cons_of_mem _ ha))
  rw [show s.calls.length = 0 from congrArg List.length hidle, hown] at hupdate
  exact hupdate

end Parley.Server
