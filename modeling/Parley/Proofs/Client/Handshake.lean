import Parley.Proofs.Client.Lives
import Parley.Proofs.Connection.Unhindered
import Parley.Proofs.Counters

/-!
# Parley.Proofs.Client.Handshake — how a client meets its server

What a client does while it stays with a connection is a run of the connection (`tended_run`), and what
becomes of it later does not matter (`run_doings`).  So a client that begins to connect answers the
challenge of its server, sends the messages it held and whatever it is given later, and queues what the
server sends (`challenge_answered`).
-/

namespace Parley.Client

open Connection (Answered ClosesOnlyBy ComesToRest Resting arrivals endings received wrote)

variable {κ : Type}

/-! ### What is done to a connection -/

/-- The application keeps the connection it has. -/
def Action.stays : Action κ → Bool
  | .connect _ _ _ | .disconnect => false
  | _ => true

/-- The application takes a letter out of the inbound queue. -/
def Action.isTake : Action κ → Bool
  | .take => true
  | _ => false

/-- How many letters the application takes. -/
def takes (as : List (Action κ)) : Nat := as.countP Action.isTake

theorem takes_cons (a : Action κ) (as : List (Action κ)) : takes (a :: as) = takes [a] + takes as := by
  rw [takes, takes, takes, ← List.countP_append]
  rfl

/-- Of `before`, with `put` queued behind it, `taken` were taken from the front, which leaves `after`. -/
structure Passes {α : Type} (before put : List α) (taken : Nat) (after : List α) : Prop where
  taken_le : taken ≤ (before ++ put).length
  after_eq : after = (before ++ put).drop taken

namespace Passes

variable {α : Type} {before put put' after after' : List α} {taken taken' : Nat}

/-- Nothing is taken. -/
theorem of_append (h : after = before ++ put) : Passes before put 0 after := ⟨Nat.zero_le _, h⟩

theorem refl (before : List α) : Passes before [] 0 before := .of_append (List.append_nil before).symm

/-- One is taken. -/
theorem of_cons {a : α} (h : before = a :: after) : Passes before [] 1 after := by
  rw [h]
  exact ⟨Nat.le_add_left 1 _, (List.append_nil after).symm⟩

theorem trans (h : Passes before put taken after) (h' : Passes after put' taken' after') :
    Passes before (put ++ put') (taken + taken') after' := by
  obtain ⟨hle, rfl⟩ := h
  obtain ⟨hle', rfl⟩ := h'
  rw [← List.drop_append_of_le_length hle, List.length_drop, List.append_assoc] at hle'
  rw [← List.drop_append_of_le_length hle, List.drop_drop, List.append_assoc]
  refine ⟨?_, rfl⟩
  rw [← List.append_assoc, List.length_append] at hle' ⊢
  omega

end Passes

/-- What a connection of a client reads, as letters without an origin. -/
def letters (ces : List (Connection.Event κ)) : List (Letter κ) := (received ces).map (⟨none, ·⟩)

theorem letters_append (ces des : List (Connection.Event κ)) :
    letters (ces ++ des) = letters ces ++ letters des := by
  rw [letters, Connection.received_append, List.map_append]
  rfl

/-- What is done to the connection there is, until the application gives it up. -/
def doings : List (Action κ) → List (Connection.Action κ)
  | [] => []
  | .send m :: as => .perform .application (.send m) :: doings as
  | .take :: as => doings as
  | .connection a :: as => a :: doings as
  | .disconnect :: _ | .connect _ _ _ :: _ => [.perform .application .disconnect]

theorem doings_cons {a : Action κ} (ha : a.stays = true) (as : List (Action κ)) :
    doings (a :: as) = doings [a] ++ doings as := by
  cases a with
  | connect => cases ha
  | disconnect => cases ha
  | _ => rfl

theorem doings_of_leaves {a : Action κ} (ha : a.stays = false) (as : List (Action κ)) :
    doings (a :: as) = [.perform .application .disconnect] := by
  cases a with
  | connect => rfl
  | disconnect => rfl
  | _ => cases ha

/-- Where no hook sends on the client, none sends on its connection. -/
theorem unhooked_doings {as : List (Action κ)}
    (h : ∀ m, .connection (.perform .reactor (.send m)) ∉ as) : Connection.Unhooked (doings as) := by
  induction as with
  | nil => exact fun m => List.not_mem_nil
  | cons a as ih =>
    have hrest := ih fun m hm => h m (List.mem_cons_of_mem a hm)
    intro m
    cases a with
    | connect => simp [doings]
    | disconnect => simp [doings]
    | send m' => simpa [doings] using hrest m
    | take => exact hrest m
    | connection b =>
      rw [doings, List.mem_cons, not_or]
      refine ⟨fun hb => h m ?_, hrest m⟩
      rw [← hb]
      exact List.mem_cons_self

variable [Kind κ] {c c₁ c' : Client κ} {x x₁ x' : Connection κ} {as : List (Action κ)}
  {es es₁ : List (Event κ)} {ces ces₁ : List (Connection.Event κ)}

/-! ### While it stays -/

/-- A client that keeps its connection: the run of the connection is all that happens, but that the
application takes letters out of the queue. -/
structure Tended (c : Client κ) (x : Connection κ) (as : List (Action κ)) (c' : Client κ)
    (x' : Connection κ) (ces : List (Connection.Event κ)) : Prop where
  run_eq : x.run (doings as) = some (x', ces)
  owners : ∀ a ∈ doings as, a.isOwners = false
  connection_eq : c'.connection = some x'
  past_eq : c'.past = c.past
  metrics_eq : c'.metrics = c.metrics.recordAll (Connection.entries ces)
  passes : Passes c.inbound.toList (letters ces) (takes as) c'.inbound.toList

theorem tended_of_step (hx : c.connection = some x) {a : Action κ} {o : Outcome κ}
    (ha : a.stays = true) (hstep : c.step a = some o) :
    ∃ (x' : Connection κ) (ces : List (Connection.Event κ)),
      o.2 = ces.map (⟨c.current, ·⟩) ∧ Tended c x [a] o.1 x' ces := by
  cases a with
  | connect => cases ha
  | disconnect => cases ha
  | send m =>
    cases hstep
    refine ⟨x.send .application m, [], rfl, rfl, ?_, by simp [Client.send, hx], rfl, rfl, .refl _⟩
    simp [doings, Connection.Action.isOwners]
  | take =>
    obtain ⟨p, hpop, rfl⟩ := Option.map_eq_some_iff.mp hstep
    exact ⟨x, [], rfl, rfl, fun b hb => absurd hb List.not_mem_nil, hx, rfl, rfl,
      .of_cons (Deque.toList_of_popFront? hpop)⟩
  | connection b =>
    simp only [Client.step] at hstep
    split at hstep
    · cases hstep
    · next howners =>
      obtain ⟨y, hy, hstep⟩ := Option.bind_eq_some_iff.mp hstep
      obtain rfl := Option.some.inj (hx.symm.trans hy)
      obtain ⟨o', hstep', rfl⟩ := Option.map_eq_some_iff.mp hstep
      refine ⟨o'.1, o'.2, rfl, ?_, ?_, connection_absorb c o', past_absorb c o', metrics_absorb c o',
        .of_append (inbound_absorb c o')⟩
      · exact Run.all_cons_eq_some_iff.mpr ⟨_, _, [], hstep', rfl, (List.append_nil _).symm⟩
      · intro b' hb'
        obtain rfl := List.mem_singleton.mp hb'
        exact Bool.eq_false_iff.mpr howners

theorem Tended.cons {a : Action κ} (ha : a.stays = true) (h : Tended c x [a] c₁ x₁ ces₁)
    (hrest : Tended c₁ x₁ as c' x' ces) : Tended c x (a :: as) c' x' (ces₁ ++ ces) where
  run_eq := by
    rw [doings_cons ha]
    exact Run.all_append_of_eq_some h.run_eq hrest.run_eq
  owners b hb := by
    rw [doings_cons ha, List.mem_append] at hb
    exact hb.elim (h.owners b) (hrest.owners b)
  connection_eq := hrest.connection_eq
  past_eq := hrest.past_eq.trans h.past_eq
  metrics_eq := by
    rw [hrest.metrics_eq, h.metrics_eq, Connection.entries_append, Metrics.recordAll_append]
  passes := by
    rw [takes_cons, letters_append]
    exact h.passes.trans hrest.passes

/-- **As long as it stays, a client does what its connection does.** -/
theorem tended_run (hx : c.connection = some x) (hstays : ∀ a ∈ as, a.stays = true)
    (hrun : c.run as = some (c', es)) :
    ∃ (x' : Connection κ) (ces : List (Connection.Event κ)),
      es = ces.map (⟨c.current, ·⟩) ∧ Tended c x as c' x' ces := by
  induction as generalizing c x es with
  | nil =>
    cases hrun
    exact ⟨x, [], rfl, rfl, nofun, hx, rfl, rfl, .refl _⟩
  | cons a as ih =>
    obtain ⟨c₁, es₁, es₂, hstep, hrest, rfl⟩ := Run.all_cons_eq_some_iff.mp hrun
    have ha := hstays a List.mem_cons_self
    obtain ⟨x₁, ces₁, hes₁, h₁⟩ := tended_of_step hx ha hstep
    obtain ⟨x', ces, hes, h⟩ :=
      ih h₁.connection_eq (fun b hb => hstays b (List.mem_cons_of_mem a hb)) hrest
    have hcurrent : c₁.current = c.current := congrArg List.length h₁.past_eq
    refine ⟨x', ces₁ ++ ces, ?_, h₁.cons ha h⟩
    rw [show es₁ = _ from hes₁, hes, hcurrent, List.map_append]

/-! ### When it leaves -/

/-- What was set aside stays as it is. -/
theorem Act.former {br : Nat → List UInt8} (h : Act c br c' es) {k : Nat} (hk : k < c.current) :
    k < c'.current ∧ c'.past[k]? = c.past[k]? ∧ eventsOf k es = [] := by
  cases h with
  | connection hx hstep hpast =>
    have hcurrent : c'.current = c.current := congrArg List.length hpast
    rw [hcurrent, hpast, eventsOf_map, if_neg (Nat.ne_of_gt hk)]
    exact ⟨hk, rfl, rfl⟩
  | leave hx hpast =>
    have hcurrent : c'.current = c.current + 1 := by
      rw [current, hpast, List.length_append]
      rfl
    rw [hcurrent, hpast, eventsOf_map, if_neg (Nat.ne_of_gt hk)]
    exact ⟨Nat.lt_succ_of_lt hk, List.getElem?_append_left hk, rfl⟩
  | begin hnone hpast =>
    have hcurrent : c'.current = c.current := congrArg List.length hpast
    rw [hcurrent, hpast]
    exact ⟨hk, rfl, rfl⟩
  | aside hpast =>
    have hcurrent : c'.current = c.current := congrArg List.length hpast
    rw [hcurrent, hpast]
    exact ⟨hk, rfl, rfl⟩

theorem Acts.former {br : Nat → List UInt8} (h : Acts c br c' es) {k : Nat} (hk : k < c.current) :
    k < c'.current ∧ c'.past[k]? = c.past[k]? ∧ eventsOf k es = [] := by
  induction h with
  | refl => exact ⟨hk, rfl, rfl⟩
  | tail hacts hact ih =>
    obtain ⟨hlt, hpast, hnone⟩ := ih
    obtain ⟨hlt', hpast', hnone'⟩ := hact.former hlt
    exact ⟨hlt', hpast'.trans hpast, by rw [eventsOf_append, hnone, hnone']; rfl⟩

theorem former_run {k : Nat} (hk : k < c.current) (hrun : c.run as = some (c', es)) :
    c'.past[k]? = c.past[k]? ∧ eventsOf k es = [] := by
  have hall := Run.all_history (I := fun c₁ _ es₁ =>
    k < c₁.current ∧ c₁.past[k]? = c.past[k]? ∧ eventsOf k es₁ = []) ⟨hk, rfl, rfl⟩ ?_ hrun
  · exact hall.2
  rintro pre a post c₁ es₁ c₂ es₂ - - hstep ⟨hlt, hpast, hnone⟩
  obtain ⟨hlt', hpast', hnone'⟩ := (acts_of_step hstep).former hlt
  exact ⟨hlt', hpast'.trans hpast, by rw [eventsOf_append, hnone, show eventsOf k es₂ = _ from hnone']; rfl⟩

/-- The application gives its connection up: it is closed and set aside. -/
theorem leaves_of_step (hx : c.connection = some x) {a : Action κ} {o : Outcome κ}
    (ha : a.stays = false) (hstep : c.step a = some o) :
    o.1.past = c.past ++ [x.close.1.abort] ∧ o.2 = x.close.2.map (⟨c.current, ·⟩) := by
  have hleft : c.disconnect.1.past = c.past ++ [x.close.1.abort] ∧
      c.disconnect.2 = x.close.2.map (⟨c.current, ·⟩) := by
    unfold disconnect
    split
    · next hnone => cases hnone.symm.trans hx
    · next y hy =>
      obtain rfl := Option.some.inj (hx.symm.trans hy)
      exact ⟨rfl, rfl⟩
  cases a with
  | connect host portNumber found =>
    cases hstep
    simp only [connect, hx, Option.isSome_some, Bool.true_or, if_true]
    split
    · exact hleft
    · exact hleft
    · exact hleft
  | disconnect =>
    cases hstep
    exact hleft
  | _ => cases ha

/-- **What happens to a connection of a client** is a run of it, until the application gives it up, and
nothing afterwards. -/
theorem run_doings (hx : c.connection = some x) (hrun : c.run as = some (c', es)) :
    ∃ x', x.run (doings as) = some (x', eventsOf c.current es) ∧
      (∀ a ∈ doings as, a.isOwners = false) ∧
      ((∃ a ∈ as, a.stays = false) → c'.past[c.current]? = some x'.abort) := by
  induction as generalizing c x es with
  | nil =>
    cases hrun
    exact ⟨x, rfl, nofun, fun ⟨a, ha, _⟩ => absurd ha List.not_mem_nil⟩
  | cons a as ih =>
    obtain ⟨c₁, es₁, es₂, hstep, hrest, rfl⟩ := Run.all_cons_eq_some_iff.mp hrun
    rw [eventsOf_append]
    cases ha : a.stays with
    | true =>
      obtain ⟨x₁, ces₁, hes₁, h₁⟩ := tended_of_step hx ha hstep
      have hes₁ : es₁ = ces₁.map (⟨c.current, ·⟩) := hes₁
      have hcurrent : c₁.current = c.current := congrArg List.length h₁.past_eq
      obtain ⟨x', hrun', howners, hleft⟩ := ih h₁.connection_eq hrest
      rw [hcurrent] at hrun' hleft
      rw [hes₁, eventsOf_map, if_pos rfl, doings_cons ha]
      refine ⟨x', Run.all_append_of_eq_some h₁.run_eq hrun', fun b hb => ?_, ?_⟩
      · exact (List.mem_append.mp hb).elim (h₁.owners b) (howners b)
      · rintro ⟨b, hb, hleaves⟩
        rcases List.mem_cons.mp hb with rfl | hb
        · cases ha.symm.trans hleaves
        · exact hleft ⟨b, hb, hleaves⟩
    | false =>
      obtain ⟨hpast, hes₁⟩ := leaves_of_step hx ha hstep
      have hpast : c₁.past = c.past ++ [x.close.1.abort] := hpast
      have hlt : c.current < c₁.current := by
        rw [current, current, hpast, List.length_append]
        exact Nat.lt_succ_self _
      obtain ⟨hkept, hnone⟩ := former_run hlt hrest
      rw [show es₁ = _ from hes₁, eventsOf_map, if_pos rfl, hnone, List.append_nil,
        doings_of_leaves ha]
      refine ⟨x.close.1, ?_, fun b hb => ?_, fun _ => ?_⟩
      · exact Run.all_cons_eq_some_iff.mpr ⟨_, _, [], rfl, rfl, (List.append_nil _).symm⟩
      · obtain rfl := List.mem_singleton.mp hb
        rfl
      · rw [hkept, hpast]
        exact List.getElem?_concat_length

/-! ### The handshake -/

omit [Kind κ] in
/-- A client that begins to connect has a connection that does. -/
theorem connection_connect (c : Client κ) (host : String) (portNumber : UInt16)
    {found : List Address} (hfound : found ≠ []) :
    (c.connect host portNumber (.ok found)).1.1.connection = some (.outgoing c.limit) := by
  cases found with
  | nil => exact absurd rfl hfound
  | cons address more => rfl

/-- **The handshake of a client.**  A client begins to connect; whatever then arrives, in whatever pieces,
whatever the application sends and whenever, and whatever else is done to the client:

* nothing is written before eight bytes have arrived, the first eight bytes written are those of the
  scrambled challenge, and behind them there are the frames of the messages sent, in the order of
  sending: those sent before the connection is open are held until then and come first (`Answered`);
* if the application gives the connection up, it is set aside, and nothing happens to it any more;
* as long as it does not, what the connection reads is queued without an origin, in order, and the main
  task comes to rest;
* if only the main task closes the connection, then all messages in the bytes behind the eighth have
  been queued when it rests, and the answer is written if eight bytes have arrived;
* if the stream ends before the eighth byte, and nobody disconnects, then nothing is written, and when
  the task rests the connection is closed, no message is held any more, and one failed handshake and one
  error have been counted. -/
theorem challenge_answered {c₀ c₁ c : Client κ} {host : String} {portNumber : UInt16}
    {found : List Address} {as : List (Action κ)} {es₁ es : List (Event κ)} (hfound : found ≠ [])
    (hconnect : c₀.step (.connect host portNumber (.ok found)) = some (c₁, es₁))
    (hhooks : ∀ m, .connection (.perform .reactor (.send m)) ∉ as)
    (hrun : c₁.run as = some (c, es)) :
    ∃ x ces, eventsOf c₁.current es = ces ∧
      (Connection.outgoing c₀.limit).run (doings as) = some (x, ces) ∧
      Answered c₀.limit (doings as) x ces ∧
      ((∃ a ∈ as, a.stays = false) → c.past[c₁.current]? = some x.abort) ∧
      ((∀ a ∈ as, a.stays = true) →
        c.connection = some x ∧
        c.inbound.toList = (c₁.inbound.toList ++ letters ces).drop (takes as) ∧
        ComesToRest x ∧
        (ClosesOnlyBy (· = .turn .ready) (.outgoing c₀.limit) (doings as) → Resting x →
          received ces = (Frame.drain c₀.limit ((arrivals (doings as)).drop 8)).messages ∧
          (8 ≤ (arrivals (doings as)).length → (wrote ces).take 8 =
            Bytes.ofWord (scramble (Bytes.toWord ((arrivals (doings as)).take 8))))) ∧
        ((arrivals (doings as)).length < 8 → endings (doings as) ≠ [] → .established ∈ ces →
          ClosesOnlyBy (fun a => a.isDisconnect = false) (.outgoing c₀.limit) (doings as) →
          Resting x →
          wrote ces = [] ∧ x.phase = .closed ∧ x.outbound.toList = [] ∧
          c.metrics.handshakesFailed = c₁.metrics.handshakesFailed + 1 ∧
          c.metrics.connectionErrors = c₁.metrics.connectionErrors + 1)) := by
  have hx : c₁.connection = some (.outgoing c₀.limit) := by
    rw [show c₁ = _ from (congrArg Prod.fst (Option.some.inj hconnect)).symm]
    exact connection_connect c₀ host portNumber hfound
  obtain ⟨x, hxrun, howners, hleft⟩ := run_doings hx hrun
  have habort : .abort ∉ doings as := fun hmem => by cases howners _ hmem
  obtain ⟨hside, -, -, hsound, -⟩ := Connection.client_run hxrun
  refine ⟨x, _, rfl, hxrun, Connection.answered_run habort (unhooked_doings hhooks) hxrun, hleft,
    fun hstays => ?_⟩
  obtain ⟨x', ces, -, htended⟩ := tended_run hx hstays hrun
  obtain ⟨rfl, rfl⟩ := Prod.mk.inj (Option.some.inj (htended.run_eq.symm.trans hxrun))
  refine ⟨htended.connection_eq, htended.passes.after_eq, hsound.comesToRest_client hside,
    Connection.unhindered_rests hxrun habort, fun hlen hended hsocket hlocal hrest => ?_⟩
  obtain ⟨hsilent, hclosed, hdropped, hfailed, herrors⟩ :=
    Connection.cutShort_rests hxrun habort hlocal hlen hended hsocket hrest
  refine ⟨hsilent, hclosed, hdropped, ?_, ?_⟩
  · rw [Connection.failures_eq_countP] at hfailed
    rw [htended.metrics_eq, Metrics.handshakesFailed_recordAll, Connection.entries, hfailed]
    rfl
  · rw [htended.metrics_eq, Metrics.connectionErrors_recordAll]
    exact congrArg (c₁.metrics.connectionErrors + UInt64.ofNat ·) herrors

/-- Two messages are held, the challenge comes in two pieces, the second of them together with a message;
and a stream that ends after three bytes. -/
theorem challenge_answered_game :
    let m : Message GameTag := ⟨⟨.chat, 2⟩, [7, 8], rfl⟩
    let m' : Message GameTag := ⟨⟨.chat, 1⟩, [9], rfl⟩
    let c₁ : Client GameTag := ((create {} {}).connect "localhost" 0 (.ok [.v4 127 0 0 1])).1.1
    let as : List (Action GameTag) :=
      [.send m, .connection (.takeUp .application), .connection (.turn .ready), .send m',
        .connection (.takeUp .application), .connection (.arrive [7, 0, 0]),
        .connection (.turn .ready), .connection (.arrive ([0, 0, 0, 0, 0] ++ Frame.bytes m)),
        .connection (.turn .ready), .connection (.turn (.wrote 3)), .connection (.turn (.wrote 5)),
        .connection (.turn .ready), .connection (.chain 0 .ready),
        .connection (.chain 0 (.wrote 10)), .connection (.chain 0 (.wrote 9)),
        .connection (.turn .ready), .connection (.turn .ready)]
    let bs : List (Action GameTag) :=
      [.send m, .connection (.takeUp .application), .connection (.turn .ready),
        .connection (.arrive [7, 0, 0]), .connection (.turn .ready),
        .connection (.expire .finished), .connection (.turn .ready)]
    ∃ c es d fs, c₁.run as = some (c, es) ∧ c₁.run bs = some (d, fs) ∧
      (wrote (eventsOf 0 es)).take 8 = Bytes.ofWord (scramble 7) ∧
      (wrote (eventsOf 0 es)).drop 8 = Frame.bytes m ++ Frame.bytes m' ∧
      c.inbound.toList = [⟨none, m⟩] ∧ wrote (eventsOf 0 fs) = [] ∧
      d.metrics.handshakesFailed = 1 ∧ d.metrics.connectionErrors = 1 := by
  intro m m' c₁ as bs
  have hruns : (c₁.run as).any (fun o => o.1.connection.any fun x =>
      x.stage == .reading [] && x.inlet == {} && x.phase == .opened && x.posted == [] &&
        x.chains == []) = true := by
    decide +kernel
  have hshort : (c₁.run bs).any (fun o => (eventsOf 0 o.2).contains .established &&
      o.1.connection.any fun x => x.stage == .finished) = true := by
    decide +kernel
  obtain ⟨⟨c, es⟩, hrun, hlast⟩ := (Option.any_eq_true _ _).mp hruns
  obtain ⟨⟨d, fs⟩, hrun', hlast'⟩ := (Option.any_eq_true _ _).mp hshort
  have hconnect : (create (κ := GameTag) {} {}).step (.connect "localhost" 0 (.ok [.v4 127 0 0 1])) =
      some (c₁, []) := rfl
  obtain ⟨x, _, rfl, hxrun, hanswered, -, hstays⟩ :=
    challenge_answered (List.cons_ne_nil _ _) hconnect (by simp [as]) hrun
  obtain ⟨y, _, rfl, hyrun, -, -, hstays'⟩ :=
    challenge_answered (List.cons_ne_nil _ _) hconnect (by simp [bs]) hrun'
  obtain ⟨hx, hinbound, -, hrest, -⟩ := hstays (by decide)
  obtain ⟨hy, -, -, -, hcut⟩ := hstays' (by decide)
  rw [show (c, es).1.connection = some x from hx, Option.any_some] at hlast
  rw [Bool.and_eq_true, show (d, fs).1.connection = some y from hy, Option.any_some] at hlast'
  simp only [Bool.and_eq_true, beq_iff_eq] at hlast hlast'
  obtain ⟨⟨⟨⟨hstage, hinlet⟩, hphase⟩, hposted⟩, hchains⟩ := hlast
  obtain ⟨hsocket, hfinished⟩ := hlast'
  have hopen : x.phase ≠ .closed := by rw [hphase]; nofun
  obtain ⟨hread, hword⟩ := hrest (.of_not_closed hxrun hopen)
    (Connection.resting_of_reading hstage (Frame.decode_nil _) hinlet hopen)
  have hletters : letters (eventsOf c₁.current es) = [⟨none, m⟩] := by
    have hreads : Frame.Reads (create (κ := GameTag) {} {}).limit ([m].flatMap Frame.bytes) [m] [] :=
      Frame.reads_flatMap_bytes Kind.gameTag_writtenReads (by decide +kernel)
    have hbody : (arrivals (doings as)).drop 8 = [m].flatMap Frame.bytes := by decide +kernel
    rw [letters, hread, hbody, hreads.drain_eq, Frame.drain_of_none (Frame.decode_nil _)]
    rfl
  obtain ⟨hsilent, -, -, hfailed, herrors⟩ := hcut (by decide) (by decide)
    (List.contains_iff_mem.mp hsocket) (.of_forall (by decide))
    fun t => by cases t <;> simp [Connection.turn, hfinished]
  refine ⟨c, es, d, fs, hrun, hrun', ?_, ?_, ?_, hsilent, hfailed, herrors⟩
  · have hchallenge : Bytes.toWord ((arrivals (doings as)).take 8) = 7 := by decide +kernel
    rw [← hchallenge]
    exact hword (by decide)
  · exact (hanswered.flushed hphase).2 hposted hchains
  · rw [hinbound, hletters]
    rfl

end Parley.Client
