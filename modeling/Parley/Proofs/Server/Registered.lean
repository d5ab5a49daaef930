import Parley.Proofs.Server.Delivery
import Parley.Proofs.Server.Operations

/-!
# Parley.Proofs.Server.Registered — live connections stay registered

Entries leave the registry by id, and a connection without an id carries the id zero.  So a live
connection stays registered (`registered_stays`) as long as its id is not zero and no id was given
out twice: the counter of ids has not gone all the way round.  Neither can be left out
(`live_unregistered`).
-/

namespace Parley.Server

variable {κ : Type} {s s' : Server κ} {b b' : Bool} {br : Nat → List UInt8}
  {es es' : List (Event κ)} {first : Nat}

/-- The ids are in order, and what is registered and not closed stays registered. -/
structure Enrolled (s : Server κ) (first : Nat) (b : Bool) (es : List (Event κ)) : Prop where
  regular : Regular s
  numbered : Numbered s.core first b es
  retained : Retained s es

theorem Enrolled.create (settings : ServerSettings) (transport : TransportSettings)
    (entropy : Source) : Enrolled (Server.create (κ := κ) settings transport entropy)
      settings.firstClientId.toNat false [] where
  regular := .create settings transport entropy
  numbered := .create settings transport entropy
  retained := nofun

theorem Regular.requeue (h : Regular s) (q : Deque (Letter κ)) :
    Regular { s with inbound := q } := ⟨h.phases, h.calls⟩

theorem Enrolled.requeue (h : Enrolled s first b es) (q : Deque (Letter κ)) :
    Enrolled { s with inbound := q } first b (es ++ []) where
  regular := h.regular.requeue q
  numbered := h.numbered.still rfl h.numbered.named (fun _ he => he) h.numbered.counted
  retained := by
    rw [List.append_nil]
    exact h.retained

variable [Kind κ]

/-! ### Steps and their length -/

/-- A step of a server is a chain of acts, or the application does something to the inbound queue
itself, which changes nothing else. -/
theorem requeued_or_acts_of_step (h : Regular s) {a : Action κ} {o : Outcome κ}
    (hstep : s.step a = some o) :
    (∃ q, o = ({ s with inbound := q }, [])) ∨ Acts s false a.brings o.1 false o.2 := by
  cases ha : a.isTampering with
  | false => exact .inr (acts_of_step h ha hstep)
  | true =>
    left
    cases a with
    | inject l =>
      cases hstep
      exact ⟨_, rfl⟩
    | take =>
      obtain ⟨p, -, rfl⟩ := Option.map_eq_some_iff.mp hstep
      exact ⟨p.2, rfl⟩
    | _ => cases ha

theorem Regular.step (h : Regular s) {a : Action κ} {o : Outcome κ} (hstep : s.step a = some o) :
    Regular o.1 := by
  rcases requeued_or_acts_of_step h hstep with ⟨q, rfl⟩ | hacts
  · exact h.requeue q
  · exact h.acts hacts

theorem Regular.run (h : Regular s) {as : List (Action κ)} {o : Outcome κ}
    (hrun : s.run as = some o) : Regular o.1 :=
  Run.all_invariant (I := Regular) (fun _ _ _ hs hstep => hs.step hstep) h hrun

theorem Acts.length_le (h : Acts s b br s' b' es) :
    s.connections.length ≤ s'.connections.length := by
  induction h with
  | refl => exact Nat.le_refl _
  | tail h hact ih => exact ih.trans hact.length_le

/-- No connection is ever taken off the list. -/
theorem length_step (h : Regular s) {a : Action κ} {o : Outcome κ} (hstep : s.step a = some o) :
    s.connections.length ≤ o.1.connections.length := by
  rcases requeued_or_acts_of_step h hstep with ⟨q, rfl⟩ | hacts
  · exact Nat.le_refl _
  · exact hacts.length_le

theorem length_run (h : Regular s) {as : List (Action κ)} {o : Outcome κ}
    (hrun : s.run as = some o) : s.connections.length ≤ o.1.connections.length := by
  refine Run.all_history (I := fun t _ _ => s.connections.length ≤ t.connections.length)
    (Nat.le_refl _) ?_ hrun
  intro pre a post s₁ es₁ s₂ es₂ _ hpre hstep ih
  exact ih.trans (length_step (h.run hpre) hstep)

/-! ### Registered connections -/

namespace Enrolled

theorem acts (h : Enrolled s first b es) (hacts : Acts s b br s' b' es')
    (hbound : first + s'.connections.length ≤ 2 ^ 64) : Enrolled s' first b' (es ++ es') := by
  induction hacts with
  | refl =>
    rw [List.append_nil]
    exact h
  | tail hacts hact ih =>
    obtain ⟨hregular, hnumbered, hretained⟩ :=
      ih ((Nat.add_le_add_left hact.length_le _).trans hbound)
    rw [← List.append_assoc]
    exact ⟨hregular.act hact, hnumbered.act hact hbound, hretained.act hnumbered hact hbound⟩

theorem step (h : Enrolled s first false es) {a : Action κ} {o : Outcome κ} (hstep : s.step a = some o)
    (hbound : first + o.1.connections.length ≤ 2 ^ 64) :
    Enrolled o.1 first false (es ++ o.2) := by
  rcases requeued_or_acts_of_step h.regular hstep with ⟨q, rfl⟩ | hacts
  · exact h.requeue q
  · exact h.acts hacts hbound

theorem run (h : Enrolled s first false []) {as : List (Action κ)} {o : Outcome κ}
    (hrun : s.run as = some o)
    (hbound : first + o.1.connections.length ≤ 2 ^ 64) : Enrolled o.1 first false o.2 := by
  refine Run.all_history (I := fun s _ es => first + s.connections.length ≤ 2 ^ 64 →
    Enrolled s first false es) (fun _ => h) ?_ hrun hbound
  intro pre a post s₁ es₁ s₂ es₂ _ hpre hstep ih hbound₂
  have hle := length_step (h.regular.run hpre) hstep
  exact (ih ((Nat.add_le_add_left hle _).trans hbound₂)).step hstep hbound₂

end Enrolled

variable {settings : ServerSettings} {transport : TransportSettings} {entropy : Source}

/-- **A live connection stays registered.**  Whatever happens to a server and whatever its handler
does: a connection that is registered under an id stays registered under it as long as it is not
closed.  This takes an id other than zero, and no more connections than there are numbers from the
first id up to the largest the counter can hold. -/
theorem registered_stays {pre post : List (Action κ)} {s₁ s₂ : Server κ} {es₁ es₂ : List (Event κ)}
    {id : UInt32} {n : Nat} {c : Connection κ}
    (hpre : (create settings transport entropy).run pre = some (s₁, es₁))
    (hentry : (id, n) ∈ s₁.registry.entries) (hpost : s₁.run post = some (s₂, es₂))
    (hn : s₂.connections[n]? = some c) (hlive : c.phase = .validating ∨ c.phase = .opened)
    (hzero : id ≠ 0)
    (hbound : settings.firstClientId.toNat + s₂.connections.length ≤ 2 ^ 64) :
    (id, n) ∈ s₂.registry.entries := by
  have hcreate := Enrolled.create (κ := κ) settings transport entropy
  have hrun : (create settings transport entropy).run (pre ++ post) = some (s₂, es₁ ++ es₂) := by
    show Run.all step _ (pre ++ post) = _
    rw [Run.all_append, show Run.all step _ pre = _ from hpre]
    show (Server.run s₁ post).map _ = _
    rw [hpost]
    rfl
  have hle : s₁.connections.length ≤ s₂.connections.length :=
    length_run (hcreate.regular.run hpre) hpost
  have h₁ := hcreate.run hpre ((Nat.add_le_add_left hle _).trans hbound)
  have h₂ := hcreate.run hrun hbound
  have hgiven : (id, n) ∈ registrations (es₁ ++ es₂) := by
    rw [registrations_append]
    exact List.mem_append_left _ (h₁.numbered.entered _ (.inl hentry))
  refine (h₂.retained id n hzero hgiven).resolve_right fun ⟨c', hn', hclosed⟩ => ?_
  cases hn.symm.trans hn'
  rw [hclosed] at hlive
  rcases hlive with hlive | hlive
  · cases hlive
  · cases hlive

/-- One connection is registered, and another one is turned away.  A message to the second one reports
it and sets nothing aside. -/
theorem registered_stays_refusal :
    let as : List (Action GameTag) := [.start .loopback 0, .accept [] true]
    let bs : List (Action GameTag) := [.accept [(1, .disconnect)] false,
      .messageClient 1 ⟨⟨.ping, 0⟩, [], rfl⟩, .resume]
    ∃ s₁ es₁ s₂ es₂, (create {} {} fun _ => 0).run as = some (s₁, es₁) ∧
      s₁.run bs = some (s₂, es₂) ∧ .disconnected 1 ∈ es₂ ∧ (10000, 0) ∈ s₂.registry.entries := by
  intro as bs
  have hpre : ((create {} {} fun _ => 0).run as).any (fun o =>
      o.1.registry.entries == [(10000, 0)]) = true := by
    decide +kernel
  have hboth : (((create {} {} fun _ => 0).run as).bind (·.1.run bs)).any (fun o =>
      o.2.contains (.disconnected 1) && o.1.connections.length == 2 &&
      o.1.connections[0]?.any (·.phase == .validating)) = true := by
    decide +kernel
  obtain ⟨⟨s₁, es₁⟩, hrun₁, hentries⟩ := (Option.any_eq_true _ _).mp hpre
  rw [hrun₁] at hboth
  obtain ⟨⟨s₂, es₂⟩, hrun₂, hlast⟩ := (Option.any_eq_true _ _).mp hboth
  simp only [Bool.and_eq_true, beq_iff_eq, List.contains_iff_mem, Option.any_eq_true]
    at hlast hentries
  obtain ⟨⟨hreported, hlength⟩, c, hn, hphase⟩ := hlast
  refine ⟨s₁, es₁, s₂, es₂, hrun₁, hrun₂, hreported, ?_⟩
  exact registered_stays hrun₁ (by rw [hentries]; exact List.mem_cons_self) hrun₂ hn (.inl hphase)
    (by decide) (by rw [hlength]; decide)

/-! ### Ids that are zero or given out twice -/

/-- The server with `k` more connections, which have used up `k` ids. -/
structure Grown (k : Nat) (s s' : Server κ) : Prop where
  attended_eq : s'.attended = s.attended
  nextId_eq : s'.nextId = s.nextId + UInt64.ofNat k
  length_eq : s'.connections.length = s.connections.length + k
  old : ∀ (n : Nat) (c : Connection κ), s.connections[n]? = some c → s'.connections[n]? = some c

omit [Kind κ] in
/-- Doing something to the last connection leaves the others and the counter of ids alone. -/
theorem Grown.onConnection {k : Nat} (h : Grown (k + 1) s s') {n : Nat}
    (hn : s.connections.length ≤ n) (f : Connection κ → Connection.Outcome κ) :
    Grown (k + 1) s (s'.onConnection n f).1 ∧ (s'.onConnection n f).1.registry = s'.registry := by
  unfold Server.onConnection
  split
  · exact ⟨h, rfl⟩
  · rw [absorb_eq]
    refine ⟨⟨h.attended_eq, h.nextId_eq, List.length_set.trans h.length_eq, fun j c hj => ?_⟩, rfl⟩
    have hlt := (List.getElem?_eq_some_iff.mp hj).1
    exact (List.getElem?_set_ne (Nat.ne_of_gt (Nat.lt_of_lt_of_le hlt hn))).trans (h.old j c hj)

omit [Kind κ] in
/-- A socket that is accepted and approved uses up an id, and is registered under it if there is
room. -/
theorem grown_accept (s : Server κ) :
    Grown 1 s (s.accept [] true).1 ∧ (s.nextId.toNat < UInt32.size →
      (s.accept [] true).1.registry =
        s.registry.insert s.nextId.toUInt32 s.connections.length) := by
  have heq : (s.accept [] true).1 = (s.appear.1.enrol s.connections.length).1 := by
    rw [accept_eq]
    rfl
  have hgrown : Grown 1 s { s.appear.1 with nextId := s.nextId + 1 } := by
    refine ⟨rfl, rfl, by simp [appear], fun n c hn => ?_⟩
    exact (List.getElem?_append_left (List.getElem?_eq_some_iff.mp hn).1).trans hn
  rw [heq]
  unfold enrol
  dsimp only
  split
  · have hentered : Grown 1 s
        { s.appear.1 with
          nextId := s.nextId + 1
          registry := s.registry.insert s.nextId.toUInt32 s.connections.length } :=
      ⟨hgrown.attended_eq, hgrown.nextId_eq, hgrown.length_eq, hgrown.old⟩
    obtain ⟨hlast, hregistry⟩ := hentered.onConnection (Nat.le_refl _)
      fun c => (c.approve s.nextId.toUInt32, [])
    exact ⟨hlast, fun _ => hregistry⟩
  · next hfull =>
    have hcounted : Grown 1 s
        { s.appear.1 with
          nextId := s.nextId + 1
          metrics := s.appear.1.metrics.record .rejected } :=
      ⟨hgrown.attended_eq, hgrown.nextId_eq, hgrown.length_eq, hgrown.old⟩
    exact ⟨(hcounted.onConnection (Nat.le_refl _) Connection.close).1,
      fun hroom => absurd hroom hfull⟩

/-- Sockets are accepted one after the other. -/
theorem grown_accepts (hattended : s.attended = true) (k : Nat) :
    ∃ o, s.run (List.replicate k (.accept [] true)) = some o ∧ Grown k s o.1 := by
  induction k generalizing s with
  | zero => exact ⟨(s, []), rfl, rfl, (UInt64.add_zero _).symm, rfl, fun _ _ h => h⟩
  | succ k ih =>
    obtain ⟨hone, -⟩ := grown_accept s
    have hstep : s.step (.accept [] true) = some (s.accept [] true) := if_pos hattended
    obtain ⟨o, hrun, hrest⟩ := ih (hone.attended_eq.trans hattended)
    refine ⟨(o.1, (s.accept [] true).2 ++ o.2), ?_, hrest.attended_eq.trans hone.attended_eq, ?_, ?_,
      fun n c hn => hrest.old n c (hone.old n c hn)⟩
    · exact Run.all_cons_eq_some_iff.mpr ⟨_, _, _, hstep, hrun, rfl⟩
    · rw [hrest.nextId_eq, hone.nextId_eq, UInt64.add_assoc, ← UInt64.ofNat_add, Nat.add_comm]
    · rw [hrest.length_eq, hone.length_eq, Nat.add_assoc, Nat.add_comm 1]

/-- After the actions `as` a connection is registered, and after `bs` it is not, although it waits for
the answer to its challenge. -/
def Loses (first : UInt32) (as bs : List (Action GameTag)) (id : UInt32) (n : Nat) : Prop :=
  ∃ s₁ es₁ s₂ es₂ c, (create { firstClientId := first } {} fun _ => 0).run as = some (s₁, es₁) ∧
    (id, n) ∈ s₁.registry.entries ∧ s₁.run bs = some (s₂, es₂) ∧ s₂.connections[n]? = some c ∧
    c.phase = .validating ∧ (id, n) ∉ s₂.registry.entries

/-- **Neither assumption can be left out.**  Where the first id is zero, a message to a connection that
was refused takes the connection with this id out of the registry; and where the counter goes all the
way round, a new connection takes the place of the first one. -/
theorem live_unregistered :
    Loses 0 [.start .loopback 0, .accept [] true]
      [.accept [] false, .messageClient 1 ⟨⟨.ping, 0⟩, [], rfl⟩, .resume] 0 0 ∧
    Loses 1 [.start .loopback 0, .accept [] true] (List.replicate (2 ^ 64) (.accept [] true)) 1 0 := by
  constructor
  · have hboth : ((create { firstClientId := 0 } {} fun _ => 0).run
        [.start .loopback 0, .accept [] true]).any (fun o =>
          o.1.registry.entries == [(0, 0)] &&
          (o.1.run [.accept [] false, .messageClient 1 ⟨⟨GameTag.ping, 0⟩, [], rfl⟩, .resume]).any
            fun o => o.1.connections[0]?.any (·.phase == .validating) &&
              o.1.registry.entries.isEmpty) = true := by
      decide +kernel
    obtain ⟨⟨s₁, es₁⟩, hrun₁, hlast⟩ := (Option.any_eq_true _ _).mp hboth
    simp only [Bool.and_eq_true, beq_iff_eq, List.isEmpty_iff, Option.any_eq_true] at hlast
    obtain ⟨hentries, ⟨s₂, es₂⟩, hrun₂, ⟨c, hn, hphase⟩, hempty⟩ := hlast
    refine ⟨s₁, es₁, s₂, es₂, c, hrun₁, ?_, hrun₂, hn, hphase, ?_⟩
    · rw [hentries]; exact List.mem_cons_self
    · rw [hempty]; exact List.not_mem_nil
  · have hfirst : ((create (κ := GameTag) { firstClientId := 1 } {} fun _ => 0).run
        [.start .loopback 0, .accept [] true]).any (fun o =>
          o.1.attended && o.1.registry.entries == [(1, 0)] && o.1.nextId == 2 &&
          o.1.connections.length == 1 && o.1.connections[0]?.any (·.phase == .validating)) = true := by
      decide +kernel
    obtain ⟨⟨s₁, es₁⟩, hrun₁, hlast⟩ := (Option.any_eq_true _ _).mp hfirst
    simp only [Bool.and_eq_true, beq_iff_eq, Option.any_eq_true] at hlast
    obtain ⟨⟨⟨⟨hattended, hentries⟩, hnext⟩, hlength⟩, c, hn, hphase⟩ := hlast
    obtain ⟨⟨s, es⟩, hrun, hgrown⟩ := grown_accepts hattended (2 ^ 64 - 1)
    obtain ⟨hone, hregistry⟩ := grown_accept s
    have hround : s.nextId = 1 := by
      rw [hgrown.nextId_eq, hnext]
      rfl
    have hstep : s.step (.accept [] true) = some (s.accept [] true) :=
      if_pos (hgrown.attended_eq.trans hattended)
    have hrun₂ : s₁.run (List.replicate (2 ^ 64) (.accept [] true)) =
        some ((s.accept [] true).1, es ++ (s.accept [] true).2) := by
      rw [show 2 ^ 64 = (2 ^ 64 - 1) + 1 from rfl, List.replicate_succ']
      exact Run.all_concat_eq_some_iff.mpr ⟨s, es, _, hrun, hstep, rfl⟩
    refine ⟨s₁, es₁, _, _, c, hrun₁, ?_, hrun₂, hone.old 0 c (hgrown.old 0 c hn), hphase, ?_⟩
    · rw [hentries]; exact List.mem_cons_self
    · have hnew : (1, s.connections.length) ∈ (s.accept [] true).1.registry.entries := by
        rw [hregistry (by rw [hround]; decide), hround]
        exact Registry.mem_insert_self _ _ _
      intro hold
      have hzero : s.connections.length = 0 :=
        congrArg Prod.snd (Registry.eq_of_fst hnew hold rfl)
      rw [hgrown.length_eq, hlength] at hzero
      exact absurd hzero (by decide)

end Parley.Server
