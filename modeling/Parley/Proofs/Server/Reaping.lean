import Parley.Proofs.Server.Keyed

/-!
# Parley.Proofs.Server.Reaping — closed connections that a send meets are set aside

A message to all connections reports the closed ones it meets and sets them aside at its end, however
many other calls the handler makes while it is told of them.  What carries this through a run is that
a connection is out of the registry or one of the calls that wait will take it out (`Leaving`): when
the call that met it has returned, no such call is left (`reaping_complete`).  A connection that its
own hook has disconnected has no id to be taken out by (`reaping_incomplete`).
-/

namespace Parley.Server

variable {κ : Type}

/-! ### Calls that will take a connection out -/

/-- One of the calls above height `h` has a property. -/
def Awaits (P : Call κ → Prop) (h : Nat) : List (Call κ) → Prop
  | [] => False
  | call :: calls => (P call ∧ h ≤ calls.length) ∨ Awaits P h calls

instance Awaits.decidable (P : Call κ → Prop) [DecidablePred P] (h : Nat) :
    DecidablePred (Awaits P h)
  | [] => inferInstanceAs (Decidable False)
  | call :: calls =>
    have := Awaits.decidable P h calls
    inferInstanceAs (Decidable ((P call ∧ h ≤ calls.length) ∨ Awaits P h calls))

namespace Awaits

variable {P Q : Call κ → Prop} {h : Nat} {calls : List (Call κ)}

theorem lt_length (hawaits : Awaits P h calls) : h < calls.length := by
  induction calls with
  | nil => exact hawaits.elim
  | cons call calls ih =>
    rcases hawaits with ⟨-, hle⟩ | hrest
    · exact Nat.lt_succ_of_le hle
    · exact Nat.lt_succ_of_lt (ih hrest)

theorem mono (hPQ : ∀ call, P call → Q call) (hawaits : Awaits P h calls) : Awaits Q h calls := by
  induction calls with
  | nil => exact hawaits
  | cons call calls ih => exact hawaits.imp (And.imp_left (hPQ call)) ih

end Awaits

/-- When the call comes to its end, it takes connection `n` out of the registry. -/
def Call.Reaps (s : Server κ) (n : Nat) : Call κ → Prop
  | .updating _ _ => False
  | .sweeping _ _ k rest dead =>
    k = n ∨ n ∈ rest ∨ s.Has (fun c => c.phase = .closed ∧ c.id ∈ dead) n
  | .reporting k => k = n

instance (s : Server κ) (n : Nat) : DecidablePred (Call.Reaps s n)
  | .updating _ _ => inferInstanceAs (Decidable False)
  | .sweeping _ _ k rest dead => inferInstanceAs (Decidable
      (k = n ∨ n ∈ rest ∨ s.Has (fun c => c.phase = .closed ∧ c.id ∈ dead) n))
  | .reporting k => inferInstanceAs (Decidable (k = n))

/-- Connection `n` is out of the registry, or a call above height `h` will take it out. -/
def Leaving (s : Server κ) (h n : Nat) : Prop :=
  n ∉ s.registry.numbers ∨ Awaits (Call.Reaps s n) h s.calls

instance (s : Server κ) (h n : Nat) : Decidable (s.Leaving h n) :=
  inferInstanceAs (Decidable (n ∉ s.registry.numbers ∨ Awaits (Call.Reaps s n) h s.calls))

theorem exists_of_mem_numbers {r : Registry} {n : Nat} (h : n ∈ r.numbers) :
    ∃ e ∈ r.entries, e.2 = n := List.mem_map.mp h

theorem mem_numbers {r : Registry} {e : Registry.Entry} (h : e ∈ r.entries) : e.2 ∈ r.numbers :=
  List.mem_map.mpr ⟨e, h, rfl⟩

/-- A closed connection and its id stay as they are. -/
theorem stable_closed_mem [Kind κ] (ids : List UInt32) :
    Connection.Stable fun c : Connection κ => c.phase = .closed ∧ c.id ∈ ids := by
  rintro c a o hstep ⟨hclosed, hid⟩
  refine ⟨Connection.closed_step hstep hclosed, ?_⟩
  rw [Connection.id_step_of_closed hstep hclosed]
  exact hid

/-- Taking the id of a connection that was begun out of the registry takes the connection out. -/
theorem Keyed.notMem_of_pruned {s : Server κ} (h : Keyed s.core false) {n : Nat} {ids : List UInt32}
    (hbegun : s.Begun n) (hid : s.Has (fun c => c.phase = .closed ∧ c.id ∈ ids) n) {r : Registry}
    (hr : ∀ e, e ∈ r.entries ↔ e ∈ s.registry.entries ∧ e.1 ∉ ids) : n ∉ r.numbers := by
  intro hmem
  obtain ⟨e, he, rfl⟩ := exists_of_mem_numbers hmem
  obtain ⟨hentry, hout⟩ := (hr e).mp he
  obtain ⟨c, hn, hstage⟩ := hbegun
  obtain ⟨c', hn', -, hc⟩ := hid
  cases hn.symm.trans hn'
  have hkey : c.id = e.1 := (h.named e hentry c hn).resolve_right hstage
  exact hout (hkey ▸ hc)

/-- The id of a closed connection is one of the ids of the connection. -/
theorem has_idsOf {s : Server κ} {n : Nat} (h : s.Closed n) (dead : List UInt32) :
    s.Has (fun c => c.phase = .closed ∧ c.id ∈ dead ++ s.idsOf n) n := by
  obtain ⟨c, hn, hclosed⟩ := h
  refine ⟨c, hn, hclosed, List.mem_append_right _ ?_⟩
  simp [idsOf, hn]

/-- A closed connection that a message to all was to meet is the first one it has met, or still before
it. -/
theorem eq_or_mem_of_meets {s : Server κ} {ns pre rest : List Nat} {k n : Nat}
    (hns : ns = pre ++ k :: rest) (hopen : ∀ j ∈ pre, ¬s.Closed j) (hclosed : s.Closed n)
    (hmem : n ∈ ns) : k = n ∨ n ∈ rest := by
  rw [hns] at hmem
  rcases List.mem_append.mp hmem with hpre | hmem
  · exact absurd hclosed (hopen n hpre)
  · exact (List.mem_cons.mp hmem).imp_left Eq.symm

theorem Has.imp {s : Server κ} {P Q : Connection κ → Prop} {n : Nat} (h : s.Has P n)
    (hPQ : ∀ c, P c → Q c) : s.Has Q n := by
  obtain ⟨c, hn, hc⟩ := h
  exact ⟨c, hn, hPQ c hc⟩

variable [Kind κ] {s : Server κ} {a : Action κ} {o : Outcome κ} {h n : Nat}

theorem Call.Reaps.step (hs : Regular s) (hstep : s.step a = some o) {call : Call κ}
    (hreaps : call.Reaps s n) : call.Reaps o.1 n := by
  cases call with
  | updating left handled => exact hreaps
  | sweeping m exclude k rest dead =>
    exact hreaps.imp_right (Or.imp_right fun hid => hid.step (stable_closed_mem dead) hs hstep)
  | reporting k => exact hreaps

omit [Kind κ] in
/-- Only a new connection is registered. -/
theorem Advance.notMem_numbers (hadvance : Advance s a o) (hlt : n < s.connections.length)
    (hout : n ∉ s.registry.numbers) : n ∉ o.1.registry.numbers := by
  intro hmem
  obtain ⟨e, he, rfl⟩ := exists_of_mem_numbers hmem
  rcases hadvance.entry_cases he with he | ⟨-, -, -, hlast, -⟩
  · exact hout (mem_numbers he)
  · exact absurd hlast (Nat.ne_of_lt hlt)

/-- **A connection that is leaving goes on doing so**, whatever the next step is. -/
theorem Leaving.step (hleaving : s.Leaving h n) (hs : Regular s) (hkeyed : Keyed s.core false)
    (hclosed : s.Closed n) (hbegun : s.Begun n) (hstep : s.step a = some o) : o.1.Leaving h n := by
  have hreaps : ∀ call, Call.Reaps s n call → Call.Reaps o.1 n call :=
    fun call hcall => hcall.step hs hstep
  have hadvance := advance_of_step hstep
  rcases hleaving with hout | hawaits
  · obtain ⟨c, hn, -⟩ := hclosed
    exact .inl (hadvance.notMem_numbers (List.getElem?_eq_some_iff.mp hn).1 hout)
  cases hadvance with
  | @dispatches _ _ calls hbefore hafter =>
    have hcalls : Awaits (Call.Reaps o.1 n) h calls := by
      rcases hbefore with hbefore | ⟨l, k, hbefore⟩
      · rw [hbefore] at hawaits
        exact hawaits.mono hreaps
      · rw [hbefore] at hawaits
        exact (hawaits.resolve_left fun htop => htop.1).mono hreaps
    right
    rcases hafter with hafter | ⟨l, k, hafter⟩
    · rw [hafter]
      exact hcalls
    · rw [hafter]
      exact .inr hcalls
  | enrols hroom hcalls =>
    right
    rw [hcalls]
    exact hawaits.mono hreaps
  | reports hn hc hcalls =>
    right
    rw [hcalls]
    exact .inr (hawaits.mono hreaps)
  | @prunes k _ hcalls hregistry =>
    rw [hcalls] at hawaits
    rcases hawaits with ⟨hk, -⟩ | hawaits
    · obtain rfl : k = n := hk
      exact .inl (hkeyed.notMem_of_pruned hbegun (has_idsOf hclosed []) hregistry)
    · exact .inr (hawaits.mono hreaps)
  | sweeps hswept =>
    right
    cases hswept with
    | ends hopen hcalls =>
      rw [hcalls]
      exact hawaits.mono hreaps
    | meets hns hopen hcalls =>
      rw [hcalls]
      exact .inr (hawaits.mono hreaps)
  | @sweepsOn m exclude k rest dead calls _ hbefore hswept =>
    -- What the call that goes on will take out: what it has reported before, the connection it has
    -- just reported, and the closed ones that are still before it.
    have htop : Call.Reaps s n (.sweeping m exclude k rest dead) →
        n ∈ rest ∨ s.Has (fun c => c.phase = .closed ∧ c.id ∈ dead ++ s.idsOf k) n := by
      rintro (rfl | hrest | hid)
      · exact .inr (has_idsOf hclosed dead)
      · exact .inl hrest
      · exact .inr (hid.imp fun c hc => ⟨hc.1, List.mem_append_left _ hc.2⟩)
    rw [hbefore] at hawaits
    cases hswept with
    | ends hopen hcalls hregistry =>
      rcases hawaits with ⟨hk, -⟩ | hawaits
      · rcases htop hk with hrest | hid
        · exact absurd hclosed (hopen n hrest)
        · exact .inl (hkeyed.notMem_of_pruned hbegun hid hregistry)
      · right
        rw [hcalls]
        exact hawaits.mono hreaps
    | @meets pre rest' k' hns hopen hcalls =>
      right
      rw [hcalls]
      rcases hawaits with ⟨hk, hle⟩ | hawaits
      · refine .inl ⟨?_, hle⟩
        rcases htop hk with hrest | hid
        · exact (eq_or_mem_of_meets hns hopen hclosed hrest).imp_right .inl
        · exact .inr (.inr (hid.step (stable_closed_mem _) hs hstep))
      · exact .inr (hawaits.mono hreaps)

theorem Leaving.run (hleaving : s.Leaving h n) (hs : Regular s) (hkeyed : Keyed s.core false)
    (hclosed : s.Closed n) (hbegun : s.Begun n) {as : List (Action κ)} (hrun : s.run as = some o) :
    o.1.Leaving h n := by
  have hall : Regular o.1 ∧ Keyed o.1.core false ∧ o.1.Closed n ∧ o.1.Begun n ∧ o.1.Leaving h n := by
    refine Run.all_invariant (I := fun s => Regular s ∧ Keyed s.core false ∧ s.Closed n ∧
      s.Begun n ∧ s.Leaving h n) ?_ ⟨hs, hkeyed, hclosed, hbegun, hleaving⟩ hrun
    rintro s a o ⟨hs, hkeyed, hclosed, hbegun, hleaving⟩ hstep
    exact ⟨hs.step hstep, hkeyed.step hs hstep, hclosed.step Connection.stable_closed hs hstep,
      hbegun.step stable_begun hs hstep, hleaving.step hs hkeyed hclosed hbegun hstep⟩
  exact hall.2.2.2.2

/-! ### Sends that meet closed connections -/

/-- A message to all takes out every closed connection it was to meet. -/
theorem leaving_broadcast {m : Message κ} {exclude : Option Nat} (hclosed : s.Closed n)
    (hregistered : n ∈ s.registry.numbers) (hstep : s.broadcast m exclude = o) :
    o.1.Leaving s.calls.length n := by
  subst hstep
  cases swept_sweep s m exclude s.registry.numbers [] with
  | ends hopen => exact absurd hclosed (hopen n hregistered)
  | @meets pre rest k hns hopen hcalls hregistry =>
    right
    rw [show (s.broadcast m exclude).1.calls = _ from hcalls]
    have hmeets := eq_or_mem_of_meets hns hopen hclosed hregistered
    exact .inl ⟨hmeets.imp_right .inl, Nat.le_refl _⟩

omit [Kind κ] in
/-- A message to a closed connection takes it out. -/
theorem leaving_messageClient {m : Message κ} (hclosed : s.Closed n)
    (hstep : s.messageClient n m = some o) : o.1.Leaving s.calls.length n := by
  obtain ⟨c, hn, rfl⟩ := Option.map_eq_some_iff.mp hstep
  rw [if_neg fun hopen => not_closed_of_isConnected hn hopen hclosed]
  exact .inr (.inl ⟨rfl, Nat.le_refl _⟩)

variable {settings : ServerSettings} {transport : TransportSettings} {entropy : Source}

/-- **Reaping is complete.**  A connection is registered and closed when a message to all connections
or to this one begins, and its own hook has not disconnected it.  Whatever happens then, and whatever
calls the handler makes in the meantime: when the call has returned, the connection is no longer
registered, under no id. -/
theorem reaping_complete {pre post : List (Action κ)} {s s₁ s₂ : Server κ}
    {es es₁ es₂ : List (Event κ)} {a : Action κ} {n : Nat}
    (hpre : (create settings transport entropy).run pre = some (s, es))
    (hregistered : n ∈ s.registry.numbers) (hclosed : s.Closed n)
    (hleft : LeftOpen (create settings transport entropy) pre n)
    (ha : (∃ m exclude, a = .broadcast m exclude) ∨ ∃ m, a = .messageClient n m)
    (hcall : s.step a = some (s₁, es₁)) (hpost : s₁.run post = some (s₂, es₂))
    (hreturned : s₂.calls.length ≤ s.calls.length) : n ∉ s₂.registry.numbers := by
  obtain ⟨hs, hkeyed, hbegun⟩ := keyed_run hpre
  have hbegun : s.Begun n := by
    obtain ⟨e, he, rfl⟩ := exists_of_mem_numbers hregistered
    exact hbegun e he hleft
  have hleaving : s₁.Leaving s.calls.length n := by
    rcases ha with ⟨m, exclude, rfl⟩ | ⟨m, rfl⟩
    · exact leaving_broadcast hclosed hregistered (Option.some.inj hcall)
    · exact leaving_messageClient hclosed hcall
  have hend := hleaving.run (hs.step hcall) (hkeyed.step hs hcall)
    (hclosed.step Connection.stable_closed hs hcall) (hbegun.step stable_begun hs hcall) hpost
  exact hend.resolve_right fun hawaits => Nat.not_lt_of_le hreturned hawaits.lt_length

/-- Two connections are closed.  The handler is told of the first one, and while it is, it sends to
the second one, which is reported and set aside before the message to all goes on. -/
theorem reaping_complete_nested :
    let m : Message GameTag := ⟨⟨.ping, 0⟩, [], rfl⟩
    let pre : List (Action GameTag) := [.start .loopback 0, .accept [] true, .accept [] true,
      .connection 0 (.perform .application .disconnect),
      .connection 1 (.perform .application .disconnect)]
    let post : List (Action GameTag) := [.messageClient 1 m, .resume, .resume, .resume]
    ∃ s es s₁ es₁ s₂ es₂, (create {} {} fun _ => 0).run pre = some (s, es) ∧
      s.registry.numbers = [0, 1] ∧ s.Closed 1 ∧
      s.step (.broadcast m none) = some (s₁, es₁) ∧ s₁.run post = some (s₂, es₂) ∧
      s₂.calls.length ≤ s.calls.length ∧ 1 ∉ s₂.registry.numbers := by
  intro m pre post
  have hall : ((create {} {} fun _ => 0).run pre).any (fun o =>
      o.1.registry.numbers == [0, 1] && o.1.connections[1]?.any (·.phase == .closed) &&
      o.1.calls.isEmpty && (o.1.step (.broadcast m none)).any fun p =>
        (p.1.run post).any fun q => q.1.calls.isEmpty) = true := by
    decide +kernel
  obtain ⟨⟨s, es⟩, hpre, hlast⟩ := (Option.any_eq_true _ _).mp hall
  simp only [Bool.and_eq_true, beq_iff_eq, List.isEmpty_iff, Option.any_eq_true] at hlast
  obtain ⟨⟨⟨hnumbers, c, hn, hphase⟩, hidle⟩, ⟨s₁, es₁⟩, hcall, ⟨s₂, es₂⟩, hpost, hidle'⟩ := hlast
  have hreturned : s₂.calls.length ≤ s.calls.length := by
    rw [show s₂.calls = [] from hidle', show s.calls = [] from hidle]
  have hleft : LeftOpen (create {} {} fun _ => 0) pre 1 :=
    .of_forall fun deeds approved hmem => by simp_all [pre]
  refine ⟨s, es, s₁, es₁, s₂, es₂, hpre, hnumbers, ⟨c, hn, hphase⟩, hcall, hpost, hreturned, ?_⟩
  exact reaping_complete hpre (by rw [hnumbers]; simp) ⟨c, hn, hphase⟩ hleft
    (.inl ⟨m, none, rfl⟩) hcall hpost hreturned

/-- **A connection that its own hook has disconnected stays registered.**  The hook approves of the
connection all the same; a message to all reports it, and returns. -/
theorem reaping_incomplete :
    let m : Message GameTag := ⟨⟨.ping, 0⟩, [], rfl⟩
    let pre : List (Action GameTag) := [.start .loopback 0, .accept [(0, .disconnect)] true]
    ∃ s es s₁ es₁ s₂ es₂, (create {} {} fun _ => 0).run pre = some (s, es) ∧
      s.calls = [] ∧ 0 ∈ s.registry.numbers ∧ s.Closed 0 ∧
      s.step (.broadcast m none) = some (s₁, es₁) ∧ reported es₁ = [0] ∧
      s₁.run [.resume] = some (s₂, es₂) ∧ es₂ = [.returned none] ∧ s₂.calls = [] ∧
      0 ∈ s₂.registry.numbers := by
  intro m pre
  have hall : ((create {} {} fun _ => 0).run pre).any (fun o =>
      o.1.calls.isEmpty && o.1.registry.numbers == [0] &&
      o.1.connections[0]?.any (·.phase == .closed) &&
      (o.1.step (.broadcast m none)).any fun p => reported p.2 == [0] &&
        (p.1.run [.resume]).any fun q => q.2 == [.returned none] && q.1.calls.isEmpty &&
          q.1.registry.numbers == [0]) = true := by
    decide +kernel
  obtain ⟨⟨s, es⟩, hpre, hlast⟩ := (Option.any_eq_true _ _).mp hall
  simp only [Bool.and_eq_true, beq_iff_eq, List.isEmpty_iff, Option.any_eq_true] at hlast
  obtain ⟨⟨⟨hidle, hnumbers⟩, c, hn, hphase⟩, ⟨s₁, es₁⟩, hcall, hreported, ⟨s₂, es₂⟩, hpost,
    ⟨hreturned, hidle'⟩, hnumbers'⟩ := hlast
  refine ⟨s, es, s₁, es₁, s₂, es₂, hpre, hidle, ?_, ⟨c, hn, hphase⟩, hcall, hreported, hpost,
    hreturned, hidle', ?_⟩
  · rw [hnumbers]; exact List.mem_cons_self
  · rw [hnumbers']; exact List.mem_cons_self

end Parley.Server
