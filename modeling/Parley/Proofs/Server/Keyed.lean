import Parley.Proofs.Server.Calls
import Parley.Proofs.Server.Registered

/-!
# Parley.Proofs.Server.Keyed — the ids connections are registered under

A connection is registered under one id at most, and its own id is that one, unless it was never begun
(`Keyed`).  This holds for any first id and however often the counter of ids has gone round.  A
connection that was not begun is one that the hook it was shown to has disconnected
(`keyed_run`).
-/

namespace Parley.Server

variable {κ : Type}

/-! ### Keys -/

section Keys

variable {v : Core κ} {b : Bool}

/-- Registered connections have the ids they are registered under; of the connection that is being
accepted, if one is, nothing is registered yet. -/
structure Keyed (v : Core κ) (b : Bool) : Prop where
  /-- A connection that was not begun has no id. -/
  named : ∀ e ∈ v.registry.entries, ∀ c, v.connections[e.2]? = some c →
    c.id = e.1 ∨ c.stage = .absent
  apart : ∀ d ∈ v.registry.entries, ∀ e ∈ v.registry.entries, d.2 = e.2 → d = e
  below : ∀ e ∈ v.registry.entries, e.2 + b.toNat < v.connections.length
  last : b = true → ∀ n c, n + 1 = v.connections.length → v.connections[n]? = some c →
    c.stage = .absent

namespace Keyed

theorem create (settings : ServerSettings) (transport : TransportSettings) (entropy : Source) :
    Keyed (Server.create (κ := κ) settings transport entropy).core false :=
  ⟨nofun, nofun, nofun, nofun⟩

/-- Entries are taken out. -/
theorem prune (h : Keyed v b) {registry retired : Registry}
    (hsub : ∀ e ∈ registry.entries, e ∈ v.registry.entries) :
    Keyed { v with registry := registry, retired := retired } b where
  named e he := h.named e (hsub e he)
  apart d hd e he := h.apart d (hsub d hd) e (hsub e he)
  below e he := h.below e (hsub e he)
  last := h.last

/-- A connection makes a step, and has no id afterwards that is not its own. -/
theorem connection (h : Keyed v b) {n : Nat} {c c' : Connection κ} {inbound : Deque (Letter κ)}
    (hn : v.connections[n]? = some c)
    (hnamed : ∀ e ∈ v.registry.entries, e.2 = n → c.id = e.1 ∨ c.stage = .absent →
      c'.id = e.1 ∨ c'.stage = .absent)
    (hlast : b = true → n + 1 = v.connections.length → c.stage = .absent → c'.stage = .absent) :
    Keyed { v with connections := v.connections.set n c', inbound := inbound } b := by
  have hself : (v.connections.set n c')[n]? = some c' :=
    List.getElem?_set_self (List.getElem?_eq_some_iff.mp hn).1
  refine ⟨fun e he d hd => ?_, h.apart, fun e he => ?_, fun hb k d hk hd => ?_⟩
  · by_cases hen : e.2 = n
    · rw [hen, hself] at hd
      cases hd
      exact hnamed e he hen (h.named e he c (by rw [hen]; exact hn))
    · rw [List.getElem?_set_ne (Ne.symm hen)] at hd
      exact h.named e he d hd
  · rw [List.length_set]
    exact h.below e he
  · rw [List.length_set] at hk
    by_cases hkn : k = n
    · rw [hkn, hself] at hd
      cases hd
      exact hlast hb (hkn ▸ hk) (h.last hb n c (hkn ▸ hk) hn)
    · rw [List.getElem?_set_ne (Ne.symm hkn)] at hd
      exact h.last hb k d hk hd

/-- The tasks of all connections are dropped. -/
theorem abort (h : Keyed v b) :
    Keyed { v with connections := v.connections.map Connection.abort } b := by
  have hold : ∀ {n : Nat} {c : Connection κ}, (v.connections.map Connection.abort)[n]? = some c →
      ∃ d, v.connections[n]? = some d ∧ c = d.abort := by
    intro n c hn
    rw [List.getElem?_map] at hn
    obtain ⟨d, hd, rfl⟩ := Option.map_eq_some_iff.mp hn
    exact ⟨d, hd, rfl⟩
  have habsent : ∀ d : Connection κ, d.stage = .absent → d.abort.stage = .absent :=
    fun d hd => by simp [Connection.abort, hd]
  refine ⟨fun e he c hc => ?_, h.apart, fun e he => ?_, fun hb n c hn hc => ?_⟩
  · obtain ⟨d, hd, rfl⟩ := hold hc
    exact (h.named e he d hd).imp_right (habsent d)
  · rw [List.length_map]
    exact h.below e he
  · rw [List.length_map] at hn
    obtain ⟨d, hd, rfl⟩ := hold hc
    exact habsent d (h.last hb n d hn hd)

/-- There is another connection, which is not registered yet. -/
theorem appear (h : Keyed v false) {c : Connection κ} (hc : c.stage = .absent) :
    Keyed { v with connections := v.connections ++ [c] } true := by
  refine ⟨fun e he d hd => ?_, h.apart, fun e he => ?_, fun _ n d hn hd => ?_⟩
  · have hlt : e.2 < v.connections.length := h.below e he
    rw [List.getElem?_append_left hlt] at hd
    exact h.named e he d hd
  · rw [List.length_append]
    exact Nat.succ_lt_succ (h.below e he)
  · rw [List.length_append, List.length_singleton] at hn
    rw [List.getElem?_append_right (by omega)] at hd
    rw [List.mem_singleton.mp (List.mem_of_getElem? hd)]
    exact hc

/-- The new connection gets no id. -/
theorem turnAway (h : Keyed v true) (next : UInt64) : Keyed { v with nextId := next } false :=
  ⟨h.named, h.apart, fun e he => Nat.lt_of_succ_lt (h.below e he), nofun⟩

/-- The new connection is registered, and has not begun yet. -/
theorem register (h : Keyed v true) {n : Nat} (hn : n + 1 = v.connections.length) (next : UInt64)
    (id : UInt32) :
    Keyed { v with nextId := next, registry := v.registry.insert id n } false := by
  have hother : ∀ e ∈ v.registry.entries, e.2 < n := by
    intro e he
    have hbelow : e.2 + 1 < v.connections.length := h.below e he
    omega
  refine ⟨fun e he c hc => ?_, fun d hd e he heq => ?_, fun e he => ?_, nofun⟩
  · rcases Registry.of_mem_insert he with rfl | he
    · exact .inr (h.last rfl n c hn hc)
    · exact h.named e he c hc
  · rcases Registry.of_mem_insert hd with rfl | hd
    · rcases Registry.of_mem_insert he with rfl | he
      · rfl
      · exact absurd heq.symm (Nat.ne_of_lt (hother e he))
    · rcases Registry.of_mem_insert he with rfl | he
      · exact absurd heq (Nat.ne_of_lt (hother d hd))
      · exact h.apart d hd e he heq
  · show e.2 + 0 < v.connections.length
    rcases Registry.of_mem_insert he with rfl | he
    · exact hn ▸ Nat.lt_succ_self n
    · exact hn ▸ Nat.lt_succ_of_lt (hother e he)

end Keyed

end Keys

variable [Kind κ] {s s' : Server κ} {b b' : Bool} {br : Nat → List UInt8} {es : List (Event κ)}

/-- Only the owner of a connection begins it. -/
theorem absent_step {c : Connection κ} {a : Connection.Action κ} {o : Connection.Outcome κ}
    (ha : a.isOwners = false) (hstep : c.step a = some o) (h : c.stage = .absent) :
    o.1.stage = .absent := by
  rcases Connection.stage_step hstep with hsame | ⟨-, -, hposted⟩
  · exact hsame.trans h
  · exact absurd h (hposted ha)

namespace Keyed

theorem act (h : Keyed s.core b) (hact : Act s b br s' b' es) : Keyed s'.core b' := by
  cases hact with
  | @connection _ n c a o hn ha hstep =>
    rw [core_absorb]
    refine h.connection hn (fun e he _ hc => ?_) fun _ _ hc => absent_step ha hstep hc
    exact hc.imp ((Connection.id_step hstep ha).trans ·) (absent_step ha hstep)
  | @approve _ n c id o hn hentry hstep =>
    rw [core_absorb]
    refine h.connection hn (fun e he hen hc => ?_) fun hb hlast => ?_
    · cases Connection.move_of_step hstep with
      | approve =>
        show (c.approve id).id = e.1 ∨ (c.approve id).stage = .absent
        unfold Connection.approve
        split
        · exact .inl (congrArg Prod.fst (h.apart (id, n) hentry e he hen.symm))
        · exact hc
    · have hbelow : n + b.toNat < s.connections.length := h.below (id, n) hentry
      rw [hb] at hbelow
      exact absurd hlast (Nat.ne_of_lt hbelow)
  | abort hcore => rw [hcore]; exact h.abort
  | appear hcore => rw [hcore]; exact h.appear rfl
  | register hn hroom hcore => rw [hcore]; exact h.register hn _ _
  | turnAway hnext hcore => rw [hcore]; exact h.turnAway _
  | prune hids hcore =>
    rw [hcore]
    exact h.prune fun e he => ((Registry.mem_fst_move_iff _).mp he).1
  | forget hempty hcore => rw [hcore]; exact h.prune fun _ he => he
  | deliver hpop hsender hcore => rw [hcore]; exact ⟨h.named, h.apart, h.below, h.last⟩
  | drop hpop hsender hcore => rw [hcore]; exact ⟨h.named, h.apart, h.below, h.last⟩
  | aside hcalls hcore hes => rw [hcore]; exact ⟨h.named, h.apart, h.below, h.last⟩

theorem acts (h : Keyed s.core b) (hacts : Acts s b br s' b' es) : Keyed s'.core b' := by
  induction hacts with
  | refl => exact h
  | tail hacts hact ih => exact ih.act hact

theorem step (h : Keyed s.core false) (hs : Regular s) {a : Action κ} {o : Outcome κ}
    (hstep : s.step a = some o) : Keyed o.1.core false := by
  rcases requeued_or_acts_of_step hs hstep with ⟨q, rfl⟩ | hacts
  · exact ⟨h.named, h.apart, h.below, h.last⟩
  · exact h.acts hacts

end Keyed

/-- What every step of a connection keeps stays true of it. -/
theorem Has.step {P : Connection κ → Prop} (hP : Connection.Stable P) {n : Nat} (h : s.Has P n)
    (hs : Regular s) {a : Action κ} {o : Outcome κ} (hstep : s.step a = some o) : o.1.Has P n := by
  rcases requeued_or_acts_of_step hs hstep with ⟨q, rfl⟩ | hacts
  · exact h
  · exact h.acts hP hacts

/-! ### Connections that began -/

/-- Connection `n` was begun. -/
def Begun (s : Server κ) (n : Nat) : Prop := s.Has (fun c => c.stage ≠ .absent) n

theorem stable_begun : Connection.Stable fun c : Connection κ => c.stage ≠ .absent :=
  fun _ _ _ hstep h => Connection.stage_ne_absent hstep h

/-- The hook that connection `n` was shown to has not disconnected it. -/
def LeftOpen (s₀ : Server κ) (as : List (Action κ)) (n : Nat) : Prop :=
  ∀ pre deeds approved post s es, as = pre ++ .accept deeds approved :: post →
    s₀.run pre = some (s, es) → s.connections.length = n → (n, .disconnect) ∉ deeds

/-- Hooks that disconnect nobody leave everybody open. -/
theorem LeftOpen.of_forall {s₀ : Server κ} {as : List (Action κ)} {n : Nat}
    (h : ∀ deeds approved, .accept deeds approved ∈ as → (n, .disconnect) ∉ deeds) :
    LeftOpen s₀ as n := by
  rintro pre deeds approved post s es rfl - -
  exact h deeds approved (by simp)

/-- What holds of the whole run holds of its beginning. -/
theorem LeftOpen.of_append {s₀ : Server κ} {as bs : List (Action κ)} {n : Nat}
    (h : LeftOpen s₀ (as ++ bs) n) : LeftOpen s₀ as n := by
  rintro pre deeds approved post s es rfl hrun hlength
  exact h pre deeds approved (post ++ bs) s es (by simp) hrun hlength

/-- A hook that disconnects nothing leaves an accepted connection waiting. -/
theorem validating_of_performs {limit : Nat} {ch : Challenge} {c : Connection κ}
    {es : List (Connection.Event κ)} {deeds : List (Connection.Deed κ)}
    (hrun : (Connection.accepted limit ch).run (deeds.map (.perform .reactor)) = some (c, es))
    (hdeeds : .disconnect ∉ deeds) : c.phase = .validating := by
  refine Run.all_history (I := fun c _ _ => c.phase = .validating) rfl ?_ hrun
  intro pre a post c₁ es₁ c₂ es₂ has _ hstep h₁
  have hmem : a ∈ deeds.map (Connection.Action.perform Connection.Thread.reactor) := by
    rw [has]
    simp
  obtain ⟨deed, hdeed, rfl⟩ := List.mem_map.mp hmem
  cases deed with
  | send m =>
    cases hstep
    unfold Connection.send
    split
    · exact h₁
    · exact h₁
  | disconnect => exact absurd hdeed hdeeds

omit [Kind κ] in
/-- A connection that is still connected begins when it is registered. -/
theorem begun_enrol {n : Nat} {c : Connection κ} (hn : s.connections[n]? = some c)
    (hopen : c.isConnected = true) (hroom : s.nextId.toNat < UInt32.size) :
    (s.enrol n).1.Begun n := by
  unfold enrol
  dsimp only
  rw [if_pos hroom]
  unfold onConnection
  dsimp only
  rw [hn]
  dsimp only
  rw [absorb_eq]
  refine ⟨_, List.getElem?_set_self (List.getElem?_eq_some_iff.mp hn).1, ?_⟩
  simp [Connection.approve, hopen]

/-- A connection that is approved begins, unless the hook has disconnected it or there is no id for
it. -/
theorem begun_accept (s : Server κ) {deeds : List (Nat × Connection.Deed κ)}
    (hdeeds : (s.connections.length, .disconnect) ∉ deeds) (hroom : s.nextId.toNat < UInt32.size) :
    (s.accept deeds true).1.Begun s.connections.length := by
  have hnew : s.appear.1.connections[s.connections.length]? =
      some (Connection.accepted s.limit (s.source.challenge s.connections.length)) := by
    simp [appear]
  obtain ⟨c, es, hc, hrun⟩ := performAll_run deeds hnew
  have hopen : c.isConnected = true := by
    refine Phase.isLive_iff.mpr (.inl (validating_of_performs hrun fun hmem => hdeeds ?_))
    obtain ⟨d, hd, hdeed⟩ := List.mem_map.mp hmem
    obtain ⟨hd, hn⟩ := List.mem_filter.mp hd
    rw [← of_decide_eq_true hn, ← hdeed]
    exact hd
  rw [accept_eq]
  exact begun_enrol hc hopen (by rw [nextId_performAll]; exact hroom)

/-! ### Runs -/

variable {settings : ServerSettings} {transport : TransportSettings} {entropy : Source}

/-- The registered connections of every run have their ids, and were begun if their hooks left them
open. -/
theorem keyed_run {as : List (Action κ)}
    (hrun : (create settings transport entropy).run as = some (s, es)) :
    Regular s ∧ Keyed s.core false ∧ ∀ e ∈ s.registry.entries,
      LeftOpen (create settings transport entropy) as e.2 → s.Begun e.2 := by
  refine Run.all_history (I := fun s _ _ => Regular s ∧ Keyed s.core false ∧
    ∀ e ∈ s.registry.entries, LeftOpen (create settings transport entropy) as e.2 → s.Begun e.2)
    ⟨.create settings transport entropy, .create settings transport entropy, nofun⟩ ?_ hrun
  rintro pre a post s₁ es₁ s₂ es₂ has hpre hstep ⟨hregular, hkeyed, hbegun⟩
  refine ⟨hregular.step hstep, hkeyed.step hregular hstep, fun e he hleft => ?_⟩
  rcases (advance_of_step hstep).entry_cases he with he | ⟨deeds, rfl, hroom, hlast, -⟩
  · exact (hbegun e he hleft).step stable_begun hregular hstep
  · have haccept : some (s₁.accept deeds true) = some (s₂, es₂) := by
      simp only [step] at hstep
      split at hstep
      · exact hstep
      · cases hstep
    have hnew := begun_accept s₁ (hlast ▸ hleft pre deeds true post s₁ es₁ has hpre hlast.symm) hroom
    rw [Option.some.inj haccept, ← hlast] at hnew
    exact hnew

end Parley.Server
