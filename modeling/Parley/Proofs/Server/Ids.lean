import Parley.Proofs.Server.Keyed
import Parley.Proofs.Server.Steady

/-!
# Parley.Proofs.Server.Ids — ids in the order of acceptance

Every connection that is approved uses up one number, whether it is an id or too large for one, and
nothing else does; stopping, starting and setting connections aside leave the numbers alone
(`Counts`).  So the connection that is approved as the `i`-th one is registered under the first id
plus `i` or turned away, and the ids that were ever given out rise with the connections (`Rising`).
-/

namespace Parley.Server

variable {κ : Type}

/-! ### Accepting -/

/-- Showing a connection to a hook gives it no id. -/
structure Shown (s : Server κ) (o : Outcome κ) : Prop where
  length_eq : o.1.connections.length = s.connections.length + 1
  nextId_eq : o.1.nextId = s.nextId
  rejected_eq : o.1.metrics.connectionsRejected = s.metrics.connectionsRejected
  tame : ∀ e ∈ o.2, e.isTame = true

theorem shown_spec (s : Server κ) (deeds : List (Nat × Connection.Deed κ)) :
    Shown s (s.shown deeds) := by
  obtain ⟨hlength, hnext, hrejected, htame⟩ := Steady.performAll deeds s.appear.1
  refine ⟨hlength.trans ?_, hnext, hrejected, fun e he => ?_⟩
  · simp [appear]
  · rcases List.mem_append.mp he with he | he
    · rw [List.mem_singleton.mp he]
      rfl
    · exact htame e he

/-- Turning a connection away closes it and counts it. -/
structure Refused (s : Server κ) (n : Nat) (o : Outcome κ) : Prop where
  length_eq : o.1.connections.length = s.connections.length
  nextId_eq : o.1.nextId = s.nextId
  closed : n < s.connections.length → o.1.Closed n
  rejected_eq : o.1.metrics.connectionsRejected = s.metrics.connectionsRejected + 1
  tame : ∀ e ∈ o.2, e.isTame = true

theorem refused_reject (n : Nat) (s : Server κ) : Refused s n (s.reject n) := by
  obtain ⟨hlength, hnext, hrejected, htame⟩ :=
    Steady.close { s with metrics := s.metrics.record .rejected } n
  refine ⟨hlength, hnext, fun hlt => ?_, hrejected, List.forall_mem_cons.mpr ⟨rfl, htame⟩⟩
  unfold reject onConnection
  dsimp only
  rw [List.getElem?_eq_getElem hlt]
  dsimp only
  rw [absorb_eq]
  exact ⟨_, List.getElem?_set_self hlt, Connection.phase_close _⟩

/-- A connection that is registered uses up the next number. -/
structure Given (s : Server κ) (n : Nat) (o : Outcome κ) : Prop where
  length_eq : o.1.connections.length = s.connections.length
  nextId_eq : o.1.nextId = s.nextId + 1
  registrations_eq : registrations o.2 = [(s.nextId.toUInt32, n)]
  entry : (s.nextId.toUInt32, n) ∈ o.1.registry.entries
  rejected_eq : o.1.metrics.connectionsRejected = s.metrics.connectionsRejected

theorem given_enrol {s : Server κ} (n : Nat) (hroom : s.nextId.toNat < UInt32.size) :
    Given s n (s.enrol n) := by
  unfold enrol
  dsimp only
  rw [if_pos hroom]
  have hbegun := Steady.approve
    { s with nextId := s.nextId + 1, registry := s.registry.insert s.nextId.toUInt32 n } n
    s.nextId.toUInt32
  have hregistry := Unmoved.onConnection
    { s with nextId := s.nextId + 1, registry := s.registry.insert s.nextId.toUInt32 n } n
    fun c => (c.approve s.nextId.toUInt32, [])
  refine ⟨hbegun.length_eq, hbegun.nextId_eq, ?_, ?_, hbegun.rejected_eq⟩
  · exact congrArg ((s.nextId.toUInt32, n) :: ·) (registrations_tame hbegun.tame)
  · rw [hregistry.registry_eq]
    exact Registry.mem_insert_self _ _ _

/-- What accepting a socket comes to. -/
inductive Accepted (s : Server κ) (approved : Bool) (o : Outcome κ) : Prop
  /-- The connection is registered under the next number. -/
  | given (happroved : approved = true) (hroom : s.nextId.toNat < UInt32.size)
    (hlength : o.1.connections.length = s.connections.length + 1) (hnext : o.1.nextId = s.nextId + 1)
    (hregs : registrations o.2 = [(s.nextId.toUInt32, s.connections.length)])
    (hentry : (s.nextId.toUInt32, s.connections.length) ∈ o.1.registry.entries)
    (hrejected : o.1.metrics.connectionsRejected = s.metrics.connectionsRejected)
  /-- It is turned away, by the handler or because the next number is too large for an id. -/
  | refused (hwhy : approved = false ∨ UInt32.size ≤ s.nextId.toNat)
    (hlength : o.1.connections.length = s.connections.length + 1)
    (hnext : o.1.nextId = if approved then s.nextId + 1 else s.nextId)
    (hregs : registrations o.2 = []) (hclosed : o.1.Closed s.connections.length)
    (hrejected : o.1.metrics.connectionsRejected = s.metrics.connectionsRejected + 1)

theorem accepted_accept (s : Server κ) (deeds : List (Nat × Connection.Deed κ)) (approved : Bool) :
    Accepted s approved (s.accept deeds approved) := by
  obtain ⟨hlength, hnext, hrejected, htame⟩ := shown_spec s deeds
  have hquiet : ∀ es : List (Event κ), registrations ((s.shown deeds).2 ++ es) = registrations es := by
    intro es
    rw [registrations_append, registrations_tame htame, List.nil_append]
  have hlast : s.connections.length < (s.shown deeds).1.connections.length := by
    rw [hlength]
    exact Nat.lt_succ_self _
  rw [accept_eq_shown]
  generalize s.shown deeds = o at hlength hnext hrejected hquiet hlast ⊢
  cases approved with
  | false =>
    have haway := refused_reject s.connections.length o.1
    exact .refused (.inl rfl) (haway.length_eq.trans hlength) (haway.nextId_eq.trans hnext)
      ((hquiet _).trans (registrations_tame haway.tame)) (haway.closed hlast)
      (haway.rejected_eq.trans (congrArg (· + 1) hrejected))
  | true =>
    simp only [↓reduceIte]
    by_cases hroom : s.nextId.toNat < UInt32.size
    · obtain ⟨hsame, hnext', hregs, hentry, hkept⟩ :=
        given_enrol s.connections.length (s := o.1) (by rw [hnext]; exact hroom)
      rw [hnext] at hnext' hregs hentry
      exact .given rfl hroom (hsame.trans hlength) hnext' ((hquiet _).trans hregs) hentry
        (hkept.trans hrejected)
    · have hfull : o.1.enrol s.connections.length =
          reject s.connections.length { o.1 with nextId := o.1.nextId + 1 } := by
        rw [← hnext] at hroom
        exact if_neg hroom
      have haway := refused_reject s.connections.length { o.1 with nextId := o.1.nextId + 1 }
      rw [← hfull] at haway
      exact .refused (.inr (Nat.le_of_not_lt hroom)) (haway.length_eq.trans hlength)
        (haway.nextId_eq.trans (congrArg (· + 1) hnext))
        ((hquiet _).trans (registrations_tame haway.tame)) (haway.closed hlast)
        (haway.rejected_eq.trans (congrArg (· + 1) hrejected))

/-! ### Steps -/

/-- Dispatching makes and numbers no connection. -/
theorem dispatch_unnumbered (left handled : Nat) (s : Server κ) :
    (dispatch left handled s).1.connections = s.connections ∧
      (dispatch left handled s).1.nextId = s.nextId ∧
      registrations (dispatch left handled s).2 = [] := by
  induction left generalizing s handled with
  | zero => exact ⟨rfl, rfl, rfl⟩
  | succ left ih =>
    unfold dispatch
    split
    · exact ⟨rfl, rfl, rfl⟩
    · dsimp only
      split
      · exact ⟨rfl, rfl, rfl⟩
      · exact ih _ { s with inbound := _ }

/-- The number of sockets approved. -/
def approvals (as : List (Action κ)) : Nat := as.countP Action.isApproval

/-- What a step makes of the ids. -/
inductive Counts (s : Server κ) : Action κ → Outcome κ → Prop
  | accepts {deeds : List (Nat × Connection.Deed κ)} {approved : Bool} {o : Outcome κ}
    (h : Accepted s approved o) : Counts s (.accept deeds approved) o
  | still {a : Action κ} {o : Outcome κ} (ha : a.isApproval = false)
    (hlength : o.1.connections.length = s.connections.length) (hnext : o.1.nextId = s.nextId)
    (hregs : registrations o.2 = []) : Counts s a o

theorem accepted_of_step [Kind κ] {s : Server κ} {deeds : List (Nat × Connection.Deed κ)}
    {approved : Bool} {o : Outcome κ} (h : s.step (.accept deeds approved) = some o) :
    Accepted s approved o := by
  simp only [step] at h
  split at h
  · cases h
    exact accepted_accept s deeds approved
  · cases h

/-- **Every step is one of these.** -/
theorem counts_of_step [Kind κ] {s : Server κ} {a : Action κ} {o : Outcome κ} (h : s.step a = some o) :
    Counts s a o := by
  cases turn_of_step h with
  | accepts => exact .accepts (accepted_accept s _ _)
  | @connection n c a o hn ha hstep =>
    exact .still rfl (length_absorb s n o) (nextId_absorb s n o) (registrations_connection n o.2)
  | updates =>
    obtain ⟨hconn, hnext, hregs⟩ := dispatch_unnumbered _ 0 s
    exact .still rfl (congrArg List.length hconn) hnext hregs
  | @updatesOn left handled calls hcalls =>
    obtain ⟨hconn, hnext, hregs⟩ := dispatch_unnumbered left handled { s with calls := calls }
    exact .still rfl (congrArg List.length hconn) hnext hregs
  | steady ha _ h => exact .still ha h.length_eq h.nextId_eq (registrations_tame h.tame)
  | requeues ha =>
    refine .still ?_ rfl rfl rfl
    cases a <;> first | rfl | cases ha

/-! ### Numbers -/

/-- The ids given out rise with the connections, and `k` numbers from `first` on are used up. -/
structure Rising (s : Server κ) (first k : Nat) (es : List (Event κ)) : Prop where
  nextId_eq : s.nextId = UInt64.ofNat (first + k)
  count_le : k ≤ s.connections.length
  ordered : (registrations es).Pairwise fun d e => d.1 < e.1 ∧ d.2 < e.2
  below : ∀ e ∈ registrations es, e.1.toNat < first + k ∧ e.2 < s.connections.length

namespace Rising

variable {s : Server κ} {first k : Nat} {es : List (Event κ)} {a : Action κ} {o : Outcome κ}

theorem create (settings : ServerSettings) (transport : TransportSettings) (entropy : Source) :
    Rising (Server.create (κ := κ) settings transport entropy) settings.firstClientId.toNat 0 [] where
  nextId_eq := UInt64.toNat_inj.mp (by simp [Server.create])
  count_le := Nat.le_refl 0
  ordered := .nil
  below := nofun

/-- No id is given out. -/
theorem still (h : Rising s first k es) {k' : Nat} (hregs : registrations o.2 = [])
    (hnext : o.1.nextId = UInt64.ofNat (first + k')) (hk : k ≤ k')
    (hk' : k' ≤ o.1.connections.length)
    (hlength : s.connections.length ≤ o.1.connections.length) :
    Rising o.1 first k' (es ++ o.2) := by
  have hsame : registrations (es ++ o.2) = registrations es := by
    rw [registrations_append, hregs, List.append_nil]
  refine ⟨hnext, hk', ?_, ?_⟩
  · rw [hsame]
    exact h.ordered
  · rw [hsame]
    intro e he
    obtain ⟨hid, hnumber⟩ := h.below e he
    exact ⟨by omega, by omega⟩

/-- The number that is used up next. -/
theorem toNat_nextId (h : Rising s first k es) (hbound : first + s.connections.length < 2 ^ 64) :
    s.nextId.toNat = first + k := by
  rw [h.nextId_eq, UInt64.toNat_ofNat']
  exact Nat.mod_eq_of_lt ((Nat.add_le_add_left h.count_le first).trans_lt hbound)

theorem toNat_id (h : Rising s first k es) (hbound : first + s.connections.length < 2 ^ 64)
    (hroom : s.nextId.toNat < UInt32.size) : s.nextId.toUInt32.toNat = first + k := by
  rw [UInt64.toNat_toUInt32, h.toNat_nextId hbound]
  exact Nat.mod_eq_of_lt (by rw [← h.toNat_nextId hbound]; exact hroom)

theorem succ_nextId (h : Rising s first k es) :
    s.nextId + 1 = UInt64.ofNat (first + (k + 1)) := by
  rw [h.nextId_eq, ← Nat.add_assoc, UInt64.ofNat_add (first + k) 1]
  rfl

theorem step (h : Rising s first k es) (hcounts : Counts s a o)
    (hbound : first + o.1.connections.length ≤ 2 ^ 64) :
    Rising o.1 first (k + [a].countP Action.isApproval) (es ++ o.2) := by
  cases hcounts with
  | still ha hlength hnext hregs =>
    rw [List.countP_cons_of_neg (by rw [ha]; nofun)]
    exact h.still hregs (hnext.trans h.nextId_eq) (Nat.le_refl k) (hlength ▸ h.count_le)
      (Nat.le_of_eq hlength.symm)
  | @accepts deeds approved _ haccepted =>
    cases haccepted with
    | given happroved hroom hlength hnext hregs hentry hrejected =>
      rw [List.countP_cons_of_pos happroved]
      have hid := h.toNat_id (by omega) hroom
      have hregs' : registrations (es ++ o.2) =
          registrations es ++ [(s.nextId.toUInt32, s.connections.length)] := by
        rw [registrations_append, hregs]
      refine ⟨hnext.trans h.succ_nextId, ?_, ?_, ?_⟩
      · rw [hlength]
        exact Nat.succ_le_succ h.count_le
      · rw [hregs']
        refine List.pairwise_append.mpr ⟨h.ordered, List.pairwise_singleton _ _, fun d hd e he => ?_⟩
        rw [List.mem_singleton.mp he]
        obtain ⟨hlow, hnumber⟩ := h.below d hd
        exact ⟨UInt32.lt_iff_toNat_lt.mpr (by rw [hid]; exact hlow), hnumber⟩
      · rw [hregs', hlength]
        intro e he
        rcases List.mem_append.mp he with he | he
        · obtain ⟨hlow, hnumber⟩ := h.below e he
          exact ⟨Nat.lt_succ_of_lt hlow, Nat.lt_succ_of_lt hnumber⟩
        · rw [List.mem_singleton.mp he]
          exact ⟨by rw [hid]; exact Nat.lt_succ_self _, Nat.lt_succ_self _⟩
    | refused hwhy hlength hnext hregs hclosed hrejected =>
      cases happroved : approved with
      | true =>
        rw [List.countP_cons_of_pos (show Action.isApproval (.accept deeds true) = true from rfl)]
        rw [if_pos happroved] at hnext
        exact h.still hregs (hnext.trans h.succ_nextId) (Nat.le_succ k)
          (hlength ▸ Nat.succ_le_succ h.count_le) (hlength ▸ Nat.le_succ _)
      | false =>
        rw [List.countP_cons_of_neg (by nofun)]
        rw [if_neg (by rw [happroved]; nofun)] at hnext
        exact h.still hregs (hnext.trans h.nextId_eq) (Nat.le_refl k)
          (hlength ▸ Nat.le_succ_of_le h.count_le) (hlength ▸ Nat.le_succ _)

end Rising

/-! ### Runs -/

variable [Kind κ] {s s' : Server κ} {es : List (Event κ)}
  {settings : ServerSettings} {transport : TransportSettings} {entropy : Source}

theorem rising_run {as : List (Action κ)}
    (hrun : (create settings transport entropy).run as = some (s, es))
    (hbound : settings.firstClientId.toNat + s.connections.length ≤ 2 ^ 64) :
    Rising s settings.firstClientId.toNat (approvals as) es := by
  refine Run.all_history (I := fun s as es =>
    settings.firstClientId.toNat + s.connections.length ≤ 2 ^ 64 →
      Rising s settings.firstClientId.toNat (approvals as) es)
    (fun _ => .create settings transport entropy) ?_ hrun hbound
  intro pre a post s₁ es₁ s₂ es₂ _ hpre hstep ih hbound₂
  have hle := length_step ((Regular.create settings transport entropy).run hpre) hstep
  rw [approvals, List.countP_append]
  exact (ih ((Nat.add_le_add_left hle _).trans hbound₂)).step (counts_of_step hstep) hbound₂

/-- A closed connection stays closed. -/
theorem Closed.run {as : List (Action κ)} {n : Nat} (h : s.Closed n) (hs : Regular s)
    (hrun : s.run as = some (s', es)) : s'.Closed n := by
  refine Run.all_history (I := fun s _ _ => s.Closed n) h ?_ hrun
  intro pre a post s₁ es₁ s₂ es₂ _ hpre hstep h₁
  exact Has.step Connection.stable_closed h₁ (hs.run hpre) hstep

/-- Every connection has lived a life of its own, whatever the application does to the inbound queue. -/
theorem lives_run {as : List (Action κ)}
    (hrun : (create settings transport entropy).run as = some (s, es)) : ∃ br, Lives s br es := by
  refine Run.all_history (I := fun s _ es => ∃ br, Lives s br es)
    ⟨_, .create settings transport entropy⟩ ?_ hrun
  rintro pre a post s₁ es₁ s₂ es₂ - hpre hstep ⟨br, hlives⟩
  rcases requeued_or_acts_of_step ((Regular.create settings transport entropy).run hpre) hstep with
    ⟨q, ho⟩ | hacts
  · cases ho
    exact ⟨_, hlives.still rfl fun _ => rfl⟩
  · exact ⟨_, hlives.acts hacts⟩

/-- The registered connections are listed in the order of acceptance, and each is found under its id. -/
structure Listed (s : Server κ) (es : List (Event κ)) : Prop where
  rising : s.registry.numbers.Pairwise (· < ·)
  sublist : s.registered.Sublist s.connections
  entered : ∀ e ∈ s.registry.entries, e ∈ registrations es
  found : ∀ e ∈ s.registry.entries, ∃ c, s.connections[e.2]? = some c ∧ s.connection? e.1 = some c

section Accepting

variable {pre post : List (Action κ)} {deeds : List (Nat × Connection.Deed κ)} {approved : Bool}
  {s₁ s₂ : Server κ} {es₁ es₂ es₃ : List (Event κ)}

omit [Kind κ] in
/-- What was never registered is not listed. -/
theorem Listed.notMem_numbers {n : Nat} (h : Listed s es) (hnone : ∀ id, (id, n) ∉ registrations es) :
    n ∉ s.registry.numbers := by
  intro hmem
  obtain ⟨e, he, hnumber⟩ := List.mem_map.mp hmem
  exact hnone e.1 (hnumber ▸ h.entered e he)

end Accepting

end Parley.Server
