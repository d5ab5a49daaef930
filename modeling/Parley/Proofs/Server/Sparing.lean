import Parley.Proofs.Connection.Calm
import Parley.Proofs.Server.Histories
import Parley.Proofs.Server.Recording

/-!
# Parley.Proofs.Server.Sparing — connections that a server leaves alone

The application and its hooks may close connections and send on them (`Action.Touches`).  Nothing else
that is done to a server, and nothing that happens to the other connections, reaches a connection
(`LeavesAlone`).  So a connection that is spared until it is closed is calm (`calm_run`).
-/

namespace Parley.Server

variable {κ : Type} {s : Server κ} {n k : Nat} {o : Outcome κ}

/-! ### What is done to a connection -/

/-- The connections that a message to `ns` gets to before it meets one that is not connected. -/
def reached (s : Server κ) (ns : List Nat) : List Nat :=
  ns.takeWhile fun k => (s.connections[k]?).all (·.isConnected)

/-- Connection `n` is there and connected. -/
def Connected (s : Server κ) (n : Nat) : Prop := s.Has (·.isConnected = true) n

instance (s : Server κ) (n : Nat) : Decidable (s.Connected n) :=
  inferInstanceAs (Decidable (s.Has (·.isConnected = true) n))

/-- The application, or a hook, closes connection `n` or sends on it, while it is not closed. -/
def Action.Touches (s : Server κ) (n : Nat) : Action κ → Prop
  | .stop => s.attended = true ∧ s.Connected n
  | .accept deeds _ => n ∈ deeds.map (·.1) ∧ ¬s.Closed n
  | .connection k (.perform _ _) => k = n ∧ s.Connected n
  | .messageClient k _ => k = n ∧ s.Connected n
  | .broadcast _ exclude => n ∈ s.reached s.registry.numbers ∧ exclude ≠ some n
  | .resume =>
    match s.calls with
    | .sweeping _ exclude _ rest _ :: _ => n ∈ s.reached rest ∧ exclude ≠ some n
    | _ => False
  | _ => False

instance Action.Touches.decidable (s : Server κ) (n : Nat) (a : Action κ) :
    Decidable (a.Touches s n) := by
  unfold Action.Touches
  split
  case h_6 => split <;> infer_instance
  all_goals infer_instance

/-! ### Operations that leave a connection alone -/

/-- Nothing is done to connection `n`. -/
structure LeavesAlone (s : Server κ) (n : Nat) (o : Outcome κ) : Prop where
  connection_eq : o.1.connections[n]? = s.connections[n]?
  quiet : eventsOf n o.2 = []

namespace LeavesAlone

theorem refl (s : Server κ) (n : Nat) : LeavesAlone s n (s, []) := ⟨rfl, rfl⟩

/-- Only the connections matter. -/
theorem of_connections {t : Server κ} (h : LeavesAlone t n o) (s : Server κ)
    (hconn : t.connections = s.connections) : LeavesAlone s n o :=
  ⟨h.connection_eq.trans (congrArg (·[n]?) hconn), h.quiet⟩

/-- An event more that is about no connection. -/
theorem cons (h : LeavesAlone s n o) (e : Event κ) (he : e.of? n = none) :
    LeavesAlone s n (o.1, e :: o.2) :=
  ⟨h.connection_eq, (List.filterMap_cons_none he).trans h.quiet⟩

theorem andThen {next : Server κ → Outcome κ} (h : LeavesAlone s n o)
    (hnext : LeavesAlone o.1 n (next o.1)) : LeavesAlone s n (o.andThen next) where
  connection_eq := hnext.connection_eq.trans h.connection_eq
  quiet := (eventsOf_append n o.2 _).trans (by rw [h.quiet, hnext.quiet]; rfl)

theorem absorb (s : Server κ) (hne : k ≠ n) (o : Connection.Outcome κ) :
    LeavesAlone s n (s.absorb k o) := by
  rw [absorb_eq]
  refine ⟨List.getElem?_set_ne hne, ?_⟩
  rw [eventsOf_connection, if_neg hne]

theorem onConnection (s : Server κ) (hne : k ≠ n) (f : Connection κ → Connection.Outcome κ) :
    LeavesAlone s n (s.onConnection k f) := by
  unfold Server.onConnection
  split
  · exact refl s n
  · exact absorb s hne _

theorem performAll {deeds : List (Nat × Connection.Deed κ)} (h : n ∉ deeds.map (·.1))
    (s : Server κ) : LeavesAlone s n (performAll deeds s) := by
  induction deeds generalizing s with
  | nil => exact refl s n
  | cons d deeds ih =>
    obtain ⟨hfirst, hrest⟩ := not_or.mp (mt List.mem_cons.mpr h)
    exact (onConnection s (Ne.symm hfirst) fun c => c.perform .reactor d.2).andThen (ih hrest _)

theorem reject (s : Server κ) (hne : k ≠ n) : LeavesAlone s n (s.reject k) := by
  have hclosed := onConnection { s with metrics := s.metrics.record .rejected } hne Connection.close
  exact (hclosed.of_connections s rfl).cons (.rejected k) rfl

theorem enrol (s : Server κ) (hne : k ≠ n) : LeavesAlone s n (s.enrol k) := by
  unfold Server.enrol
  dsimp only
  split
  · have hbegun := onConnection
      { s with nextId := s.nextId + 1, registry := s.registry.insert s.nextId.toUInt32 k } hne
      fun c => (c.approve s.nextId.toUInt32, [])
    exact (hbegun.of_connections s rfl).cons (.registered k _) rfl
  · exact (reject { s with nextId := s.nextId + 1 } hne).of_connections s rfl

theorem accept {deeds : List (Nat × Connection.Deed κ)} (hlt : n < s.connections.length)
    (h : n ∉ deeds.map (·.1)) (approved : Bool) : LeavesAlone s n (s.accept deeds approved) := by
  have hne : s.connections.length ≠ n := Nat.ne_of_gt hlt
  have happear : LeavesAlone s n s.appear := by
    refine ⟨List.getElem?_append_left hlt, ?_⟩
    have hof := eventsOf_connection (κ := κ) n s.connections.length [.established]
    rwa [if_neg hne] at hof
  rw [accept_eq]
  refine happear.andThen ((performAll h _).andThen ?_)
  cases approved with
  | false => exact reject _ hne
  | true => exact enrol _ hne

theorem dispatch (left handled : Nat) (s : Server κ) : LeavesAlone s n (dispatch left handled s) := by
  induction left generalizing s handled with
  | zero => exact ⟨rfl, rfl⟩
  | succ left ih =>
    unfold Server.dispatch
    split
    · exact ⟨rfl, rfl⟩
    · next l rest _ =>
      dsimp only
      split
      · exact ⟨rfl, rfl⟩
      · have hrest := ih (handled + 1) { s with inbound := rest }
        exact (hrest.of_connections s rfl).cons (.dropped l) rfl

/-- Sending closes nobody. -/
theorem reached_send (s : Server κ) (k : Nat) (m : Message κ) (ns : List Nat) :
    (s.onConnection k fun c => (c.send .application m, [])).1.reached ns = s.reached ns := by
  unfold Server.onConnection
  split
  · rfl
  · next c hk =>
    rw [absorb_eq]
    unfold reached
    congr 1
    funext j
    by_cases hkj : k = j
    · subst hkj
      rw [List.getElem?_set_self (List.getElem?_eq_some_iff.mp hk).1, hk]
      show (c.send .application m).isConnected = c.isConnected
      unfold Connection.send
      split <;> rfl
    · rw [List.getElem?_set_ne hkj]

theorem sweep (m : Message κ) (exclude : Option Nat) (ns : List Nat) (dead : List UInt32)
    (s : Server κ) (h : n ∈ s.reached ns → exclude = some n) :
    LeavesAlone s n (sweep m exclude ns dead s) := by
  induction ns generalizing s with
  | nil => exact ⟨rfl, rfl⟩
  | cons k ns ih =>
    have hcons : (s.connections[k]?).all (·.isConnected) = true →
        s.reached (k :: ns) = k :: s.reached ns := fun hk => by
      rw [reached, List.takeWhile_cons, if_pos hk, reached]
    unfold Server.sweep
    split
    · next hnone =>
      rw [hcons (by rw [hnone]; rfl)] at h
      exact ih s fun hn => h (List.mem_cons_of_mem k hn)
    · next c hk =>
      split
      · next hconnected =>
        rw [hcons (by rw [hk]; exact hconnected)] at h
        have hrest : n ∈ s.reached ns → exclude = some n := fun hn => h (List.mem_cons_of_mem k hn)
        split
        · exact ih s hrest
        · next hexclude =>
          have hne : k ≠ n := by
            rintro rfl
            exact hexclude (h List.mem_cons_self)
          refine (onConnection s hne _).andThen (ih _ ?_)
          rw [reached_send]
          exact hrest
      · exact ⟨rfl, rfl⟩

theorem messageClient {m : Message κ} (h : s.messageClient k m = some o)
    (hk : k = n → ¬s.Connected n) : LeavesAlone s n o := by
  obtain ⟨c, hc, rfl⟩ := Option.map_eq_some_iff.mp h
  split
  · next hconnected =>
    have hne : k ≠ n := by
      rintro rfl
      exact hk rfl ⟨c, hc, hconnected⟩
    exact (onConnection s hne _).andThen ⟨rfl, rfl⟩
  · exact ⟨rfl, rfl⟩

theorem resume (h : s.resume = some o) (htouch : ¬(Action.resume (κ := κ)).Touches s n) :
    LeavesAlone s n o := by
  unfold Server.resume at h
  unfold Action.Touches at htouch
  split at h
  · cases h
  · next call calls hcalls =>
    rw [hcalls] at htouch
    cases h
    cases call with
    | updating left handled =>
      exact (dispatch left handled { s with calls := calls }).of_connections s rfl
    | sweeping m exclude k rest dead =>
      have hrest : n ∈ s.reached rest → exclude = some n := fun hn =>
        by_contra fun hne => htouch ⟨hn, hne⟩
      exact (sweep m exclude rest _ { s with calls := calls } hrest).of_connections s rfl
    | reporting k => exact ⟨rfl, rfl⟩

variable [Kind κ]

/-- **Isolation of a step.**  A connection that is connected and not touched is left alone by every step
that is not its own, whatever this does to the server and to the other connections. -/
theorem step {a : Action κ} (hstep : s.step a = some o) (hconnected : s.Connected n)
    (htouch : ¬a.Touches s n) (hown : ∀ ca, a ≠ .connection n ca) : LeavesAlone s n o := by
  have hclosed : ¬s.Closed n := by
    obtain ⟨c, hc, hlive⟩ := hconnected
    exact not_closed_of_isConnected hc hlive
  cases a with
  | start host portNumber =>
    simp only [Server.step] at hstep
    split at hstep
    · split at hstep
      · next s' hstart =>
        cases hstep
        unfold Server.start at hstart
        split at hstart
        · cases hstart
        · split at hstart
          · cases hstart
          · split at hstart
            · cases hstart
            · cases hstart
              exact ⟨rfl, rfl⟩
      · cases hstep
        exact refl s n
    · cases hstep
  | stop =>
    simp only [Server.step] at hstep
    split at hstep
    · cases hstep
      unfold Server.stop
      split
      · next hattended => exact absurd ⟨hattended, hconnected⟩ htouch
      · exact refl s n
    · cases hstep
  | accept deeds approved =>
    simp only [Server.step] at hstep
    split at hstep
    · cases hstep
      obtain ⟨c, hc, -⟩ := hconnected
      exact accept (List.getElem?_eq_some_iff.mp hc).1 (fun hmem => htouch ⟨hmem, hclosed⟩) approved
    · cases hstep
  | connection k ca =>
    have hne : k ≠ n := fun hkn => hown ca (by rw [hkn])
    simp only [Server.step] at hstep
    split at hstep
    · cases hstep
    · obtain ⟨c, -, hc⟩ := Option.bind_eq_some_iff.mp hstep
      obtain ⟨o', -, rfl⟩ := Option.map_eq_some_iff.mp hc
      exact absorb s hne o'
  | messageClient k m =>
    exact messageClient hstep fun hkn hlive => htouch ⟨hkn, hlive⟩
  | broadcast m exclude =>
    cases hstep
    exact sweep m exclude _ [] s fun hn => by_contra fun hne => htouch ⟨hn, hne⟩
  | update limit wait =>
    simp only [Server.step, update] at hstep
    split at hstep
    · cases hstep
    · cases hstep
      exact dispatch _ 0 s
  | resume => exact resume hstep htouch
  | inject l => cases hstep; exact ⟨rfl, rfl⟩
  | take =>
    obtain ⟨p, -, rfl⟩ := Option.map_eq_some_iff.mp hstep
    exact ⟨rfl, rfl⟩

end LeavesAlone

/-! ### Steps of a connection that is spared -/

variable [Kind κ]

/-- What a step of the server that does not touch a connection is to this connection: as long as it is
not closed, only its own tasks and the other end of its link do anything. -/
theorem onward_of_not_touches (hs : Regular s) {a : Action κ} (hstep : s.step a = some o)
    (htouch : ¬a.Touches s n) {c : Connection κ} (hc : s.connections[n]? = some c) :
    ∃ as c', o.1.connections[n]? = some c' ∧ c.run as = some (c', eventsOf n o.2) ∧
      Connection.arrivals as = a.brings n ∧
      (c.phase = .closed ∨ ∀ ca ∈ as, ca.isOwners = false ∧ ca.isDeed = false) := by
  by_cases hclosed : c.phase = .closed
  · obtain ⟨as, c', hc', hrun, harr⟩ := Onward.step hs hstep n c hc
    exact ⟨as, c', hc', hrun, harr, .inl hclosed⟩
  have hconnected : s.Connected n := by
    by_contra hnot
    obtain ⟨d, hd, hdclosed⟩ := hs.closed_of_not_isConnected hc fun hlive => hnot ⟨c, hc, hlive⟩
    obtain rfl : c = d := Option.some.inj (hc.symm.trans hd)
    exact hclosed hdclosed
  by_cases hown : ∀ ca, a ≠ .connection n ca
  · obtain ⟨hsame, hquiet⟩ := LeavesAlone.step hstep hconnected htouch hown
    refine ⟨[], c, hsame.trans hc, by rw [hquiet]; rfl, ?_, .inr nofun⟩
    cases a with
    | connection k ca => exact (if_neg fun hnk => hown ca (by rw [hnk])).symm
    | _ => rfl
  · obtain ⟨ca, hca⟩ := not_forall.mp hown
    obtain rfl := not_not.mp hca
    simp only [step] at hstep
    split at hstep
    · cases hstep
    · next howners =>
      rw [hc] at hstep
      obtain ⟨o', hca, rfl⟩ := Option.map_eq_some_iff.mp hstep
      have hdeed : ca.isDeed = false := by
        cases ca <;> first | rfl | exact absurd ⟨rfl, hconnected⟩ htouch
      refine ⟨[ca], o'.1, ?_, ?_, ?_, .inr fun b hb => ?_⟩
      · rw [absorb_eq]
        exact List.getElem?_set_self (List.getElem?_eq_some_iff.mp hc).1
      · rw [absorb_eq, eventsOf_connection, if_pos rfl]
        exact Run.all_cons_eq_some_iff.mpr ⟨o'.1, o'.2, [], hca, rfl, (List.append_nil _).symm⟩
      · rw [Connection.arrivals_singleton]
        exact (if_pos rfl).symm
      · obtain rfl := List.mem_singleton.mp hb
        exact ⟨Bool.eq_false_iff.mpr howners, hdeed⟩

/-! ### Connections that are spared -/

/-- Along a run nobody touches connection `n` as long as it is not closed. -/
def Spared (n : Nat) : Server κ → List (Action κ) → Prop
  | _, [] => True
  | s, a :: as => ¬a.Touches s n ∧ ∀ o ∈ s.step a, Spared n o.1 as

instance Spared.decidable (n : Nat) :
    (s : Server κ) → (as : List (Action κ)) → Decidable (Spared n s as)
  | _, [] => .isTrue trivial
  | s, a :: as =>
    have := fun o : Outcome κ => Spared.decidable n o.1 as
    inferInstanceAs (Decidable (¬a.Touches s n ∧ ∀ o ∈ s.step a, Spared n o.1 as))

theorem Spared.not_touches {s₀ : Server κ} {pre post : List (Action κ)} {a : Action κ}
    {es : List (Event κ)} (h : Spared n s₀ (pre ++ a :: post)) (hpre : s₀.run pre = some (s, es)) :
    ¬a.Touches s n := by
  induction pre generalizing s₀ es with
  | nil =>
    cases hpre
    exact h.1
  | cons b pre ih =>
    obtain ⟨s', es₁, es₂, hstep, hrest, -⟩ := Run.all_cons_eq_some_iff.mp hpre
    exact ih (h.2 _ hstep) hrest

/-- A new connection is registered and begins, or it is closed; it is calm either way. -/
theorem calm_enrol {limit : Nat} {ch : Challenge} (hn : s.connections[n]? = some (.accepted limit ch))
    (approved : Bool) (o : Outcome κ) (ho : o = if approved then s.enrol n else s.reject n) :
    ∃ c, o.1.connections[n]? = some c ∧ Connection.Calm c [] (eventsOf n o.2) := by
  have haway : ∀ t : Server κ, t.connections = s.connections →
      ∃ c, (t.reject n).1.connections[n]? = some c ∧
        Connection.Calm c [] (eventsOf n (t.reject n).2) := by
    intro t ht
    have hn' : ({ t with metrics := t.metrics.record .rejected } : Server κ).connections[n]? =
        some (.accepted limit ch) := (congrArg (·[n]?) ht).trans hn
    obtain ⟨hclosed, hevents⟩ := onConnection_self hn' Connection.close
    refine ⟨_, hclosed, ?_⟩
    have hquiet : eventsOf n (t.reject n).2 = (Connection.accepted (κ := κ) limit ch).close.2 := hevents
    rw [hquiet]
    exact .turnedAway limit ch
  subst ho
  cases approved with
  | false => exact haway s rfl
  | true =>
    simp only [↓reduceIte, enrol]
    split
    · have hn' : ({ s with
            nextId := s.nextId + 1
            registry := s.registry.insert s.nextId.toUInt32 n } : Server κ).connections[n]? =
          some (.accepted limit ch) := hn
      obtain ⟨hbegun, hevents⟩ := onConnection_self hn' fun c => (c.approve s.nextId.toUInt32, [])
      refine ⟨_, hbegun, ?_⟩
      rw [show eventsOf n (_ :: _) = _ from (List.filterMap_cons_none rfl).trans hevents]
      exact .approved limit ch s.nextId.toUInt32
    · exact haway { s with nextId := s.nextId + 1 } rfl

/-- A connection that was just accepted is calm, unless the hook it was shown to does something with
it. -/
theorem calm_accept {deeds : List (Nat × Connection.Deed κ)}
    (hdeeds : s.connections.length ∉ deeds.map (·.1)) (approved : Bool) :
    ∃ c ces, (s.accept deeds approved).1.connections[s.connections.length]? = some c ∧
      eventsOf s.connections.length (s.accept deeds approved).2 = .established :: ces ∧
      Connection.Calm c [] ces := by
  have hnew : s.appear.1.connections[s.connections.length]? =
      some (.accepted s.limit (s.source.challenge s.connections.length)) := by
    simp [appear]
  obtain ⟨hsame, hquiet⟩ := LeavesAlone.performAll hdeeds s.appear.1
  obtain ⟨c, hc, hcalm⟩ := calm_enrol (hsame.trans hnew) approved _ rfl
  rw [accept_eq]
  refine ⟨c, _, hc, ?_, hcalm⟩
  have hborn := eventsOf_connection (κ := κ) s.connections.length s.connections.length [.established]
  rw [if_pos rfl] at hborn
  refine (eventsOf_append _ _ _).trans ?_
  rw [show eventsOf s.connections.length s.appear.2 = _ from hborn]
  refine congrArg (List.cons .established) ((eventsOf_append _ _ _).trans ?_)
  rw [hquiet, List.nil_append]

/-- **A connection that is spared is calm**, from the moment it was accepted. -/
theorem calm_run {settings : ServerSettings} {transport : TransportSettings} {entropy : Source}
    {as : List (Action κ)} {es : List (Event κ)}
    (hrun : (create settings transport entropy).run as = some (s, es))
    (hspared : Spared n (create settings transport entropy) as) {c : Connection κ}
    (hc : s.connections[n]? = some c) :
    ∃ ces, eventsOf n es = .established :: ces ∧ Connection.Calm c (arrivalsAt n as) ces := by
  refine Run.all_history (I := fun s as es => ∀ c, s.connections[n]? = some c →
    ∃ ces, eventsOf n es = .established :: ces ∧ Connection.Calm c (arrivalsAt n as) ces)
    ?_ ?_ hrun c hc
  · intro c hc
    exact absurd (List.getElem?_eq_some_iff.mp hc).1 (Nat.not_lt_zero n)
  rintro pre a post s₁ es₁ s₂ es₂ has hpre hstep ih c₂ hc₂
  have hregular := (Regular.create settings transport entropy).run hpre
  have htouch := (has ▸ hspared).not_touches hpre
  rw [eventsOf_append, arrivalsAt_append, arrivalsAt_singleton]
  by_cases hlt : n < s₁.connections.length
  · have hc₁ := List.getElem?_eq_getElem hlt
    obtain ⟨ces, hces, hcalm⟩ := ih _ hc₁
    obtain ⟨ces', hces', hsound, hasks⟩ := (ran_run hpre).sound hc₁
    obtain rfl : ces = ces' := (List.cons.inj (hces.symm.trans hces')).2
    obtain ⟨cas, c', hc', hcrun, harr, hcas⟩ := onward_of_not_touches hregular hstep htouch hc₁
    obtain rfl : c' = c₂ := Option.some.inj (hc'.symm.trans hc₂)
    refine ⟨ces ++ eventsOf n es₂, by rw [hces]; rfl, ?_⟩
    rw [← harr]
    exact hcalm.run hsound hasks.side_eq hcas hcrun
  · -- It was not there before, so it is the one that is accepted.
    obtain ⟨hsilent, hblank⟩ := (ran_run hpre).blank n (Nat.le_of_not_lt hlt)
    have hlt₂ := (List.getElem?_eq_some_iff.mp hc₂).1
    obtain ⟨deeds, approved, rfl⟩ : ∃ deeds approved, a = .accept deeds approved := by
      by_contra hnot
      have hquiet : a.isAccept = false := by
        cases a <;> first | rfl | exact absurd ⟨_, _, rfl⟩ hnot
      have hlength := (unnumbered_step hstep hquiet).1
      exact hlt (hlength ▸ hlt₂)
    simp only [step] at hstep
    split at hstep
    · obtain ⟨rfl, rfl⟩ : (s₁.accept deeds approved).1 = s₂ ∧ (s₁.accept deeds approved).2 = es₂ := by
        cases hstep
        exact ⟨rfl, rfl⟩
      have hlast : n = s₁.connections.length := by
        have hlength : (s₁.accept deeds approved).1.connections.length = s₁.connections.length + 1 := by
          cases accepted_accept s₁ deeds approved with
          | given _ _ hlength => exact hlength
          | refused _ hlength => exact hlength
        omega
      have hfresh : ¬s₁.Closed n := by
        rintro ⟨c, hc, -⟩
        exact hlt (List.getElem?_eq_some_iff.mp hc).1
      have hdeeds : s₁.connections.length ∉ deeds.map (·.1) := fun hmem =>
        htouch ⟨hlast ▸ hmem, hfresh⟩
      obtain ⟨c₁, ces, hc₁, hces, hcalm⟩ := calm_accept hdeeds approved
      subst hlast
      obtain rfl : c₁ = c₂ := Option.some.inj (hc₁.symm.trans hc₂)
      refine ⟨ces, by rw [hblank, hces]; rfl, ?_⟩
      rw [hsilent]
      exact hcalm
    · cases hstep

end Parley.Server
