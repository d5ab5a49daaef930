import Parley.Proofs.Server.Acts

/-!
# Parley.Proofs.Server.Operations — every step of a server is a chain of acts

The operations of a server are taken apart into acts, one after the other, and so is every step that
leaves the inbound queue to the server (`acts_of_step`).  What every act keeps, every run keeps.
-/

namespace Parley.Server

variable {κ : Type}

/-! ### Accepting in pieces -/

/-- The deeds among those of a hook that concern connection `n`. -/
def deedsOn (n : Nat) (deeds : List (Nat × Connection.Deed κ)) : List (Connection.Deed κ) :=
  (deeds.filter (·.1 = n)).map (·.2)

theorem length_performAll (s : Server κ) (deeds : List (Nat × Connection.Deed κ)) :
    (performAll deeds s).1.connections.length = s.connections.length := by
  induction deeds generalizing s with
  | nil => rfl
  | cons d deeds ih =>
    refine (ih _).trans ?_
    unfold onConnection
    split
    · rfl
    · rw [absorb_eq]
      exact List.length_set

theorem nextId_performAll (s : Server κ) (deeds : List (Nat × Connection.Deed κ)) :
    (performAll deeds s).1.nextId = s.nextId := by
  induction deeds generalizing s with
  | nil => rfl
  | cons d deeds ih =>
    refine (ih _).trans ?_
    unfold onConnection
    split
    · rfl
    · rw [absorb_eq]

/-- The server with one connection more. -/
def appear (s : Server κ) : Outcome κ :=
  ({ s with
      connections := s.connections ++
        [Connection.accepted s.limit (s.source.challenge s.connections.length)]
      metrics := s.metrics.record .established },
    [.connection s.connections.length .established])

theorem accept_eq (s : Server κ) (deeds : List (Nat × Connection.Deed κ)) (approved : Bool) :
    s.accept deeds approved =
      s.appear.andThen fun s₁ => (s₁.performAll deeds).andThen fun s₂ =>
        if approved then s₂.enrol s.connections.length else s₂.reject s.connections.length := by
  have happear : absorb
      { s with
        connections := s.connections ++
          [Connection.accepted s.limit (s.source.challenge s.connections.length)] }
      s.connections.length
      (Connection.accepted s.limit (s.source.challenge s.connections.length), [.established]) =
      s.appear := by
    rw [absorb_eq]
    simp [appear, Metrics.recordAll, Connection.Event.entry?]
    rfl
  unfold accept
  dsimp only
  rw [happear]

variable [Kind κ]

/-! ### The operations of a server -/

section Operations

variable (s : Server κ) (b : Bool)

/-- A step of a connection that brings nothing in. -/
theorem acts_onConnection (n : Nat) (f : Connection κ → Connection.Outcome κ)
    (a : Connection.Action κ) (howners : a.isOwners = false) (ha : a.brings = [])
    (hf : ∀ c, c.step a = some (f c)) :
    Acts s b (fun _ => []) (s.onConnection n f).1 b (s.onConnection n f).2 := by
  unfold onConnection
  split
  · exact .refl
  · next c hn =>
    have hact := Acts.single (Act.connection (b := b) hn howners (hf c))
    simpa only [ha, ite_self] using hact

theorem acts_disconnectAll (ns : List Nat) :
    Acts s b (fun _ => []) (disconnectAll ns s).1 b (disconnectAll ns s).2 := by
  induction ns generalizing s with
  | nil => exact .refl
  | cons n ns ih =>
    have hclose := acts_onConnection s b n Connection.close (.perform .application .disconnect) rfl
      rfl fun c => rfl
    exact hclose.andThen (ih _)

theorem acts_stop : Acts s b (fun _ => []) s.stop.1 b s.stop.2 := by
  unfold stop
  split
  · have habort : Acts s b (fun _ => [])
        { s with attended := false, connections := s.connections.map Connection.abort } b [] :=
      .single (.abort rfl)
    have hclose := habort.andThen (acts_disconnectAll _ b s.registry.numbers)
    rw [List.nil_append] at hclose
    exact hclose.andThen (.aside rfl nofun)
  · exact .refl

theorem acts_performAll (deeds : List (Nat × Connection.Deed κ)) :
    Acts s b (fun _ => []) (performAll deeds s).1 b (performAll deeds s).2 := by
  induction deeds generalizing s with
  | nil => exact .refl
  | cons d deeds ih =>
    obtain ⟨n, deed⟩ := d
    have hdeed := acts_onConnection s b n (fun c => c.perform .reactor deed)
      (.perform .reactor deed) rfl rfl fun c => rfl
    exact hdeed.andThen (ih _)

theorem acts_prune {ids : List UInt32} (hids : ∀ id ∈ ids, s.HasClosed id) :
    Acts s b (fun _ => []) (s.prune ids) b [] := .single (.prune hids rfl)

theorem acts_endUpdate (handled : Nat) :
    Acts s b (fun _ => []) (s.endUpdate handled).1 b (s.endUpdate handled).2 := by
  unfold endUpdate
  have hreturned : ∀ e ∈ [Event.returned (κ := κ) (some handled)], e.isAside = true := by
    simp [Event.isAside]
  by_cases hempty : s.inbound.isEmpty = true
  · rw [if_pos hempty]
    have hforget : Acts s b (fun _ => []) { s with retired := .empty } b [] :=
      .single (.forget hempty rfl)
    exact hforget.andThen (.aside rfl hreturned)
  · rw [if_neg hempty]
    exact .aside rfl hreturned

theorem acts_dispatch (left handled : Nat) :
    Acts s b (fun _ => []) (dispatch left handled s).1 b (dispatch left handled s).2 := by
  induction left generalizing s handled with
  | zero => exact acts_endUpdate s b handled
  | succ left ih =>
    unfold dispatch
    split
    · exact acts_endUpdate s b handled
    · next l rest hpop =>
      dsimp only
      split
      · next n hsender =>
        have hdeliver : Acts s b (fun _ => []) { s with inbound := rest } b
            [.delivered n l.message] := .single (.deliver hpop hsender rfl)
        exact hdeliver.andThen (.wait trivial nofun)
      · next hsender =>
        have hdrop : Acts s b (fun _ => []) { s with inbound := rest } b [.dropped l] :=
          .single (.drop hpop hsender rfl)
        exact hdrop.andThen (ih _ _)

variable {s}

theorem acts_sweep (hs : Regular s) (m : Message κ) (exclude : Option Nat) (ns : List Nat)
    {dead : List UInt32} (hdead : ∀ id ∈ dead, s.HasClosed id) :
    Acts s b (fun _ => []) (sweep m exclude ns dead s).1 b (sweep m exclude ns dead s).2 := by
  induction ns generalizing s with
  | nil =>
    have hpruned := acts_prune s b hdead
    exact hpruned.andThen (.aside rfl (by simp [Event.isAside]))
  | cons n ns ih =>
    unfold sweep
    split
    · exact ih hs hdead
    · next c hn =>
      split
      · split
        · exact ih hs hdead
        · have hsent := acts_onConnection s b n (fun c => (c.send .application m, []))
            (.perform .application (.send m)) rfl rfl fun c => rfl
          exact hsent.andThen (ih (hs.acts hsent) fun id hid => (hdead id hid).acts hsent)
      · next hclosed =>
        exact .wait ⟨hs.closed_of_not_isConnected hn hclosed, hdead⟩ (by simp [Event.isAside])

theorem acts_messageClient (hs : Regular s) {n : Nat} {m : Message κ} {o : Outcome κ}
    (h : s.messageClient n m = some o) : Acts s b (fun _ => []) o.1 b o.2 := by
  obtain ⟨c, hn, rfl⟩ := Option.map_eq_some_iff.mp h
  split
  · have hsent := acts_onConnection s b n (fun c => (c.send .application m, []))
      (.perform .application (.send m)) rfl rfl fun c => rfl
    exact hsent.andThen (.aside rfl (by simp [Event.isAside]))
  · next hclosed =>
    have hcovers : s.Covers (.reporting n) := hs.closed_of_not_isConnected hn hclosed
    exact .wait hcovers (by simp [Event.isAside])

theorem acts_resume (hs : Regular s) {o : Outcome κ} (h : s.resume = some o) :
    Acts s b (fun _ => []) o.1 b o.2 := by
  unfold resume at h
  split at h
  · cases h
  · next call calls hcalls =>
    have hcall : Acts s b (fun _ => []) { s with calls := calls } b [] := by
      refine .single (.aside (fun c hc => .inl ?_) rfl nofun)
      rw [hcalls]
      exact List.mem_cons_of_mem _ hc
    have hcovers : s.Covers call := hs.calls call (by rw [hcalls]; exact List.mem_cons_self)
    have hs' := hs.acts hcall
    cases h
    cases call with
    | updating left handled => exact hcall.andThen (acts_dispatch _ b left handled)
    | sweeping m exclude n rest dead =>
      obtain ⟨hclosed, hdead⟩ := hcovers
      refine hcall.andThen (acts_sweep b hs' m exclude rest fun id hid => ?_)
      rcases List.mem_append.mp hid with hid | hid
      · exact hdead id hid
      · exact hasClosed_of_mem (s := { s with calls := calls }) hclosed hid
    | reporting n =>
      have hids : ∀ id ∈ (s.connections[n]?.map (·.id)).toList,
          HasClosed { s with calls := calls } id := fun id hid =>
        hasClosed_of_mem (s := { s with calls := calls }) hcovers hid
      have hpruned := hcall.andThen (acts_prune _ b hids)
      exact hpruned.andThen (.aside rfl (by simp [Event.isAside]))

end Operations

/-! ### Accepting -/

/-- What a hook does with many connections is, to each of them, what it does with this one. -/
theorem performAll_run {s : Server κ} {n : Nat} {c : Connection κ}
    (deeds : List (Nat × Connection.Deed κ)) (hn : s.connections[n]? = some c) :
    ∃ c' es, (performAll deeds s).1.connections[n]? = some c' ∧
      c.run ((deedsOn n deeds).map (.perform .reactor)) = some (c', es) := by
  induction deeds generalizing s c with
  | nil => exact ⟨c, [], hn, rfl⟩
  | cons d deeds ih =>
    obtain ⟨k, deed⟩ := d
    have hlt : n < s.connections.length := (List.getElem?_eq_some_iff.mp hn).1
    by_cases hk : k = n
    · subst hk
      have hfirst : (s.onConnection k fun c => c.perform .reactor deed).1.connections[k]? =
          some (c.perform .reactor deed).1 := by
        simp only [onConnection, hn, absorb_eq]
        exact List.getElem?_set_self hlt
      obtain ⟨c', es, hn', hrun⟩ := ih hfirst
      refine ⟨c', (c.perform .reactor deed).2 ++ es, hn', ?_⟩
      have hdeeds : deedsOn k ((k, deed) :: deeds) = deed :: deedsOn k deeds := by
        simp [deedsOn]
      rw [hdeeds]
      exact Run.all_cons_eq_some_iff.mpr ⟨_, _, es, rfl, hrun, rfl⟩
    · have hfirst : (s.onConnection k fun c => c.perform .reactor deed).1.connections[n]? =
          some c := by
        unfold onConnection
        split
        · exact hn
        · rw [absorb_eq]
          show (s.connections.set k _)[n]? = some c
          rw [List.getElem?_set_ne hk]
          exact hn
      obtain ⟨c', es, hn', hrun⟩ := ih hfirst
      refine ⟨c', es, hn', ?_⟩
      have hdeeds : deedsOn n ((k, deed) :: deeds) = deedsOn n deeds := by
        simp [deedsOn, hk]
      rw [hdeeds]
      exact hrun

/-- The connection is as it was accepted, but for what a hook may do with it. -/
theorem fresh_of_performs {limit : Nat} {ch : Challenge} {c : Connection κ}
    {es : List (Connection.Event κ)} {deeds : List (Connection.Deed κ)}
    (hrun : (Connection.accepted limit ch).run (deeds.map (.perform .reactor)) = some (c, es)) :
    c.side = .server ∧ c.stage = .absent ∧ c.attended = true := by
  refine Run.all_history
    (I := fun c _ _ => c.side = .server ∧ c.stage = .absent ∧ c.attended = true)
    ⟨rfl, rfl, rfl⟩ ?_ hrun
  intro pre a post c₁ es₁ c₂ es₂ has _ hstep h₁
  have hmem : a ∈ deeds.map (Connection.Action.perform Connection.Thread.reactor) := by
    rw [has]
    simp
  obtain ⟨deed, -, rfl⟩ := List.mem_map.mp hmem
  cases deed with
  | send m =>
    cases hstep
    unfold Connection.send
    split
    · exact h₁
    · exact h₁
  | disconnect =>
    have hclose : c₁.close = (c₂, es₂) := Option.some.inj hstep
    obtain rfl : c₁.close.1 = c₂ := congrArg Prod.fst hclose
    simpa using h₁

theorem acts_reject (s : Server κ) (b : Bool) (n : Nat) :
    Acts s b (fun _ => []) (s.reject n).1 b (s.reject n).2 := by
  have hrejected : Acts s b (fun _ => []) { s with metrics := s.metrics.record .rejected } b
      [.rejected n] := .aside rfl (by simp [Event.isAside])
  have hclose := acts_onConnection { s with metrics := s.metrics.record .rejected } b n
    Connection.close (.perform .application .disconnect) rfl rfl fun c => rfl
  exact hrejected.andThen hclose

/-- The connection being accepted is registered and begins, or it is turned away. -/
theorem acts_enrol {s : Server κ} {n : Nat} (hlast : n + 1 = s.connections.length)
    (hfresh : ∀ c, s.connections[n]? = some c →
      c.side = .server ∧ c.stage = .absent ∧ c.attended = true) :
    Acts s true (fun _ => []) (s.enrol n).1 false (s.enrol n).2 := by
  unfold enrol
  dsimp only
  split
  · next hroom =>
    have hregistered : Acts s true (fun _ => [])
        { s with
          nextId := s.nextId + 1
          registry := s.registry.insert s.nextId.toUInt32 n } false
        [.registered n s.nextId.toUInt32] := .single (.register hlast hroom rfl)
    refine hregistered.andThen ?_
    unfold onConnection
    split
    · exact .refl
    · next c hn =>
      refine .single (.approve hn (Registry.mem_insert_self _ _ _) ?_)
      show (if _ then _ else none) = _
      rw [if_pos (hfresh c hn)]
  · have haway : Acts s true (fun _ => []) { s with nextId := s.nextId + 1 } false [] :=
      .single (.turnAway (.inr rfl) rfl)
    exact haway.andThen (acts_reject _ false n)

theorem acts_accept (s : Server κ) (deeds : List (Nat × Connection.Deed κ)) (approved : Bool) :
    Acts s false (fun _ => []) (s.accept deeds approved).1 false (s.accept deeds approved).2 := by
  have happear : Acts s false (fun _ => []) s.appear.1 true s.appear.2 := .single (.appear rfl)
  have hnew : s.appear.1.connections[s.connections.length]? =
      some (Connection.accepted s.limit (s.source.challenge s.connections.length)) := by
    simp [appear]
  obtain ⟨c, es, hc, hrun⟩ := performAll_run deeds hnew
  rw [accept_eq]
  refine happear.andThen ((acts_performAll s.appear.1 true deeds).andThen ?_)
  cases approved with
  | true =>
    refine acts_enrol ?_ fun c' hc' => ?_
    · rw [length_performAll]
      simp [appear]
    · obtain rfl : c = c' := Option.some.inj (hc.symm.trans hc')
      exact fresh_of_performs hrun
  | false =>
    have haway : Acts (performAll deeds s.appear.1).1 true (fun _ => [])
        (performAll deeds s.appear.1).1 false [] := .single (.turnAway (.inl rfl) rfl)
    exact haway.andThen (acts_reject _ false s.connections.length)

/-- **Every step of a server is a chain of acts.** -/
theorem acts_of_step {s : Server κ} {a : Action κ} {o : Outcome κ} (hs : Regular s)
    (ha : a.isTampering = false) (h : s.step a = some o) : Acts s false a.brings o.1 false o.2 := by
  cases a with
  | start host portNumber =>
    simp only [step] at h
    split at h
    · split at h
      · next s' hstart =>
        cases h
        refine .aside ?_ (List.forall_mem_nil _)
        unfold start at hstart
        split at hstart
        · cases hstart
        · split at hstart
          · cases hstart
          · split at hstart
            · cases hstart
            · cases hstart; rfl
      · cases h; exact .refl
    · cases h
  | stop =>
    simp only [step] at h
    split at h
    · cases h; exact acts_stop s false
    · cases h
  | accept deeds approved =>
    simp only [step] at h
    split at h
    · cases h; exact acts_accept s deeds approved
    · cases h
  | connection n a =>
    simp only [step] at h
    split at h
    · cases h
    · next howners =>
      obtain ⟨c, hn, hc⟩ := Option.bind_eq_some_iff.mp h
      obtain ⟨o', hstep, rfl⟩ := Option.map_eq_some_iff.mp hc
      exact .single (.connection hn (Bool.eq_false_iff.mpr howners) hstep)
  | messageClient n m => exact acts_messageClient false hs h
  | broadcast m exclude =>
    cases h
    exact acts_sweep false hs m exclude _ (List.forall_mem_nil _)
  | update limit wait =>
    simp only [step, update] at h
    split at h
    · cases h
    · cases h; exact acts_dispatch s false _ 0
  | resume => exact acts_resume false hs h
  | inject l => cases ha
  | take => cases ha

end Parley.Server
