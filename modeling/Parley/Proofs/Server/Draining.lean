import Parley.Proofs.Server.Updating

/-!
# Parley.Proofs.Server.Draining — letters and whom they came from

A letter in the inbound queue came in on the connection that its id stands for, if this is registered
or set aside (`Core.addressed`).  Setting connections aside changes nothing about that, and they are
not forgotten before the queue is empty.  So, as long as nobody is registered and nothing is read, letters
are taken off the queue with the senders they had from the start (`Drained`); and an update that has
returned has taken off as many as it might, or all (`drained_update`), which it does with any handler
that comes back (`update_returns`).
-/

namespace Parley.Server

variable {κ : Type} {s s' s'' : Server κ} {es es' : List (Event κ)}

/-- The letters that wait, each with the connection it came in on, as far as that is known. -/
def Core.addressed (v : Core κ) : List (Option Nat × Message κ) :=
  v.inbound.toList.map fun l => (v.senderOf l, l.message)

/-- The letters that waited are those that were taken off the queue and behind them those that wait
now, with the same senders. -/
def Drained (s s' : Server κ) (es : List (Event κ)) : Prop :=
  popped es ++ s'.core.addressed = s.core.addressed

/-- The first letter is followed by the others. -/
theorem addressed_of_popFront? {l : Letter κ} {rest : Deque (Letter κ)}
    (hpop : s.inbound.popFront? = some (l, rest)) :
    s.core.addressed =
      (s.core.senderOf l, l.message) :: Core.addressed { s.core with inbound := rest } := by
  have hqueue : s.core.inbound.toList = l :: rest.toList := Deque.toList_of_popFront? hpop
  rw [Core.addressed, hqueue]
  rfl

theorem addressed_of_nil (h : s.inbound.toList = []) : s.core.addressed = [] := by
  rw [Core.addressed, show s.core.inbound.toList = [] from h]
  rfl

namespace Drained

theorem refl (s : Server κ) : Drained s s [] := rfl

theorem trans (h : Drained s s' es) (h' : Drained s' s'' es') : Drained s s'' (es ++ es') := by
  unfold Drained at *
  rw [popped_append, List.append_assoc, h', h]

/-- Nothing is taken off. -/
theorem still {v : Core κ} (hcore : s'.core = v) (hsame : v.addressed = s.core.addressed)
    (hpopped : popped es = []) : Drained s s' es := by
  unfold Drained
  rw [hpopped, hcore, hsame]
  rfl

/-- The first letter is taken off. -/
theorem pop {l : Letter κ} {rest : Deque (Letter κ)}
    (hpop : s.inbound.popFront? = some (l, rest))
    (hcore : s'.core = { s.core with inbound := rest })
    (hpopped : popped es = [(s.core.senderOf l, l.message)]) : Drained s s' es := by
  unfold Drained
  rw [hpopped, hcore, addressed_of_popFront? hpop]
  rfl

/-- A connection makes a step and reads nothing. -/
theorem absorb (s : Server κ) (n : Nat) (o : Connection.Outcome κ)
    (hquiet : arrived (s.absorb n o).2 = []) : Drained s (s.absorb n o).1 (s.absorb n o).2 := by
  rw [absorb_eq] at hquiet ⊢
  have hnone : Connection.received o.2 = [] :=
    List.map_eq_nil_iff.mp ((arrived_connection n o.2).symm.trans hquiet)
  refine still rfl ?_ (popped_connection n o.2)
  rw [hnone]
  rfl

variable [Kind κ] {b b' : Bool} {br : Nat → List UInt8}

theorem act (h : Act s b br s' b' es) (hquiet : arrived es = []) (hnobody : registrations es = []) :
    Drained s s' es := by
  cases h with
  | connection hn ha hstep => exact absorb s _ _ hquiet
  | approve hn hentry hstep => exact absorb s _ _ hquiet
  | abort hcore => exact still hcore rfl rfl
  | appear hcore => exact still hcore rfl rfl
  | register hn hroom hcore => cases hnobody
  | turnAway hnext hcore => exact still hcore rfl rfl
  | deliver hpop hsender hcore =>
    refine pop hpop hcore ?_
    rw [hsender]
    rfl
  | drop hpop hsender hcore =>
    refine pop hpop hcore ?_
    rw [hsender]
    rfl
  | @prune _ _ ids hids hcore =>
    refine still hcore (List.map_congr_left fun l _ => congrArg (·, l.message) ?_) rfl
    exact congrArg l.origin.bind (funext fun id => Registry.find?_or_move ids id)
  | forget hempty hcore =>
    have hnil := (Deque.isEmpty_iff s.inbound).mp hempty
    refine still hcore ?_ rfl
    rw [addressed_of_nil hnil, Core.addressed, show s.core.inbound.toList = [] from hnil]
    rfl
  | aside hcalls hcore hes => exact still hcore rfl (popped_aside hes)

theorem acts (h : Acts s b br s' b' es) (hquiet : arrived es = [])
    (hnobody : registrations es = []) : Drained s s' es := by
  induction h with
  | refl => exact refl s
  | tail h hact ih =>
    rw [arrived_append, List.append_eq_nil_iff] at hquiet
    rw [registrations_append, List.append_eq_nil_iff] at hnobody
    exact (ih hquiet.1 hnobody.1).trans (act hact hquiet.2 hnobody.2)

/-- As long as nothing is read and nobody registered, and the application leaves the queue to
updates. -/
theorem run {as : List (Action κ)} (hs : Regular s) (hown : ∀ a ∈ as, a.isTampering = false)
    (hrun : s.run as = some (s', es)) (hquiet : arrived es = []) (hnobody : registrations es = []) :
    Drained s s' es := by
  refine Run.all_history (I := fun t _ es => arrived es = [] → registrations es = [] →
    Drained s t es) (fun _ _ => refl s) ?_ hrun hquiet hnobody
  rintro pre a post s₁ es₁ s₂ es₂ rfl hpre hstep ih hquiet hnobody
  rw [arrived_append, List.append_eq_nil_iff] at hquiet
  rw [registrations_append, List.append_eq_nil_iff] at hnobody
  have hacts := acts_of_step (hs.run hpre) (hown a (by simp)) hstep
  exact (ih hquiet.1 hnobody.1).trans (acts hacts hquiet.2 hnobody.2)

end Drained

/-! ### Updates -/

section Updates

variable [Kind κ] {s₁ s₂ : Server κ} {es₁ es₂ : List (Event κ)} {body : List (Action κ)}

/-- What a call takes off the queue is taken off the queue. -/
theorem ownPopsAlong_le (h : Nat) (hrun : s.run body = some (s', es)) :
    s.ownPopsAlong h body ≤ (popped es).length := by
  induction body generalizing s es with
  | nil => exact Nat.zero_le _
  | cons a body ih =>
    obtain ⟨t, es₁, es₂, hstep, hrest, rfl⟩ := Run.all_cons_eq_some_iff.mp hrun
    simp only [ownPopsAlong, hstep]
    rw [popped_append, List.length_append]
    refine Nat.add_le_add ?_ (ih hrest)
    unfold ownPops
    split
    · exact Nat.le_refl _
    · exact Nat.zero_le _

/-- An update that has returned has taken off as many letters as it might, or all there were, whatever
the handler did meanwhile. -/
theorem drained_update {limit : Option Nat} {wait : Bool}
    (hstep : s.step (.update limit wait) = some (s₁, es₁)) (hbody : s₁.run body = some (s₂, es₂))
    (hwaits : s₁.Waits s.calls.length body) (hreturned : s₂.calls.length ≤ s.calls.length)
    (hdrained : Drained s s₂ (es₁ ++ es₂)) :
    s.core.addressed.take (limit.getD Message.addressMax) <+: popped (es₁ ++ es₂) := by
  have hfirst : Updating s.calls _ (popped es₁).length s₁ es₁ := updating_update hstep
  have hle : (popped es₁).length + s₁.ownPopsAlong s.calls.length body ≤
      (popped (es₁ ++ es₂)).length := by
    rw [popped_append, List.length_append]
    exact Nat.add_le_add_left (ownPopsAlong_le _ hbody) _
  cases hfirst.run hwaits hbody with
  | waits hcalls =>
    rw [hcalls, List.length_append, List.length_cons] at hreturned
    omega
  | returned _ _ _ hwhy =>
    rcases hwhy with hfull | hempty
    · rw [← hdrained, List.take_append_of_le_length (hfull ▸ hle)]
      exact List.take_prefix _ _
    · rw [← hdrained, addressed_of_nil hempty, List.append_nil]
      exact List.take_prefix _ _

/-- Dispatching comes to an end, if the handler does each time it is told of a message. -/
theorem dispatch_returns (left handled : Nat) (s : Server κ) :
    ∃ k t es, (dispatch left handled s).1.run (List.replicate k .resume) = some (t, es) ∧
      t.calls = s.calls ∧
      popped ((dispatch left handled s).2 ++ es) = s.core.addressed.take left := by
  induction left generalizing s handled with
  | zero => exact ⟨0, _, [], rfl, rfl, rfl⟩
  | succ left ih =>
    unfold dispatch
    split
    · next hnone =>
      refine ⟨0, _, [], rfl, rfl, ?_⟩
      rw [addressed_of_nil ((Deque.popFront?_eq_none_iff _).mp hnone)]
      rfl
    · next l rest hpop =>
      rw [addressed_of_popFront? hpop, List.take_succ_cons]
      obtain ⟨k, t, es, hrun, hcalls, hpopped⟩ := ih (handled + 1) { s with inbound := rest }
      dsimp only
      split
      · next n hsender =>
        -- the handler is told of the letter, and the update goes on when it is done
        refine ⟨k + 1, t, (dispatch left (handled + 1) { s with inbound := rest }).2 ++ es, ?_,
          hcalls, ?_⟩
        · exact Run.all_cons_eq_some_iff.mpr ⟨_, _, _, rfl, hrun, rfl⟩
        · rw [show s.core.senderOf l = some n from hsender]
          exact congrArg ((some n, l.message) :: ·) hpopped
      · next hsender =>
        refine ⟨k, t, es, hrun, hcalls, ?_⟩
        rw [show s.core.senderOf l = none from hsender]
        exact congrArg ((none, l.message) :: ·) hpopped

/-- An update takes off as many letters as it may, or all there are, and returns. -/
theorem update_returns (s : Server κ) (limit : Option Nat) :
    ∃ k t es, s.run (.update limit false :: List.replicate k .resume) = some (t, es) ∧
      t.calls = s.calls ∧
      popped es = s.core.addressed.take (limit.getD Message.addressMax) := by
  obtain ⟨k, t, es, hrun, hcalls, hpopped⟩ :=
    dispatch_returns (limit.getD Message.addressMax) 0 s
  exact ⟨k, t, _, Run.all_cons_eq_some_iff.mpr ⟨_, _, _, rfl, hrun, rfl⟩, hcalls, hpopped⟩

end Updates

end Parley.Server
