import Parley.Proofs.Server.Dispatch

/-!
# Parley.Proofs.Server.Mail — what goes through the inbound queue

A step puts letters at the back of the inbound queue or takes some off its front, and never does both
(`Posts`).  So in a whole run the letters that were put there (`mail`) hold the messages read and those
that the application put there itself (`pushed_run`), and what waits is the last of them, behind as many
as updates handled and the application took (`waiting_run`).
-/

namespace Parley.Server

variable {κ : Type} {s s' : Server κ} {b b' : Bool} {br : Nat → List UInt8} {es : List (Event κ)}

/-! ### Letters in and letters out -/

/-- The letters that a step put into the inbound queue, behind those that waited there. -/
def put (s s' : Server κ) : List (Letter κ) := s'.inbound.toList.drop s.inbound.toList.length

/-- The letters that were put into the inbound queue in a run. -/
def mail [Kind κ] : Server κ → List (Action κ) → List (Letter κ)
  | _, [] => []
  | s, a :: as =>
    match s.step a with
    | none => []
    | some o => s.put o.1 ++ mail o.1 as

/-- The messages the application puts into the inbound queue itself. -/
def Action.injected : Action κ → List (Message κ)
  | .inject l => [l.message]
  | _ => []

/-- The application takes a letter off the inbound queue itself. -/
def Action.isTake : Action κ → Bool
  | .take => true
  | _ => false

/-- The number of letters the application took off the inbound queue itself. -/
def takes (as : List (Action κ)) : Nat := as.countP Action.isTake

/-- A step that only takes letters off the queue puts none into it. -/
theorem put_of_suffix (h : s'.inbound.toList <:+ s.inbound.toList) : s.put s' = [] :=
  List.drop_eq_nil_of_le h.length_le

theorem put_of_append {ls : List (Letter κ)} (h : s'.inbound.toList = s.inbound.toList ++ ls) :
    s.put s' = ls := by
  rw [put, h, List.drop_left]

variable [Kind κ]

theorem mail_concat {s₀ : Server κ} {as : List (Action κ)} {a : Action κ} {o : Outcome κ}
    (hrun : s₀.run as = some (s, es)) (hstep : s.step a = some o) :
    s₀.mail (as ++ [a]) = s₀.mail as ++ s.put o.1 := by
  induction as generalizing s₀ es with
  | nil =>
    cases hrun
    simp [mail, hstep]
  | cons b as ih =>
    obtain ⟨s₁, es₁, es₂, hfirst, hrest, -⟩ := Run.all_cons_eq_some_iff.mp hrun
    simp only [List.cons_append, mail, hfirst]
    rw [ih hrest, List.append_assoc]

/-- Where nothing is read, nothing is queued. -/
theorem Acts.inbound_isSuffix (h : Acts s b br s' b' es) (hnone : arrived es = []) :
    s'.inbound.toList <:+ s.inbound.toList := by
  induction h with
  | refl => exact List.suffix_rfl
  | tail h hact ih =>
    rw [arrived_append] at hnone
    obtain ⟨hbefore, hlast⟩ := List.append_eq_nil_iff.mp hnone
    refine List.IsSuffix.trans ?_ (ih hbefore)
    have hread : ∀ (t : Server κ) (n : Nat) (o : Connection.Outcome κ), arrived (t.absorb n o).2 = [] →
        (t.absorb n o).1.inbound.toList <:+ t.inbound.toList := by
      intro t n o hnone
      rw [absorb_eq, arrived_connection, List.map_eq_nil_iff] at hnone
      rw [absorb_eq, hnone]
      exact List.suffix_rfl
    have hpop : ∀ {t t' : Server κ} {l : Letter κ} {rest : Deque (Letter κ)},
        t.inbound.popFront? = some (l, rest) → t'.core = { t.core with inbound := rest } →
          t'.inbound.toList <:+ t.inbound.toList := by
      intro t t' l rest hpop hcore
      rw [show t'.inbound = rest from congrArg Core.inbound hcore, Deque.toList_of_popFront? hpop]
      exact List.suffix_cons l _
    have hsame : ∀ {t t' : Server κ}, t'.core.inbound = t.core.inbound →
        t'.inbound.toList <:+ t.inbound.toList := by
      intro t t' heq
      rw [show t'.inbound = t.inbound from heq]
    cases hact with
    | connection => exact hread _ _ _ hlast
    | approve => exact hread _ _ _ hlast
    | deliver hp _ hcore => exact hpop hp hcore
    | drop hp _ hcore => exact hpop hp hcore
    | _ => exact hsame (by simp only [*])

/-! ### Steps -/

/-- The letters that are taken off the queue: those that updates handle, and those that the application
takes in between. -/
structure Removes (as : List (Action κ)) (es : List (Event κ)) (gone : List (Letter κ)) : Prop where
  length_eq : gone.length = (popped es).length + takes as
  handled : ((popped es).map (·.2)).Sublist (gone.map (·.message))

omit [Kind κ] in
theorem Removes.append {as bs : List (Action κ)} {fs : List (Event κ)} {gone more : List (Letter κ)}
    (h : Removes as es gone) (h' : Removes bs fs more) :
    Removes (as ++ bs) (es ++ fs) (gone ++ more) where
  length_eq := by
    rw [List.length_append, h.length_eq, h'.length_eq, popped_append, List.length_append, takes, takes,
      takes, List.countP_append]
    exact Nat.add_add_add_comm _ _ _ _
  handled := by
    rw [popped_append, List.map_append, List.map_append]
    exact h.handled.append h'.handled

/-- What a step does to the inbound queue. -/
inductive Posts (s : Server κ) (a : Action κ) (o : Outcome κ) : Prop
  /-- A connection queues what it reads. -/
  | reads {n : Nat} {c : Connection κ} {ca : Connection.Action κ} {co : Connection.Outcome κ}
    (ha : a = .connection n ca) (hn : s.connections[n]? = some c) (howners : ca.isOwners = false)
    (hstep : c.step ca = some co) (hevents : o.2 = co.2.map (.connection n))
    (hinbound : o.1.inbound.toList =
      s.inbound.toList ++ (Connection.received co.2).map fun m => ⟨some co.1.id, m⟩)
  /-- The application queues a letter itself. -/
  | injects {l : Letter κ} (ha : a = .inject l) (hevents : o.2 = [])
    (hinbound : o.1.inbound.toList = s.inbound.toList ++ [l])
  /-- Letters may be taken off the queue. -/
  | takes {gone : List (Letter κ)} (hinjected : a.injected = []) (harrived : arrived o.2 = [])
    (hinbound : s.inbound.toList = gone ++ o.1.inbound.toList) (hgone : Removes [a] o.2 gone)

theorem posts_of_step (hs : Regular s) {a : Action κ} {o : Outcome κ} (hstep : s.step a = some o) :
    Posts s a o := by
  have htakes : a.isTampering = false → arrived o.2 = [] → Posts s a o := by
    intro ha hnone
    have hacts := acts_of_step hs ha hstep
    obtain ⟨gone, hgone⟩ := hacts.inbound_isSuffix hnone
    -- Nothing was read, so all that the queue has lost was handled.
    have hpopped : gone.map (·.message) = (popped o.2).map (·.2) := by
      have hbalanced := Balanced.acts hacts
      unfold Balanced at hbalanced
      rw [hnone, ← hgone, List.map_append, List.map_nil, List.append_nil] at hbalanced
      exact List.append_cancel_right hbalanced
    obtain ⟨hinjected, htake⟩ : a.injected = [] ∧ Server.takes [a] = 0 := by
      cases a <;> first | exact ⟨rfl, rfl⟩ | cases ha
    refine .takes hinjected hnone hgone.symm ⟨?_, hpopped ▸ List.Sublist.refl _⟩
    rw [htake, Nat.add_zero, ← List.length_map, hpopped, List.length_map]
  cases ha : a.isTampering with
  | true =>
    cases a with
    | inject l => cases hstep; exact .injects rfl rfl (Deque.toList_pushBack _ l)
    | take =>
      obtain ⟨⟨l, rest⟩, hpop, rfl⟩ := Option.map_eq_some_iff.mp hstep
      have hinbound : s.inbound.toList = [l] ++ rest.toList := Deque.toList_of_popFront? hpop
      exact .takes rfl rfl hinbound ⟨rfl, List.nil_sublist _⟩
    | _ => cases ha
  | false =>
    cases turn_of_step hstep with
    | connection hn howners hca =>
      refine .reads rfl hn howners hca rfl ?_
      rw [absorb_eq, toList_enqueueLetters]
    | accepts => exact htakes ha (arrived_accept s _ _)
    | updates => exact htakes ha (arrived_dispatch _ _ s)
    | updatesOn => exact htakes ha (arrived_dispatch _ _ _)
    | steady _ _ hsteady => exact htakes ha (arrived_tame hsteady.tame)
    | requeues htampering => cases htampering.symm.trans ha

variable {a : Action κ} {o : Outcome κ}

/-- The letters put into the queue hold what was read or what the application put there. -/
theorem Posts.put_eq (h : Posts s a o) :
    (s.put o.1).map (·.message) = (arrived o.2).map (·.2) ++ a.injected := by
  cases h with
  | reads ha _ _ _ hevents hinbound =>
    rw [put_of_append hinbound, hevents, arrived_connection, ha]
    simp [Action.injected, Function.comp_def]
  | injects ha hevents hinbound =>
    rw [put_of_append hinbound, hevents, ha]
    rfl
  | takes hinjected harrived hinbound =>
    rw [put_of_suffix ⟨_, hinbound.symm⟩, harrived, hinjected]
    rfl

/-- The letters that waited and those put behind them are those taken off and those that wait now. -/
theorem Posts.exists_gone (h : Posts s a o) :
    ∃ gone, s.inbound.toList ++ s.put o.1 = gone ++ o.1.inbound.toList ∧ Removes [a] o.2 gone := by
  cases h with
  | @reads n c ca co ha _ _ _ hevents hinbound =>
    refine ⟨[], by rw [put_of_append hinbound, hinbound, List.nil_append], ?_⟩
    rw [hevents, ha]
    exact ⟨by rw [popped_connection]; rfl, by rw [popped_connection]; exact List.Sublist.refl _⟩
  | injects ha hevents hinbound =>
    refine ⟨[], by rw [put_of_append hinbound, hinbound, List.nil_append], ?_⟩
    rw [hevents, ha]
    exact ⟨rfl, List.Sublist.refl _⟩
  | takes _ _ hinbound hgone =>
    refine ⟨_, ?_, hgone⟩
    rw [put_of_suffix ⟨_, hinbound.symm⟩, List.append_nil, hinbound]

/-! ### Runs -/

section Runs

variable {settings : ServerSettings} {transport : TransportSettings} {entropy : Source}
  {as : List (Action κ)}

/-- What was ever put into the inbound queue is what was read and what the application put there
itself. -/
theorem pushed_run (hrun : (create settings transport entropy).run as = some (s, es)) :
    (((create settings transport entropy).mail as).map (·.message)).Perm
      ((arrived es).map (·.2) ++ as.flatMap Action.injected) := by
  refine Run.all_history (I := fun _ as es =>
    (((create settings transport entropy).mail as).map (·.message)).Perm
      ((arrived es).map (·.2) ++ as.flatMap Action.injected)) .nil ?_ hrun
  intro pre a post s₁ es₁ s₂ es₂ _ hpre hstep ih
  have hputs := (posts_of_step ((Regular.create settings transport entropy).run hpre) hstep).put_eq
  rw [mail_concat hpre hstep, List.map_append, hputs, arrived_append, List.map_append,
    List.flatMap_append, List.flatMap_singleton]
  refine (ih.append_right _).trans ?_
  simp only [List.append_assoc]
  refine .append_left _ ?_
  rw [← List.append_assoc, ← List.append_assoc]
  exact .append_right _ List.perm_append_comm

/-- What waits in the queue is the last of what was ever put there, behind what updates handled and what
the application took. -/
theorem waiting_run (hrun : (create settings transport entropy).run as = some (s, es)) :
    ∃ gone, (create settings transport entropy).mail as = gone ++ s.inbound.toList ∧
      Removes as es gone := by
  refine Run.all_history (I := fun s as es =>
    ∃ gone, (create settings transport entropy).mail as = gone ++ s.inbound.toList ∧
      Removes as es gone) ⟨[], rfl, rfl, .slnil⟩ ?_ hrun
  rintro pre a post s₁ es₁ s₂ es₂ - hpre hstep ⟨gone, hgone, hremoves⟩
  obtain ⟨more, hmore, hremoves'⟩ :=
    (posts_of_step ((Regular.create settings transport entropy).run hpre) hstep).exists_gone
  refine ⟨gone ++ more, ?_, hremoves.append hremoves'⟩
  rw [mail_concat hpre hstep, hgone, List.append_assoc, hmore, List.append_assoc]

end Runs

end Parley.Server
