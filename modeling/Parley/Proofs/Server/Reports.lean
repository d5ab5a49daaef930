import Mathlib.Data.List.Nodup
import Parley.Proofs.Server.Reaping

/-!
# Parley.Proofs.Server.Reports — the handler is told of a closed connection once

What was reported and what a call that waits is still to look at make up the connections that are due
(`due`).  A step makes a connection due again only if a call of the application asks for it, and no
call should once the connection is leaving the registry (`Spares`): then it is reported once, and
only after it was registered (`reported_once`).  The calls themselves do not see to this.  An answer
to a message that a connection sent before it was set aside asks for the connection again
(`reported_twice`).
-/

namespace Parley.Server

variable {κ : Type}

/-! ### What is due -/

/-- The connections a waiting call is still to look at. -/
def Call.ahead : Call κ → List Nat
  | .sweeping _ _ _ rest _ => rest
  | _ => []

/-- The connections that were reported, and those that a waiting call is still to look at. -/
def due (s : Server κ) (es : List (Event κ)) : List Nat :=
  reported es ++ s.calls.flatMap Call.ahead

theorem awaits_of_mem_ahead {s : Server κ} {n : Nat} {calls : List (Call κ)}
    (hn : n ∈ calls.flatMap Call.ahead) : Awaits (Call.Reaps s n) 0 calls := by
  induction calls with
  | nil => exact absurd hn List.not_mem_nil
  | cons call calls ih =>
    rw [List.flatMap_cons] at hn
    rcases List.mem_append.mp hn with hn | hn
    · refine .inl ⟨?_, Nat.zero_le _⟩
      cases call with
      | sweeping m exclude k rest dead => exact .inr (.inl hn)
      | updating left handled => exact absurd hn List.not_mem_nil
      | reporting k => exact absurd hn List.not_mem_nil
    · exact .inr (ih hn)

/-- No connection is registered twice. -/
theorem Keyed.nodup_numbers {v : Core κ} {b : Bool} (h : Keyed v b) : v.registry.numbers.Nodup := by
  have hentries : v.registry.entries.Nodup :=
    v.registry.sorted.imp fun hlt heq => UInt32.ne_of_lt hlt (congrArg Prod.fst heq)
  exact List.Nodup.map_on (fun d hd e he => h.apart d hd e he) hentries

/-- The call asks for connection `n`, which is leaving already. -/
def Action.Repeats (s : Server κ) (n : Nat) : Action κ → Prop
  | .messageClient k _ => k = n ∧ s.Closed n ∧ s.Leaving 0 n
  | .broadcast _ _ => n ∈ s.registry.numbers ∧ s.Leaving 0 n
  | _ => False

instance (s : Server κ) (n : Nat) : DecidablePred (Action.Repeats s n)
  | .messageClient k _ => inferInstanceAs (Decidable (k = n ∧ s.Closed n ∧ s.Leaving 0 n))
  | .broadcast _ _ => inferInstanceAs (Decidable (n ∈ s.registry.numbers ∧ s.Leaving 0 n))
  | .start _ _ | .stop | .accept _ _ | .connection _ _ | .update _ _ | .resume | .inject _ | .take =>
    .isFalse nofun

section Counts

variable {s : Server κ} {m : Message κ} {exclude : Option Nat} {ns : List Nat} {dead : List UInt32}
  {a : Action κ} {o : Outcome κ} {n : Nat}

theorem count_due (s : Server κ) (es : List (Event κ)) (n : Nat) : (s.due es).count n =
    (reported es).count n + (s.calls.flatMap Call.ahead).count n := List.count_append

/-- A message to some connections makes none due that is not among them. -/
theorem Swept.count_le (h : Swept s m exclude ns dead o) (n : Nat) :
    (o.1.due o.2).count n ≤ ns.count n + (s.calls.flatMap Call.ahead).count n := by
  rw [count_due]
  cases h with
  | ends hopen hcalls hregistry hreported =>
    rw [hreported, hcalls, List.count_nil]
    omega
  | @meets pre rest k hns hopen hcalls hregistry hreported =>
    rw [hreported, hcalls, hns, List.flatMap_cons]
    simp only [Call.ahead, List.count_append, List.count_cons, List.count_nil]
    omega

/-- A step makes a connection due once more at most, and only one that is registered and not leaving
yet. -/
theorem Advance.count_due_le (h : Advance s a o) (hs : Regular s) (hkeyed : Keyed s.core false)
    (hspares : ¬a.Repeats s n) (es : List (Event κ)) :
    (o.1.due (es ++ o.2)).count n ≤ (s.due es).count n ∨
      (n ∈ s.registry.numbers ∧ ¬s.Leaving 0 n ∧
        (o.1.due (es ++ o.2)).count n ≤ (s.due es).count n + 1) := by
  have hsplit : (o.1.due (es ++ o.2)).count n = (reported es).count n + (o.1.due o.2).count n := by
    rw [due, reported_append, List.append_assoc, List.count_append]
    rfl
  rw [hsplit, count_due s]
  -- Only a report and a message to some connections make anything due: a message that goes on has made
  -- the rest of its connections due before.
  cases h with
  | @dispatches _ _ calls hbefore hafter hregistry hreported =>
    left
    have hold : s.calls.flatMap Call.ahead = calls.flatMap Call.ahead := by
      rcases hbefore with hbefore | ⟨l, k, hbefore⟩
      · rw [hbefore]
      · rw [hbefore]; rfl
    have hnew : o.1.calls.flatMap Call.ahead = calls.flatMap Call.ahead := by
      rcases hafter with hafter | ⟨l, k, hafter⟩
      · rw [hafter]
      · rw [hafter]; rfl
    rw [count_due, hreported, hnew, hold, List.count_nil]
    omega
  | enrols hroom hcalls hregistry hreported =>
    left
    rw [count_due, hreported, hcalls, List.count_nil]
    omega
  | @reports k m _ c hn hc hcalls hregistry hreported =>
    rw [count_due, hreported, hcalls, List.flatMap_cons]
    by_cases hkn : k = n
    · subst hkn
      have hclosed := hs.closed_of_not_isConnected hn hc
      have hstays : ¬s.Leaving 0 k := fun hleaving => hspares ⟨rfl, hclosed, hleaving⟩
      refine .inr ⟨not_not.mp fun hout => hstays (.inl hout), hstays, ?_⟩
      simp only [Call.ahead, List.nil_append, List.count_singleton_self]
      omega
    · left
      rw [List.count_singleton, if_neg (by simpa using hkn)]
      simp only [Call.ahead, List.nil_append]
      omega
  | prunes hcalls hregistry hreported =>
    left
    rw [count_due, hreported, hcalls, List.flatMap_cons, List.count_nil]
    simp only [Call.ahead, List.nil_append]
    omega
  | sweeps hswept =>
    have hle := hswept.count_le n
    by_cases hn : n ∈ s.registry.numbers
    · have honce := List.nodup_iff_count_le_one.mp hkeyed.nodup_numbers n
      have hnumbers : s.core.registry.numbers = s.registry.numbers := rfl
      rw [hnumbers] at honce
      exact .inr ⟨hn, fun hleaving => hspares ⟨hn, hleaving⟩, by omega⟩
    · rw [List.count_eq_zero.mpr hn] at hle
      exact .inl (by omega)
  | @sweepsOn m exclude k rest dead calls _ hbefore hswept =>
    left
    have hle := hswept.count_le n
    have hold : s.calls.flatMap Call.ahead = rest ++ calls.flatMap Call.ahead := by
      rw [hbefore]
      rfl
    rw [hold, List.count_append]
    have hcalls : ({ s with calls := calls } : Server κ).calls = calls := rfl
    rw [hcalls] at hle
    omega

/-- A connection that a message to some connections reports is taken out by this call. -/
theorem Swept.leaving_of_reported (h : Swept s m exclude ns dead o) (hs : Regular o.1)
    (hn : n ∈ reported o.2) : o.1.Closed n ∧ o.1.Leaving 0 n := by
  cases h with
  | ends hopen hcalls hregistry hreported =>
    rw [hreported] at hn
    exact absurd hn List.not_mem_nil
  | meets hns hopen hcalls hregistry hreported =>
    rw [hreported] at hn
    obtain rfl := List.mem_singleton.mp hn
    have hcovers := hs.calls _ (by rw [hcalls]; exact List.mem_cons_self)
    refine ⟨hcovers.1, .inr ?_⟩
    rw [hcalls]
    exact .inl ⟨.inl rfl, Nat.zero_le _⟩

/-- A connection that is reported is leaving from then on. -/
theorem Advance.leaving_of_reported (h : Advance s a o) (hs : Regular o.1)
    (hn : n ∈ reported o.2) : o.1.Closed n ∧ o.1.Leaving 0 n := by
  have hquiet : reported o.2 ≠ [] := List.ne_nil_of_mem hn
  cases h with
  | dispatches _ _ _ hreported => exact absurd hreported hquiet
  | enrols _ _ _ hreported => exact absurd hreported hquiet
  | prunes _ _ hreported => exact absurd hreported hquiet
  | reports _ _ hcalls _ hreported =>
    rw [hreported] at hn
    obtain rfl := List.mem_singleton.mp hn
    have hcovers := hs.calls _ (by rw [hcalls]; exact List.mem_cons_self)
    refine ⟨hcovers, .inr ?_⟩
    rw [hcalls]
    exact .inl ⟨rfl, Nat.zero_le _⟩
  | sweeps hswept => exact hswept.leaving_of_reported hs hn
  | sweepsOn _ hswept => exact hswept.leaving_of_reported hs hn

end Counts

/-! ### Runs -/

variable [Kind κ] {s s₀ : Server κ} {a : Action κ} {o : Outcome κ} {n : Nat} {es : List (Event κ)}

/-- Along a run, no call asks for connection `n` once it is leaving. -/
def Spares (n : Nat) : Server κ → List (Action κ) → Prop
  | _, [] => True
  | s, a :: as => ¬a.Repeats s n ∧ ∀ o ∈ s.step a, Spares n o.1 as

instance Spares.decidable (n : Nat) :
    (s : Server κ) → (as : List (Action κ)) → Decidable (Spares n s as)
  | _, [] => .isTrue trivial
  | s, a :: as =>
    have := fun o : Outcome κ => Spares.decidable n o.1 as
    inferInstanceAs (Decidable (¬a.Repeats s n ∧ ∀ o ∈ s.step a, Spares n o.1 as))

theorem Spares.not_repeats {pre post : List (Action κ)} (h : Spares n s₀ (pre ++ a :: post))
    (hpre : s₀.run pre = some (s, es)) : ¬a.Repeats s n := by
  induction pre generalizing s₀ es with
  | nil =>
    cases hpre
    exact h.1
  | cons b pre ih =>
    obtain ⟨s', es₁, es₂, hstep, hrest, -⟩ := Run.all_cons_eq_some_iff.mp hpre
    exact ih (h.2 _ hstep) hrest

/-- What was due before a step or is registered is all that can be due after it. -/
theorem mem_of_mem_due (hs : Regular s) (hkeyed : Keyed s.core false) (hspares : ¬a.Repeats s n)
    (hstep : s.step a = some o) (hn : n ∈ o.1.due (es ++ o.2)) :
    n ∈ s.due es ∨ n ∈ s.registry.numbers := by
  have hcount := List.count_pos_iff.mpr hn
  rcases (advance_of_step hstep).count_due_le hs hkeyed hspares es with hle | ⟨hmem, -, -⟩
  · exact .inl (List.count_pos_iff.mp (hcount.trans_le hle))
  · exact .inr hmem

/-- A connection that began, is leaving since it was reported, and is not due twice. -/
structure Told (s : Server κ) (es : List (Event κ)) (n : Nat) : Prop where
  begun : n ∈ s.due es → s.Begun n
  leaving : n ∈ reported es → s.Closed n ∧ s.Leaving 0 n
  once : (s.due es).count n ≤ 1

theorem Told.step (h : Told s es n) (hs : Regular s) (hkeyed : Keyed s.core false)
    (hbegun : n ∈ s.registry.numbers → s.Begun n) (hspares : ¬a.Repeats s n)
    (hstep : s.step a = some o) : Told o.1 (es ++ o.2) n := by
  have hadvance := advance_of_step hstep
  refine ⟨fun hn => ?_, fun hn => ?_, ?_⟩
  · have hbefore : s.Begun n :=
      (mem_of_mem_due hs hkeyed hspares hstep hn).elim h.begun hbegun
    exact hbefore.step stable_begun hs hstep
  · rw [reported_append] at hn
    rcases List.mem_append.mp hn with hold | hnew
    · obtain ⟨hclosed, hleaving⟩ := h.leaving hold
      exact ⟨hclosed.step Connection.stable_closed hs hstep,
        hleaving.step hs hkeyed hclosed (h.begun (List.mem_append_left _ hold)) hstep⟩
    · exact hadvance.leaving_of_reported (hs.step hstep) hnew
  · rcases hadvance.count_due_le hs hkeyed hspares es with hle | ⟨-, hstays, hle⟩
    · exact hle.trans h.once
    · have hnot : n ∉ s.due es := by
        intro hdue
        rcases List.mem_append.mp hdue with hold | hahead
        · exact hstays (h.leaving hold).2
        · exact hstays (.inr (awaits_of_mem_ahead hahead))
      rw [List.count_eq_zero.mpr hnot] at hle
      exact hle

variable {settings : ServerSettings} {transport : TransportSettings} {entropy : Source}

/-- What is registered was registered in the run. -/
theorem entered_run {as : List (Action κ)}
    (hrun : (create settings transport entropy).run as = some (s, es)) :
    ∀ e ∈ s.registry.entries, .registered e.2 e.1 ∈ es := by
  refine Run.all_history (I := fun s _ es => ∀ e ∈ s.registry.entries, .registered e.2 e.1 ∈ es)
    nofun ?_ hrun
  intro pre a post s₁ es₁ s₂ es₂ _ _ hstep ih e he
  rcases (advance_of_step hstep).entry_cases he with hold | ⟨-, -, -, -, hnew⟩
  · exact List.mem_append_left _ (ih e hold)
  · exact List.mem_append_right _ hnew

/-- Only what was registered is due. -/
theorem registered_of_due {as : List (Action κ)}
    (hrun : (create settings transport entropy).run as = some (s, es))
    (hspares : Spares n (create settings transport entropy) as) (hn : n ∈ s.due es) :
    ∃ id, .registered n id ∈ es := by
  refine Run.all_history (I := fun s _ es => n ∈ s.due es → ∃ id, .registered n id ∈ es)
    (fun hn => absurd hn List.not_mem_nil) ?_ hrun hn
  rintro pre a post s₁ es₁ s₂ es₂ rfl hpre hstep ih hn
  obtain ⟨hs, hkeyed, -⟩ := keyed_run hpre
  have hentered : ∃ id, .registered n id ∈ es₁ := by
    rcases mem_of_mem_due hs hkeyed (hspares.not_repeats hpre) hstep hn with hold | hmem
    · exact ih hold
    · obtain ⟨e, he, rfl⟩ := exists_of_mem_numbers hmem
      exact ⟨e.1, entered_run hpre e he⟩
  exact hentered.imp fun id => List.mem_append_left _

theorem told_run {as : List (Action κ)}
    (hrun : (create settings transport entropy).run as = some (s, es))
    (hspares : Spares n (create settings transport entropy) as)
    (hleft : LeftOpen (create settings transport entropy) as n) : Told s es n := by
  refine Run.all_history (I := fun s _ es => Told s es n)
    ⟨fun hn => absurd hn List.not_mem_nil, nofun, Nat.zero_le _⟩ ?_ hrun
  rintro pre a post s₁ es₁ s₂ es₂ rfl hpre hstep htold
  obtain ⟨hs, hkeyed, hbegun⟩ := keyed_run hpre
  refine htold.step hs hkeyed (fun hmem => ?_) (hspares.not_repeats hpre) hstep
  obtain ⟨e, he, rfl⟩ := exists_of_mem_numbers hmem
  exact hbegun e he hleft.of_append

/-- **The handler is told of a closed connection once**, and only of one that was registered, as long
as no call asks for the connection once it is leaving.  The calls are made in any order, also while
other calls wait for the handler.  That a connection is not reported twice also takes that its own
hook has not disconnected it. -/
theorem reported_once {as : List (Action κ)}
    (hrun : (create settings transport entropy).run as = some (s, es))
    (hspares : Spares n (create settings transport entropy) as) :
    (n ∈ reported es → ∃ id, .registered n id ∈ es) ∧
      (LeftOpen (create settings transport entropy) as n → (reported es).count n ≤ 1) := by
  refine ⟨fun hn => registered_of_due hrun hspares (List.mem_append_left _ hn), fun hleft => ?_⟩
  have honce := (told_run hrun hspares hleft).once
  rw [count_due] at honce
  exact (Nat.le_add_right _ _).trans honce

/-- The other end answers the challenge zero, sends a message twice, and goes away. -/
def farewell (m : Message GameTag) : List (Connection.Action GameTag) :=
  [.turn .ready, .turn (.wrote 8),
    .arrive (Bytes.ofWord (scramble 0) ++ Frame.bytes m ++ Frame.bytes m), .expire .finished] ++
    List.replicate 6 (.turn .ready)

/-- A connection brings two messages in and is closed.  A message to all reports it, and while it does,
the handler sends to another connection; the two messages are handed on later, and are answered to
the other connection again. -/
theorem reported_once_goodbye :
    let m : Message GameTag := ⟨⟨.chat, 2⟩, [7, 8], rfl⟩
    let as : List (Action GameTag) := [.start .loopback 0, .accept [] true, .accept [] true] ++
      (farewell m).map (.connection 0) ++
      [.broadcast m none, .messageClient 1 m, .resume,
        .update none false, .messageClient 1 m, .resume, .messageClient 1 m, .resume]
    ∃ s es, (create {} {} fun _ => 0).run as = some (s, es) ∧ .delivered 0 m ∈ es ∧
      0 ∈ reported es ∧ (∃ id, .registered 0 id ∈ es) ∧ (reported es).count 0 ≤ 1 := by
  intro m as
  have hruns : ((create {} {} fun _ => 0).run as).any (fun o =>
      o.2.contains (.delivered 0 m) && (reported o.2).contains 0) = true := by
    decide +kernel
  obtain ⟨⟨s, es⟩, hrun, hlast⟩ := (Option.any_eq_true _ _).mp hruns
  simp only [Bool.and_eq_true, List.contains_iff_mem] at hlast
  obtain ⟨hdelivered, hreported⟩ := hlast
  have hspares : Spares 0 (create {} {} fun _ => 0) as := by decide +kernel
  have hleft : LeftOpen (create {} {} fun _ => 0) as 0 :=
    .of_forall fun deeds approved hmem => by simp_all [as]
  obtain ⟨hregistered, honce⟩ := reported_once hrun hspares
  exact ⟨s, es, hrun, hdelivered, hreported, hregistered hreported, honce hleft⟩

/-- **A connection is reported twice, and one that was never registered is reported.**  Two messages
came in on a connection that is closed now, and the handler answers both: the first answer reports
the connection and sets it aside, the second one reports it again.  A message to a connection that
was turned away reports it just so. -/
theorem reported_twice :
    let m : Message GameTag := ⟨⟨.chat, 2⟩, [7, 8], rfl⟩
    let as : List (Action GameTag) := [.start .loopback 0, .accept [] true] ++
      (farewell m).map (.connection 0) ++
      [.update none false, .messageClient 0 m, .resume, .resume, .messageClient 0 m, .resume, .resume]
    let bs : List (Action GameTag) := [.start .loopback 0, .accept [] false, .messageClient 0 m]
    (∃ s es, (create {} {} fun _ => 0).run as = some (s, es) ∧
      LeftOpen (create {} {} fun _ => 0) as 0 ∧ s.calls = [] ∧ reported es = [0, 0]) ∧
    ∃ s es, (create {} {} fun _ => 0).run bs = some (s, es) ∧ reported es = [0] ∧
      ∀ id, .registered 0 id ∉ es := by
  intro m as bs
  have htwice : ((create {} {} fun _ => 0).run as).any (fun o =>
      o.1.calls.isEmpty && reported o.2 == [0, 0]) = true := by
    decide +kernel
  have hnever : ((create {} {} fun _ => 0).run bs).map (·.2) =
      some [.connection 0 .established, .rejected 0, .connection 0 .closed, .disconnected 0] := by
    decide +kernel
  have hleft : LeftOpen (create {} {} fun _ => 0) as 0 :=
    .of_forall fun deeds approved hmem => by simp_all [as]
  obtain ⟨⟨s, es⟩, hrun, hlast⟩ := (Option.any_eq_true _ _).mp htwice
  simp only [Bool.and_eq_true, beq_iff_eq, List.isEmpty_iff] at hlast
  obtain ⟨hidle, hreported⟩ := hlast
  obtain ⟨⟨s', es'⟩, hrun', hevents⟩ := Option.map_eq_some_iff.mp hnever
  refine ⟨⟨s, es, hrun, hleft, hidle, hreported⟩, s', es', hrun', ?_⟩
  rw [show es' = _ from hevents]
  exact ⟨rfl, by simp⟩

end Parley.Server
