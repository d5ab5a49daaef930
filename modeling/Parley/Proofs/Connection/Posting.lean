import Parley.Proofs.Connection.Lifecycle

/-!
# Parley.Proofs.Connection.Posting — from the application to the queue

What the application sends is posted, and the tasks put it into the outbound queue in the order in which
it was sent.  Until the connection is closed nothing of it is lost (`Posting`): it is written, queued or
still posted, and as long as the connection is not open none of it is written.
-/

namespace Parley.Connection

variable {κ : Type}

/-- The message that the application sends. -/
def Action.post? : Action κ → Option (Message κ)
  | .perform .application (.send m) => some m
  | _ => none

/-- The messages that the application sent, in order. -/
def posts (as : List (Action κ)) : List (Message κ) := as.filterMap Action.post?

@[simp] theorem posts_append (as bs : List (Action κ)) : posts (as ++ bs) = posts as ++ posts bs := by
  simp [posts]

/-- Only the application sends, and no hook does. -/
def Unhooked (as : List (Action κ)) : Prop := ∀ m, .perform .reactor (.send m) ∉ as

variable [Kind κ] {c c' : Connection κ} {as : List (Action κ)} {es fs : List (Event κ)}

/-! ### Tasks leave what is posted alone -/

theorem TaskMove.enqueued_eq {t : Turn} {o : Outcome κ} (h : TaskMove c t o) : enqueued o.2 = [] := by
  cases h with
  | giveUp => exact (silent_close { c with stage := .finished }).enqueued_eq
  | writeFail => exact (silent_failHandshake c).enqueued_eq
  | cutShort => exact (silent_failHandshake c).enqueued_eq
  | refuse => exact (silent_failHandshake _).enqueued_eq
  | fault => exact (silent_stopReading _ c).enqueued_eq
  | streamEnd => exact (silent_stopReading _ c).enqueued_eq
  | _ => rfl

theorem TaskMove.postedBy_eq {t : Turn} {o : Outcome κ} (h : TaskMove c t o) (thread : Thread) :
    o.1.postedBy thread = c.postedBy thread := by
  have hclose : ∀ c' : Connection κ, c'.close.1.postedBy thread = c'.postedBy thread := by
    intro c'
    cases thread with
    | application => exact posted_close c'
    | reactor => exact postedByHooks_close c'
  cases h with
  | giveUp => exact (hclose _).trans (by cases thread <;> rfl)
  | writeFail => rw [failHandshake_eq]; exact (hclose _).trans (by cases thread <;> rfl)
  | cutShort => rw [failHandshake_eq]; exact (hclose _).trans (by cases thread <;> rfl)
  | refuse => rw [failHandshake_eq]; exact (hclose _).trans (by cases thread <;> rfl)
  | fault => exact (hclose _).trans (by cases thread <;> rfl)
  | streamEnd => exact (hclose _).trans (by cases thread <;> rfl)
  | _ => cases thread <;> rfl

theorem Proceeds.postedBy_eq {i : Nat} {o : Outcome κ} (h : Proceeds i c o) (thread : Thread) :
    o.1.postedBy thread = c.postedBy thread := by
  cases h with
  | starts => cases thread <;> rfl
  | refuses =>
    cases thread with
    | application => exact posted_close _
    | reactor => exact postedByHooks_close _
  | ends => cases thread <;> rfl

theorem ChainMove.postedBy_eq {i : Nat} {t : Turn} {o : Outcome κ} (h : ChainMove i c t o)
    (thread : Thread) : o.1.postedBy thread = c.postedBy thread ∧ enqueued o.2 = [] := by
  cases h with
  | locks _ _ hnext => exact ⟨hnext.postedBy_eq thread, hnext.silent.enqueued_eq⟩
  | writePart => cases thread <;> exact ⟨rfl, rfl⟩
  | writeRest _ _ hnext =>
    refine ⟨(hnext.postedBy_eq thread).trans ?_, hnext.silent.enqueued_eq⟩
    cases thread <;> rfl
  | writeFail =>
    refine ⟨?_, (silent_failWriting i c).enqueued_eq⟩
    cases thread with
    | application => exact posted_close _
    | reactor => exact postedByHooks_close _
  | cancel => cases thread <;> exact ⟨rfl, rfl⟩

/-! ### The order of sending -/

/-- Of the messages the application sent, some first ones have been enqueued, and until the connection is
closed the others are posted. -/
structure Posting (c : Connection κ) (as : List (Action κ)) (es : List (Event κ)) : Prop where
  hooks_eq : c.postedByHooks = []
  kept : c.phase ≠ .closed → c.attended = true → enqueued es ++ c.posted = posts as
  order : enqueued es <+: posts as

namespace Posting

omit [Kind κ] in
/-- A step that leaves alone what is posted. -/
theorem frame (h : Posting c as es) {a : Action κ}
    (hposted : ∀ thread, c'.postedBy thread = c.postedBy thread)
    (hphase : c'.phase ≠ .closed → c.phase ≠ .closed)
    (hattended : c'.attended = true → c.attended = true) (hfs : enqueued fs = [])
    (ha : a.post? = none) : Posting c' (as ++ [a]) (es ++ fs) := by
  have hposts : posts (as ++ [a]) = posts as := by
    rw [posts_append, posts, posts, List.filterMap_cons_none ha]
    exact List.append_nil _
  refine ⟨(hposted .reactor).trans h.hooks_eq, fun hopen htasks => ?_, ?_⟩
  · rw [enqueued_append, hfs, List.append_nil, hposts, show c'.posted = _ from hposted .application]
    exact h.kept (hphase hopen) (hattended htasks)
  · rw [enqueued_append, hfs, List.append_nil, hposts]
    exact h.order

omit [Kind κ] in
/-- The application sends a message. -/
theorem send (h : Posting c as es) (m : Message κ) :
    Posting (c.send .application m) (as ++ [.perform .application (.send m)]) (es ++ []) := by
  have hposts : posts (as ++ [.perform .application (.send m)]) = posts as ++ [m] := posts_append _ _
  have horder := h.order.trans (List.prefix_append (posts as) [m])
  rw [List.append_nil]
  unfold Connection.send
  split
  · next hdeaf =>
    refine ⟨h.hooks_eq, fun hopen htasks => ?_, hposts ▸ horder⟩
    simp [isClosed, hopen, htasks] at hdeaf
  · refine ⟨h.hooks_eq, fun hopen htasks => ?_, hposts ▸ horder⟩
    show enqueued es ++ (c.posted ++ [m]) = _
    rw [← List.append_assoc, h.kept hopen htasks, hposts]

omit [Kind κ] in
/-- The first posted message is enqueued. -/
theorem enqueue (h : Posting c as es) {m : Message κ} {rest : List (Message κ)} (k : Connection κ)
    (hposted : c.posted = m :: rest) (hphase : c.phase ≠ .closed) (hattended : c.attended = true)
    (hrest : k.posted = rest) (hhooks : k.postedByHooks = c.postedByHooks) :
    Posting k (as ++ [.takeUp .application]) (es ++ [.enqueued m]) := by
  have hposts : posts (as ++ [.takeUp .application]) = posts as :=
    (posts_append _ _).trans (List.append_nil _)
  have hkept : enqueued (es ++ [.enqueued m]) ++ rest = posts as := by
    rw [enqueued_append, ← h.kept hphase hattended, hposted, List.append_assoc]
    rfl
  rw [← hrest] at hkept
  exact ⟨hhooks.trans h.hooks_eq, fun _ _ => hposts ▸ hkept, hposts ▸ ⟨_, hkept⟩⟩

theorem step {a : Action κ} {o : Outcome κ} (h : Posting c as es) (horder : Orderly c)
    (ha : ∀ m, a ≠ .perform .reactor (.send m)) (hstep : c.step a = some o) :
    Posting o.1 (as ++ [a]) (es ++ o.2) := by
  have hopen : o.1.phase ≠ .closed → c.phase ≠ .closed := mt (closed_step hstep)
  cases move_of_step hstep with
  | send thread m =>
    cases thread with
    | application => exact h.send m
    | reactor => exact absurd rfl (ha m)
  | disconnect thread =>
    refine h.frame (fun thread => ?_) hopen (by rw [attended_close]; exact (·))
      (silent_close c).enqueued_eq (by cases thread <;> rfl)
    cases thread with
    | application => exact posted_close c
    | reactor => exact postedByHooks_close c
  | approve id =>
    show Posting (c.approve id) _ _
    unfold Connection.approve
    split
    · exact h.frame (fun thread => by cases thread <;> rfl) (·) (·) rfl rfl
    · exact h.frame (fun _ => rfl) (·) (·) rfl rfl
  | abort =>
    refine ⟨rfl, nofun, ?_⟩
    rw [posts_append, List.append_nil]
    exact h.order.trans (List.prefix_append _ _)
  | arrive => exact h.frame (fun thread => by cases thread <;> rfl) (·) (·) rfl rfl
  | expire => exact h.frame (fun thread => by cases thread <;> rfl) (·) (·) rfl rfl
  | @refuse thread m rest hposted hphase =>
    cases thread with
    | application =>
      refine ⟨h.hooks_eq, fun hopen => absurd hphase hopen, ?_⟩
      rw [posts_append, List.append_nil]
      exact h.order.trans (List.prefix_append _ _)
    | reactor => cases h.hooks_eq.symm.trans hposted
  | @enqueue thread m rest hposted hphase =>
    cases thread with
    | application =>
      exact h.enqueue _ hposted hphase (horder.attended_of_posted hposted) rfl rfl
    | reactor => cases h.hooks_eq.symm.trans hposted
  | task hmove =>
    exact h.frame hmove.postedBy_eq hopen (by rw [hmove.attended_eq]; exact (·)) hmove.enqueued_eq rfl
  | chain hmove =>
    exact h.frame (fun thread => (hmove.postedBy_eq thread).1) hopen
      (by rw [hmove.attended_eq]; exact (·)) (hmove.postedBy_eq .application).2 rfl

theorem run {c₀ : Connection κ} (hfresh : Fresh c₀) (hhooks : Unhooked as)
    (hrun : c₀.run as = some (c, es)) : Posting c as es := by
  have hstart : Posting c₀ [] [] := by
    cases hfresh with
    | accepted => exact ⟨rfl, fun _ _ => rfl, List.nil_prefix⟩
    | outgoing => exact ⟨rfl, fun _ _ => rfl, List.nil_prefix⟩
  refine Run.all_history (I := fun c as es => Posting c as es) hstart ?_ hrun
  rintro pre a post c₁ es₁ c₂ es₂ has hpre hstep h₁
  refine h₁.step (hfresh.sound.run hpre).orderly (fun m ha => hhooks m ?_) hstep
  rw [has, ha]
  exact List.mem_append_right _ List.mem_cons_self

end Posting

/-! ### What is held until the connection opens -/

/-- Before a connection opens, everything enqueued waits in the queue and no frame is written. -/
theorem HasWritten.held (h : HasWritten c es) (hopened : c.phase ≠ .opened)
    (hclosed : c.phase ≠ .closed) (hattended : c.attended = true) :
    (wrote es).drop handshakeSize = [] ∧ c.outbound.toList = enqueued es := by
  cases h with
  | before _ hword _ _ hqueue =>
    refine ⟨List.drop_eq_nil_of_le ?_, hqueue hclosed⟩
    simpa [handshakeSize] using hword.isPrefix.length_le
  | after hlate htold hwrote hflow =>
    exfalso
    cases hflow with
    | ready hphase => exact hopened hphase
    | writing hphase => exact hopened hphase
    | dropped hdropped => cases hattended.symm.trans hdropped
    | closed hphase => exact hclosed hphase
    | closing hphase => exact hclosed hphase

/-- Until a connection is closed, what was enqueued is sent or queued, and there is one chain if it is
open and something is queued. -/
theorem HasWritten.kept (h : HasWritten c es) (hclosed : c.phase ≠ .closed)
    (hattended : c.attended = true) :
    enqueued es = sent es ++ c.outbound.toList ∧
      (c.phase = .opened → (c.outbound.toList ≠ [] ↔ c.chains.length = 1)) := by
  cases h with
  | before hopened _ _ hsent hqueue =>
    rw [hsent, hqueue hclosed]
    exact ⟨rfl, fun hphase => absurd hphase hopened⟩
  | after _ _ _ hflow =>
    obtain ⟨henq, hchain⟩ := hflow.of_not_closed hclosed hattended
    exact ⟨henq, fun _ => hchain⟩

/-- The tasks run as long as nobody drops them. -/
theorem attended_run {c₀ : Connection κ} (hfresh : Fresh c₀) (habort : .abort ∉ as)
    (hrun : c₀.run as = some (c, es)) : c.attended = true := by
  refine Run.all_history (I := fun c _ _ => c.attended = true) hfresh.attended ?_ hrun
  rintro pre a post c₁ es₁ c₂ es₂ has - hstep h₁
  refine (attended_step hstep ?_).trans h₁
  rintro rfl
  exact habort (has ▸ List.mem_append_right _ List.mem_cons_self)

end Parley.Connection
