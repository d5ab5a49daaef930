import Parley.Proofs.Server.Registered
import Parley.Proofs.Server.Steady

/-!
# Parley.Proofs.Server.Updating — what an update takes off the queue

Messages are put on the inbound queue when they are read, and letters are taken off one by one
(`Balanced`).  An update counts what it takes off itself, in its frame while it waits for the
handler and in its result when it returns, whatever the handler does in the meantime (`Updating`).
-/

namespace Parley.Server

variable {κ : Type} {s s' s'' : Server κ} {es es' : List (Event κ)}

/-! ### The inbound queue -/

/-- The letters that waited and behind them the messages read are those that were taken off the queue
and behind them those that wait now. -/
def Balanced (s s' : Server κ) (es : List (Event κ)) : Prop :=
  s.inbound.toList.map (·.message) ++ (arrived es).map (·.2) =
    (popped es).map (·.2) ++ s'.inbound.toList.map (·.message)

namespace Balanced

theorem refl (s : Server κ) : Balanced s s [] := List.append_nil _

theorem trans (h : Balanced s s' es) (h' : Balanced s' s'' es') : Balanced s s'' (es ++ es') := by
  unfold Balanced at *
  rw [arrived_append, popped_append, List.map_append, List.map_append, ← List.append_assoc, h,
    List.append_assoc, h', List.append_assoc]

/-- Nothing is read or taken off. -/
theorem still {v : Core κ} (hcore : s'.core = v) (hinbound : v.inbound = s.inbound)
    (harrived : arrived es = []) (hpopped : popped es = []) : Balanced s s' es := by
  unfold Balanced
  rw [harrived, hpopped, show s'.inbound = s.inbound from
    (congrArg Core.inbound hcore).trans hinbound]
  exact List.append_nil _

/-- A connection makes a step. -/
theorem absorb (s : Server κ) (n : Nat) (o : Connection.Outcome κ) :
    Balanced s (s.absorb n o).1 (s.absorb n o).2 := by
  unfold Balanced
  rw [absorb_eq, toList_enqueueLetters, arrived_connection, popped_connection]
  simp [Function.comp_def]

/-- The first letter is taken off. -/
theorem pop {l : Letter κ} {rest : Deque (Letter κ)} {n : Option Nat}
    (hpop : s.inbound.popFront? = some (l, rest))
    (hcore : s'.core = { s.core with inbound := rest }) (harrived : arrived es = [])
    (hpopped : popped es = [(n, l.message)]) : Balanced s s' es := by
  unfold Balanced
  rw [harrived, hpopped, Deque.toList_of_popFront? hpop,
    show s'.inbound = rest from congrArg Core.inbound hcore]
  exact List.append_nil _

variable [Kind κ] {b b' : Bool} {br : Nat → List UInt8}

theorem act (h : Act s b br s' b' es) : Balanced s s' es := by
  cases h with
  | connection hn ha hstep => exact absorb s _ _
  | approve hn hentry hstep => exact absorb s _ _
  | deliver hpop hsender hcore => exact pop hpop hcore rfl rfl
  | drop hpop hsender hcore => exact pop hpop hcore rfl rfl
  | aside hcalls hcore hes => exact still hcore rfl (arrived_aside hes) (popped_aside hes)
  | abort hcore => exact still hcore rfl rfl rfl
  | appear hcore => exact still hcore rfl rfl rfl
  | register hn hroom hcore => exact still hcore rfl rfl rfl
  | turnAway hnext hcore => exact still hcore rfl rfl rfl
  | prune hids hcore => exact still hcore rfl rfl rfl
  | forget hempty hcore => exact still hcore rfl rfl rfl

theorem acts (h : Acts s b br s' b' es) : Balanced s s' es := by
  induction h with
  | refl => exact refl s
  | tail h hact ih => exact ih.trans (act hact)

/-- Whatever happens, as long as the application leaves the queue to updates. -/
theorem run {as : List (Action κ)} (hs : Regular s) (hown : ∀ a ∈ as, a.isTampering = false)
    (hrun : s.run as = some (s', es)) : Balanced s s' es := by
  refine Run.all_history (I := fun t _ es => Balanced s t es) (refl s) ?_ hrun
  rintro pre a post s₁ es₁ s₂ es₂ rfl hpre hstep ih
  exact ih.trans (acts (acts_of_step (hs.run hpre) (hown a (by simp)) hstep))

end Balanced

/-! ### Dispatching -/

/-- What dispatching at most `left` letters comes to, where `handled` were handled before. -/
inductive Handles (s : Server κ) (left handled : Nat) (o : Outcome κ) : Prop
  /-- As many are taken off the queue as may be, or as there are, and the update returns. -/
  | returns {k : Nat} (hk : k ≤ left) (hwhy : k = left ∨ o.1.inbound.toList = [])
    (hcalls : o.1.calls = s.calls) (hpopped : (popped o.2).length = k)
    (hlast : o.2.getLast? = some (.returned (some (handled + k))))
  /-- The handler is told of the last one taken off, and the update waits for it. -/
  | waits {k rest : Nat} (hk : k + rest = left)
    (hcalls : o.1.calls = .updating rest (handled + k) :: s.calls)
    (hpopped : (popped o.2).length = k)

theorem handles_dispatch (left handled : Nat) (s : Server κ) :
    Handles s left handled (dispatch left handled s) := by
  induction left generalizing handled s with
  | zero => exact .returns (k := 0) (Nat.le_refl 0) (.inl rfl) rfl rfl rfl
  | succ left ih =>
    unfold dispatch
    split
    · next hnone =>
      exact .returns (k := 0) (Nat.zero_le _) (.inr ((Deque.popFront?_eq_none_iff _).mp hnone))
        rfl rfl rfl
    · next l rest hpop =>
      dsimp only
      split
      · exact .waits (k := 1) (Nat.add_comm 1 left) rfl rfl
      · cases ih (handled + 1) { s with inbound := rest } with
        | @returns k hk hwhy hcalls hpopped hlast =>
          refine .returns (k := k + 1) (Nat.succ_le_succ hk) (hwhy.imp_left (congrArg (· + 1)))
            hcalls (congrArg (· + 1) hpopped) ?_
          rw [List.getLast?_cons, hlast, Nat.add_assoc, Nat.add_comm 1 k]
          rfl
        | @waits k rest hk hcalls hpopped =>
          rw [Nat.add_assoc, Nat.add_comm 1 k] at hcalls
          exact .waits (show k + 1 + rest = left + 1 by omega) hcalls (congrArg (· + 1) hpopped)

/-! ### Updates -/

/-- An update that may take `limit` letters off the queue has taken off `own`, and waits for the
handler or has returned this number. -/
inductive Updating (calls : List (Call κ)) (limit own : Nat) (s : Server κ) (es : List (Event κ)) :
    Prop
  | waits {upper : List (Call κ)} {left : Nat}
    (hcalls : s.calls = upper ++ .updating left own :: calls) (hleft : own + left = limit)
  | returned (hcalls : s.calls = calls) (hlast : es.getLast? = some (.returned (some own)))
    (hle : own ≤ limit) (hwhy : own = limit ∨ s.inbound.toList = [])

section Updates

variable {calls : List (Call κ)} {limit own : Nat} {a : Action κ} {o : Outcome κ}

theorem Handles.updating {left : Nat} (h : Handles s left own o) (hleft : own + left = limit)
    (es : List (Event κ)) :
    Updating s.calls limit (own + (popped o.2).length) o.1 (es ++ o.2) := by
  cases h with
  | returns hk hwhy hcalls hpopped hlast =>
    rw [hpopped]
    refine .returned hcalls ?_ (by omega) (hwhy.imp_left fun heq => by omega)
    rw [List.getLast?_append, hlast]
    rfl
  | waits hk hcalls hpopped =>
    rw [hpopped]
    exact .waits (hcalls.trans (List.nil_append _).symm) (by omega)

theorem Updating.own_le (h : Updating calls limit own s es) : own ≤ limit := by
  cases h with
  | waits _ hleft => omega
  | returned _ _ hle => exact hle

/-- The innermost call goes on. -/
def Action.isResume : Action κ → Bool
  | .resume => true
  | _ => false

/-- The number of letters a call takes off the queue itself in one step, where `h` calls wait below
it. -/
def ownPops (h : Nat) (s : Server κ) (a : Action κ) (es : List (Event κ)) : Nat :=
  if a.isResume && s.calls.length == h + 1 then (popped es).length else 0

variable [Kind κ]

/-- The number of letters it takes off in a run. -/
def ownPopsAlong (h : Nat) : Server κ → List (Action κ) → Nat
  | _, [] => 0
  | s, a :: as =>
    match s.step a with
    | none => 0
    | some o => ownPops h s a o.2 + ownPopsAlong h o.1 as

/-- More than `h` calls wait for the handler before every action of a run. -/
def Waits (h : Nat) : Server κ → List (Action κ) → Prop
  | _, [] => True
  | s, a :: as => h < s.calls.length ∧ ∀ o ∈ s.step a, Waits h o.1 as

instance Waits.decidable (h : Nat) :
    (s : Server κ) → (as : List (Action κ)) → Decidable (Waits h s as)
  | _, [] => .isTrue trivial
  | s, a :: as =>
    have := fun o : Outcome κ => Waits.decidable h o.1 as
    inferInstanceAs (Decidable (h < s.calls.length ∧ ∀ o ∈ s.step a, Waits h o.1 as))

namespace Updating

/-- While the update waits, it takes letters off only when it goes on itself. -/
theorem step (h : Updating calls limit own s es) (hwaits : calls.length < s.calls.length)
    (hstep : s.step a = some o) :
    Updating calls limit (own + ownPops calls.length s a o.2) o.1 (es ++ o.2) := by
  cases h with
  | returned hcalls => exact absurd hwaits (by rw [hcalls]; exact Nat.lt_irrefl _)
  | @waits upper left hcalls hleft =>
    have hlength : s.calls.length = upper.length + (calls.length + 1) := by
      rw [hcalls, List.length_append, List.length_cons]
    unfold ownPops
    split
    · next hown =>
      obtain ⟨hresume, hinnermost⟩ := Bool.and_eq_true_iff.mp hown
      have hupper : upper = [] := List.length_eq_zero_iff.mp (by rw [beq_iff_eq] at hinnermost; omega)
      subst hupper
      cases a with
      | resume =>
        have hgoes : s.resume = some (dispatch left own { s with calls := calls }) := by
          unfold resume
          rw [show s.calls = .updating left own :: calls from hcalls]
        cases hgoes.symm.trans hstep
        exact (handles_dispatch left own { s with calls := calls }).updating hleft es
      | _ => cases hresume
    · next hown =>
      obtain ⟨kept, hbefore, hafter⟩ := (turn_of_step hstep).restacked
      obtain ⟨above, hkept⟩ : ∃ above, kept = above ++ .updating left own :: calls := by
        rcases hbefore with hsame | ⟨rfl, call, hcall⟩
        · exact ⟨upper, hsame.symm.trans hcalls⟩
        · -- another call is the innermost one
          cases upper with
          | nil => exact absurd (by simpa [Action.isResume] using hlength) hown
          | cons top upper => exact ⟨upper, (List.cons.inj (hcall.symm.trans hcalls)).2⟩
      rcases hafter with hsame | ⟨call, hcall⟩
      · exact .waits (hsame.trans hkept) hleft
      · rw [hkept, ← List.cons_append] at hcall
        exact .waits hcall hleft

theorem run {body : List (Action κ)} (h : Updating calls limit own s es)
    (hwaits : s.Waits calls.length body) (hrun : s.run body = some (s', es')) :
    Updating calls limit (own + s.ownPopsAlong calls.length body) s' (es ++ es') := by
  induction body generalizing s own es es' with
  | nil =>
    cases hrun
    rw [List.append_nil]
    exact h
  | cons a body ih =>
    obtain ⟨s₁, es₁, es₂, hstep, hrest, rfl⟩ := Run.all_cons_eq_some_iff.mp hrun
    have hall := ih (h.step hwaits.1 hstep) (hwaits.2 _ hstep) hrest
    simp only [ownPopsAlong, hstep]
    rw [← Nat.add_assoc, ← List.append_assoc]
    exact hall

end Updating

end Updates

/-- An update that began in `s` and may take `limit` letters off the queue has taken off `own`. -/
structure Tally (s s' : Server κ) (limit own : Nat) (es : List (Event κ)) : Prop where
  le : own ≤ limit
  /-- When it returns, it returns this number. -/
  returned : s'.calls.length ≤ s.calls.length →
    s'.calls = s.calls ∧ es.getLast? = some (.returned (some own))
  /-- If no message came in meanwhile and no other call took one off the queue, this is the number of
  letters in the queue, as far as so many may be taken off. -/
  alone : s'.calls.length ≤ s.calls.length → arrived es = [] → (popped es).length = own →
    own = min limit s.inbound.count

/-- What an update takes off the queue before it waits or returns is its own. -/
theorem updating_update [Kind κ] {limit : Option Nat} {wait : Bool} {o : Outcome κ}
    (hstep : s.step (.update limit wait) = some o) :
    Updating s.calls (limit.getD Message.addressMax) (popped o.2).length o.1 o.2 := by
  have hdispatch : s.dispatch (limit.getD Message.addressMax) 0 = o := by
    simp only [Server.step, update] at hstep
    split at hstep
    · cases hstep
    · exact Option.some.inj hstep
  have hall := (handles_dispatch (limit.getD Message.addressMax) 0 s).updating (Nat.zero_add _) []
  rw [hdispatch] at hall
  simpa using hall

/-- An update counts the letters it takes off itself. -/
theorem tally_update [Kind κ] {limit : Option Nat} {wait : Bool} {body : List (Action κ)}
    {s₁ s₂ : Server κ} {es₁ es₂ : List (Event κ)} (hs : Regular s)
    (hstep : s.step (.update limit wait) = some (s₁, es₁)) (hbody : s₁.run body = some (s₂, es₂))
    (hwaits : s₁.Waits s.calls.length body) (hown : ∀ a ∈ body, a.isTampering = false) :
    Tally s s₂ (limit.getD Message.addressMax)
      ((popped es₁).length + s₁.ownPopsAlong s.calls.length body) (es₁ ++ es₂) := by
  have hfirst : Updating s.calls (limit.getD Message.addressMax) (popped es₁).length s₁ es₁ :=
    updating_update hstep
  have hlast := hfirst.run hwaits hbody
  have hbalanced : Balanced s s₂ (es₁ ++ es₂) :=
    .run hs (List.forall_mem_cons.mpr ⟨rfl, hown⟩)
      (Run.all_cons_eq_some_iff.mpr ⟨s₁, es₁, es₂, hstep, hbody, rfl⟩)
  refine ⟨hlast.own_le, fun hshort => ?_, fun hshort hquiet halone => ?_⟩
  · cases hlast with
    | waits hcalls =>
      rw [hcalls, List.length_append, List.length_cons] at hshort
      omega
    | returned hcalls hlast => exact ⟨hcalls, hlast⟩
  · have hcount := congrArg List.length hbalanced
    rw [hquiet] at hcount
    simp only [List.length_append, List.length_map, List.length_nil] at hcount
    rw [halone] at hcount
    rw [Deque.count_eq]
    cases hlast with
    | waits hcalls =>
      rw [hcalls, List.length_append, List.length_cons] at hshort
      omega
    | returned _ _ hle hwhy =>
      rcases hwhy with hfull | hempty
      · omega
      · rw [hempty, List.length_nil] at hcount
        omega

end Parley.Server
