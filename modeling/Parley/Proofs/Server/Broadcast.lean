import Parley.Proofs.Server.Attending
import Parley.Proofs.Server.Reports
import Parley.Proofs.Server.Sparing

/-!
# Parley.Proofs.Server.Broadcast — a message to all but one

A message to all goes through the registry.  It posts the message for every connection that is connected
and not excluded, tells the handler of every one that is closed, and waits for the handler each time
(`sweep_returns`).  What was posted is taken up later, on each connection in the order in which it was
posted (`run_takings`); when all of it has been taken up, the message has been put exactly once behind
everything else, on the connections it was for and on no other (`broadcast_delivers`).  Writing it is up
to the write chains, whose steps are their own.
-/

namespace Parley

namespace Connection

variable {κ : Type}

/-! ### Taking up what was posted -/

/-- The connection after `k` of the messages posted by the application were taken up. -/
def taken (k : Nat) (c : Connection κ) : Connection κ :=
  if c.isClosed then { c with posted := c.posted.drop k }
  else
    { c with
      posted := c.posted.drop k
      outbound := (c.posted.take k).foldl Deque.pushBack c.outbound
      chains :=
        if 0 < k ∧ c.outbound.isEmpty ∧ c.phase = .opened then c.chains ++ [.waiting] else c.chains }

/-- The messages that are put into the queue meanwhile; a closed connection takes none. -/
def takenUp (k : Nat) (c : Connection κ) : List (Message κ) :=
  if c.isClosed then [] else c.posted.take k

theorem takenUp_succ {k : Nat} {c : Connection κ} (hk : k < c.posted.length) :
    c.takenUp (k + 1) = c.takenUp k ++ if c.isClosed then [] else [c.posted[k]] := by
  unfold takenUp
  split
  · rfl
  · exact List.take_succ_eq_append_getElem hk

theorem takenUp_zero (c : Connection κ) : c.takenUp 0 = [] := ite_self []

theorem taken_zero (c : Connection κ) : c.taken 0 = c := by
  unfold taken
  split
  · rfl
  · simp

theorem toList_foldl_pushBack (ms : List (Message κ)) (q : Deque (Message κ)) :
    (ms.foldl Deque.pushBack q).toList = q.toList ++ ms := by
  induction ms generalizing q with
  | nil => simp
  | cons m ms ih => rw [List.foldl_cons, ih, Deque.toList_pushBack, List.append_assoc]; rfl

theorem toList_outbound_taken (k : Nat) (c : Connection κ) :
    (c.taken k).outbound.toList = c.outbound.toList ++ c.takenUp k := by
  unfold taken takenUp
  split
  · rw [List.append_nil]
  · exact toList_foldl_pushBack _ _

/-- Nothing else of the connection changes. -/
theorem taken_eq (k : Nat) (c : Connection κ) :
    c.taken k = { c with
      posted := (c.taken k).posted
      outbound := (c.taken k).outbound
      chains := (c.taken k).chains } := by
  unfold taken
  split <;> rfl

theorem takeUp_eq {c : Connection κ} {m : Message κ} {rest : List (Message κ)}
    (hposted : c.posted = m :: rest) :
    c.takeUp .application = some (
      if c.isClosed then ({ c with posted := rest }, [])
      else
        ({ c with
          posted := rest
          outbound := c.outbound.pushBack m
          chains := if c.outbound.isEmpty && c.phase == .opened then c.chains ++ [.waiting]
            else c.chains }, [.enqueued m])) := by
  unfold takeUp
  simp only [hposted, Option.map_some]
  rfl

theorem phase_taken (k : Nat) (c : Connection κ) : (c.taken k).phase = c.phase := by
  unfold taken
  split <;> rfl

theorem id_taken (k : Nat) (c : Connection κ) : (c.taken k).id = c.id := by
  unfold taken
  split <;> rfl

theorem enqueued_map (ms : List (Message κ)) : enqueued (ms.map .enqueued) = ms := by
  unfold enqueued
  rw [List.filterMap_map]
  exact List.filterMap_some

/-- One more is taken up, as long as there are more. -/
theorem takeUp_taken {k : Nat} {c : Connection κ} (hk : k < c.posted.length) :
    (c.taken k).takeUp .application =
      some (c.taken (k + 1), if c.isClosed then [] else [.enqueued c.posted[k]]) := by
  have hdrop : c.posted.drop k = c.posted[k] :: c.posted.drop (k + 1) :=
    List.drop_eq_getElem_cons hk
  by_cases hclosed : c.isClosed = true
  · have htaken : ∀ j, c.taken j = { c with posted := c.posted.drop j } := fun j => if_pos hclosed
    have hnow : (c.taken k).isClosed = true := by rw [htaken]; exact hclosed
    have hposted : (c.taken k).posted = c.posted[k] :: c.posted.drop (k + 1) := by
      rw [htaken]; exact hdrop
    rw [takeUp_eq hposted, if_pos hnow, if_pos hclosed, htaken, htaken]
  · have htaken : ∀ j, c.taken j = { c with
        posted := c.posted.drop j
        outbound := (c.posted.take j).foldl Deque.pushBack c.outbound
        chains := if 0 < j ∧ c.outbound.isEmpty ∧ c.phase = .opened then c.chains ++ [.waiting]
          else c.chains } := fun j => if_neg hclosed
    have hnow : ¬(c.taken k).isClosed = true := by rw [htaken]; exact hclosed
    have hposted : (c.taken k).posted = c.posted[k] :: c.posted.drop (k + 1) := by
      rw [htaken]; exact hdrop
    have houtbound : (c.posted.take (k + 1)).foldl Deque.pushBack c.outbound =
        ((c.posted.take k).foldl Deque.pushBack c.outbound).pushBack c.posted[k] := by
      rw [List.take_succ_eq_append_getElem hk, List.foldl_append]
      rfl
    rw [takeUp_eq hposted, if_neg hnow, if_neg hclosed, htaken, htaken, houtbound]
    refine congrArg some (congrArg₂ Prod.mk ?_ rfl)
    cases k with
    | zero => simp
    | succ k =>
      -- the queue is not empty any more, so no other chain starts
      have hqueue : ((c.posted.take (k + 1)).foldl Deque.pushBack c.outbound).isEmpty = false := by
        rw [Deque.isEmpty_eq, toList_foldl_pushBack, List.isEmpty_eq_false_iff, ne_eq,
          List.append_eq_nil_iff, List.take_eq_nil_iff]
        rintro ⟨-, hnone | hnone⟩
        · cases hnone
        · rw [hnone] at hk
          exact Nat.not_lt_zero _ hk
      simp [hqueue]

end Connection

namespace Server

variable {κ : Type}

/-- What is neither counted nor brings a message in changes the connection only. -/
theorem absorb_quiet (s : Server κ) (n : Nat) {o : Connection.Outcome κ}
    (hentries : o.2.filterMap Connection.Event.entry? = []) (hreceived : Connection.received o.2 = []) :
    s.absorb n o = ({ s with connections := s.connections.set n o.1 }, o.2.map (.connection n)) := by
  rw [absorb_eq, hentries, hreceived]
  rfl

/-! ### Changing connections and nothing else -/

/-- The server with every connection changed, by its number. -/
def mapped (f : Nat → Connection κ → Connection κ) (s : Server κ) : Server κ :=
  { s with connections := s.connections.mapIdx f }

section Mapped

variable {f g : Nat → Connection κ → Connection κ} {s : Server κ}

theorem getElem?_mapped (n : Nat) :
    (s.mapped f).connections[n]? = (s.connections[n]?).map (f n) := List.getElem?_mapIdx

/-- Only what becomes of the connections that are there matters. -/
theorem eq_mapped {cs : List (Connection κ)} (h : ∀ n, cs[n]? = (s.connections[n]?).map (f n)) :
    { s with connections := cs } = s.mapped f := by
  have hcs : cs = s.connections.mapIdx f :=
    List.ext_getElem? fun n => (h n).trans List.getElem?_mapIdx.symm
  rw [hcs]
  rfl

theorem mapped_eq_self (h : ∀ n c, f n c = c) : s.mapped f = s := by
  refine (eq_mapped fun n => ?_).symm
  rw [funext (h n), Option.map_id']

theorem mapped_mapped : (s.mapped f).mapped g = s.mapped fun n c => g n (f n c) := by
  refine eq_mapped (s := s) fun n => ?_
  rw [List.getElem?_mapIdx, getElem?_mapped, Option.map_map]
  rfl

/-- To change one connection is to change all of them, the others to what they are. -/
theorem set_eq_mapped {n : Nat} {c d : Connection κ} (hn : s.connections[n]? = some c) (hd : f n c = d)
    (hf : ∀ k e, k ≠ n → f k e = e) :
    { s with connections := s.connections.set n d } = s.mapped f := by
  refine eq_mapped fun k => ?_
  by_cases hk : k = n
  · subst hk
    rw [List.getElem?_set_self (List.getElem?_eq_some_iff.mp hn).1, hn, Option.map_some, hd]
  · rw [List.getElem?_set_ne (Ne.symm hk), funext (hf k · hk), Option.map_id']

end Mapped

/-! ### Taking up on all connections -/

/-- How many messages the application has posted to connection `n` that are not taken up. -/
def posts (s : Server κ) (n : Nat) : Nat := (s.connections[n]?).elim 0 (·.posted.length)

/-- The server after messages were taken up, so many on each connection. -/
def taken (k : Nat → Nat) (s : Server κ) : Server κ := s.mapped fun n => Connection.taken (k n)

/-- Messages are taken up, one after the other on the given connections. -/
def takings (ns : List Nat) : List (Action κ) := ns.map fun n => .connection n (.takeUp .application)

variable [Kind κ]

/-- One more is taken up on connection `n`. -/
theorem step_taken {s : Server κ} {n : Nat} {c : Connection κ} (hn : s.connections[n]? = some c)
    {k : Nat → Nat} (hk : k n < c.posted.length) :
    (s.taken k).step (.connection n (.takeUp .application)) =
      some (s.taken fun j => k j + if j = n then 1 else 0,
        (if c.isClosed then [] else [.enqueued c.posted[k n]]).map (.connection n)) := by
  have htaken : (s.taken k).connections[n]? = some (c.taken (k n)) := by
    rw [taken, getElem?_mapped, hn]
    rfl
  have hnext : { s.taken k with connections := (s.taken k).connections.set n (c.taken (k n + 1)) } =
      s.taken fun j => k j + if j = n then 1 else 0 := by
    refine eq_mapped (s := s) fun j => ?_
    by_cases hj : j = n
    · subst hj
      rw [List.getElem?_set_self (List.getElem?_eq_some_iff.mp htaken).1, hn]
      simp
    · rw [List.getElem?_set_ne (Ne.symm hj), taken, getElem?_mapped]
      simp [hj]
  have hstep : (s.taken k).step (.connection n (.takeUp .application)) =
      ((c.taken (k n)).takeUp .application).map ((s.taken k).absorb n) := by
    simp [step, Connection.Action.isOwners, Connection.step, htaken]
  rw [hstep, Connection.takeUp_taken hk, Option.map_some]
  by_cases hclosed : c.isClosed = true
  · rw [if_pos hclosed, absorb_quiet _ _ rfl rfl, hnext]
  · rw [if_neg hclosed, absorb_quiet _ _ rfl rfl, hnext]

/-- As many messages as were posted can be taken up on each connection, in any order; they are put into
the queue in the order in which they were posted. -/
theorem run_takings (s : Server κ) (ns : List Nat) (hns : ∀ n, ns.count n ≤ s.posts n) :
    ∃ es, s.run (takings ns) = some (s.taken (ns.count ·), es) ∧ reported es = [] ∧
      ∀ n, eventsOf n es = ((s.connections[n]?).elim [] (·.takenUp (ns.count n))).map .enqueued := by
  induction ns using List.reverseRecOn with
  | nil =>
    have hnone : s.taken (fun _ => 0) = s := mapped_eq_self fun _ => Connection.taken_zero
    refine ⟨[], congrArg (fun t => some (t, [])) hnone.symm, rfl, fun n => ?_⟩
    cases s.connections[n]? with
    | none => rfl
    | some c =>
      rw [Option.elim_some, List.count_nil, Connection.takenUp_zero]
      rfl
  | append_singleton ns j ih =>
    have hcount : ∀ n, (ns ++ [j]).count n = ns.count n + if n = j then 1 else 0 := by
      intro n
      rw [List.count_append]
      by_cases hn : n = j
      · simp [hn]
      · simp [hn, Ne.symm hn]
    obtain ⟨es, hrun, hreported, hevents⟩ := ih fun n =>
      Nat.le_trans (by rw [hcount]; exact Nat.le_add_right _ _) (hns n)
    -- there is such a connection, and a message left for it
    have hmore : ns.count j < s.posts j := by
      have hle := hns j
      rw [hcount, if_pos rfl] at hle
      exact hle
    obtain ⟨c, hc, hlt⟩ : ∃ c, s.connections[j]? = some c ∧ ns.count j < c.posted.length := by
      unfold posts at hmore
      cases hj : s.connections[j]? with
      | none => rw [hj] at hmore; exact absurd hmore (Nat.not_lt_zero _)
      | some c => rw [hj] at hmore; exact ⟨c, rfl, hmore⟩
    have htakings : takings (κ := κ) (ns ++ [j]) =
        takings ns ++ [.connection j (.takeUp .application)] := List.map_append
    have hall := Run.all_concat_eq_some_iff.mpr ⟨_, es, _, hrun, step_taken hc hlt, rfl⟩
    rw [← htakings, ← funext hcount] at hall
    refine ⟨_, hall, ?_, fun n => ?_⟩
    · rw [reported_append, hreported, reported_connection]
      rfl
    · rw [eventsOf_append, hevents, eventsOf_connection, hcount]
      by_cases hn : n = j
      · subst hn
        rw [hc, if_pos rfl, if_pos rfl]
        simp only [Option.elim_some]
        rw [Connection.takenUp_succ hlt, List.map_append]
        by_cases hclosed : c.isClosed = true <;> simp [hclosed]
      · rw [if_neg (Ne.symm hn), if_neg hn, List.append_nil]
        rfl

/-! ### Posting -/

section Post

variable (m : Message κ) (ns : List Nat) (s : Server κ)

omit [Kind κ]

/-- The server after the message was posted for the given connections. -/
def post : Server κ := s.mapped fun n c => if n ∈ ns then c.send .application m else c

theorem post_nil : s.post m [] = s := mapped_eq_self fun _ _ => if_neg List.not_mem_nil

variable {ns} in
/-- Posting for one connection and then for others is posting for all of them. -/
theorem post_post {n : Nat} (hn : n ∉ ns) : (s.post m [n]).post m ns = s.post m (n :: ns) := by
  refine mapped_mapped.trans (congrArg (Server.mapped · s) (funext fun k => funext fun c => ?_))
  by_cases hk : k = n
  · simp [hk, hn]
  · simp [hk]

theorem onConnection_send (n : Nat) :
    s.onConnection n (fun c => (c.send .application m, [])) = (s.post m [n], []) := by
  unfold onConnection
  split
  · next hn =>
    have hsame : { s with connections := s.connections } = s.post m [n] := by
      refine eq_mapped fun k => ?_
      by_cases hk : k = n
      · rw [hk, hn]
        rfl
      · simp [hk]
    rw [← hsame]
  · next c hn =>
    have hset : { s with connections := s.connections.set n (c.send .application m) } = s.post m [n] :=
      set_eq_mapped hn (if_pos List.mem_cons_self) fun k e hk => if_neg (by simpa using hk)
    rw [absorb_quiet _ _ rfl rfl, hset]
    rfl

/-- What sending keeps of a connection, posting keeps of all. -/
theorem has_post {P : Connection κ → Prop} (hP : ∀ c, P (c.send .application m) ↔ P c) (k : Nat) :
    (s.post m ns).Has P k ↔ s.Has P k := by
  unfold Has post
  rw [getElem?_mapped]
  cases s.connections[k]? with
  | none => simp
  | some c => by_cases hk : k ∈ ns <;> simp [hk, hP]

theorem idsOf_post : (s.post m ns).idsOf = s.idsOf := by
  have hid : ∀ c : Connection κ, (c.send .application m).id = c.id := fun c => by
    unfold Connection.send
    split <;> rfl
  funext k
  unfold idsOf post
  rw [getElem?_mapped]
  cases s.connections[k]? with
  | none => rfl
  | some c => by_cases hk : k ∈ ns <;> simp [hk, hid]

end Post

/-! ### The way through the registry -/

/-- Those of the connections that are not connected. -/
def gone (s : Server κ) (ns : List Nat) : List Nat :=
  ns.filter fun n => s.Has (fun c => c.isConnected = false) n

/-- Those of the connections that a message is for. -/
def addressees (s : Server κ) (exclude : Option Nat) (ns : List Nat) : List Nat :=
  ns.filter fun n => s.Connected n ∧ exclude ≠ some n

section Sweep

variable {s : Server κ} {n : Nat} {ns : List Nat} {exclude : Option Nat}

omit [Kind κ]

theorem isConnected_send (c : Connection κ) (m : Message κ) :
    (c.send .application m).isConnected = c.isConnected := by
  unfold Connection.send
  split <;> rfl

theorem gone_post (m : Message κ) (ms : List Nat) : (s.post m ms).gone ns = s.gone ns := by
  refine List.filter_congr fun k _ => ?_
  rw [decide_eq_decide]
  exact has_post m ms s (fun c => by rw [isConnected_send]) k

theorem addressees_post (m : Message κ) (ms : List Nat) :
    (s.post m ms).addressees exclude ns = s.addressees exclude ns := by
  refine List.filter_congr fun k _ => ?_
  rw [decide_eq_decide]
  exact and_congr_left' (has_post m ms s (fun c => by rw [isConnected_send]) k)

theorem gone_cons_of_gone (h : s.Has (fun c => c.isConnected = false) n) :
    s.gone (n :: ns) = n :: s.gone ns := List.filter_cons_of_pos (decide_eq_true h)

theorem gone_cons_of_not (h : ¬s.Has (fun c => c.isConnected = false) n) :
    s.gone (n :: ns) = s.gone ns := List.filter_cons_of_neg (by simpa using h)

theorem addressees_cons_of_not (h : ¬(s.Connected n ∧ exclude ≠ some n)) :
    s.addressees exclude (n :: ns) = s.addressees exclude ns :=
  List.filter_cons_of_neg (by simpa using h)

theorem addressees_cons (h : s.Connected n) (hexclude : exclude ≠ some n) :
    s.addressees exclude (n :: ns) = n :: s.addressees exclude ns :=
  List.filter_cons_of_pos (decide_eq_true ⟨h, hexclude⟩)

end Sweep

/-- If the handler is done each time it is told of a connection, the call posts the message for those
it is for, tells of all that are gone, and returns. -/
theorem sweep_returns (m : Message κ) (exclude : Option Nat) {ns : List Nat} (hns : ns.Nodup)
    (dead : List UInt32) (s : Server κ) :
    ∃ es, (sweep m exclude ns dead s).1.run (List.replicate (s.gone ns).length .resume) =
        some ((s.post m (s.addressees exclude ns)).prune (dead ++ (s.gone ns).flatMap s.idsOf), es) ∧
      (sweep m exclude ns dead s).2 ++ es =
        (s.gone ns).map .disconnected ++ [.returned none] := by
  induction ns generalizing s dead with
  | nil =>
    refine ⟨[], ?_, rfl⟩
    have hpost : s.post m (s.addressees exclude []) = s := post_nil m s
    rw [hpost, show s.gone [] = [] from rfl, List.flatMap_nil, List.append_nil]
    rfl
  | cons n ns ih =>
    obtain ⟨hn, hns⟩ := List.nodup_cons.mp hns
    unfold sweep
    split
    · next hnone =>
      rw [gone_cons_of_not (not_has hnone), addressees_cons_of_not fun h => not_has hnone h.1]
      exact ih hns dead s
    · next c hc =>
      split
      · next hconnected =>
        have hgone : ¬s.Has (fun c => c.isConnected = false) n := by
          rw [has_iff hc, hconnected]
          exact Bool.noConfusion
        rw [gone_cons_of_not hgone]
        split
        · next hexclude =>
          rw [addressees_cons_of_not fun h => h.2 hexclude]
          exact ih hns dead s
        · next hexclude =>
          have hlater : n ∉ s.addressees exclude ns := fun h => hn (List.mem_of_mem_filter h)
          have hrest := ih hns dead (s.post m [n])
          rw [gone_post, addressees_post, post_post m s hlater, idsOf_post] at hrest
          rw [addressees_cons ⟨c, hc, hconnected⟩ hexclude, onConnection_send]
          exact hrest
      · next hclosed =>
        have hgone : s.Has (fun c => c.isConnected = false) n :=
          (has_iff hc).mpr (Bool.eq_false_iff.mpr hclosed)
        have hfor : ¬(s.Connected n ∧ exclude ≠ some n) := fun h => hclosed ((has_iff hc).mp h.1)
        obtain ⟨es, hrun, hes⟩ := ih hns (dead ++ s.idsOf n) s
        rw [gone_cons_of_gone hgone, addressees_cons_of_not hfor, List.length_cons,
          List.replicate_succ, List.flatMap_cons, ← List.append_assoc]
        -- the handler is told of the connection, and the call goes on when it is done
        refine ⟨(sweep m exclude ns (dead ++ s.idsOf n) s).2 ++ es, ?_, ?_⟩
        · exact Run.all_cons_eq_some_iff.mpr ⟨_, _, es, rfl, hrun, rfl⟩
        · rw [hes]
          rfl

/-! ### Servers side by side -/

/-- One of several servers makes a step. -/
def stepAt (servers : List (Server κ)) (a : Nat × Action κ) :
    Option (List (Server κ) × List (Nat × Event κ)) :=
  servers[a.1]?.bind fun s =>
    (s.step a.2).map fun o => (servers.set a.1 o.1, o.2.map (a.1, ·))

/-- What one server does among others is what it does alone. -/
theorem run_stepAt {servers : List (Server κ)} {i : Nat} {s t : Server κ} {as : List (Action κ)}
    {es : List (Event κ)} (hi : servers[i]? = some s) (hrun : s.run as = some (t, es)) :
    Run.all stepAt servers (as.map (i, ·)) = some (servers.set i t, es.map (i, ·)) := by
  have hlt := (List.getElem?_eq_some_iff.mp hi).1
  induction as generalizing servers s es with
  | nil =>
    cases hrun
    have hsame : servers.set i t = servers := by
      rw [← (List.getElem?_eq_some_iff.mp hi).2]
      exact List.set_getElem_self hlt
    rw [hsame]
    rfl
  | cons a as ih =>
    obtain ⟨s', es₁, es₂, hstep, hrest, rfl⟩ := Run.all_cons_eq_some_iff.mp hrun
    have hnext : stepAt servers (i, a) = some (servers.set i s', es₁.map (i, ·)) := by
      simp only [stepAt, hi, Option.bind_some, hstep, Option.map_some]
    have hrest' := ih (List.getElem?_set_self hlt) hrest (by rwa [List.length_set])
    rw [List.set_set] at hrest'
    exact Run.all_cons_eq_some_iff.mpr ⟨_, _, _, hnext, hrest', List.map_append⟩

/-! ### The whole of it -/

/-- A message to all, whose handler is done `j` times without having done anything. -/
def broadcasting (m : Message κ) (exclude : Option Nat) (j : Nat) : List (Action κ) :=
  .broadcast m exclude :: List.replicate j .resume

/-- A message to all but `exclude` is for connection `n`. -/
def Addressed (s : Server κ) (exclude : Option Nat) (n : Nat) : Prop :=
  n ∈ s.registry.numbers ∧ s.Connected n ∧ exclude ≠ some n

instance (s : Server κ) (exclude : Option Nat) (n : Nat) : Decidable (s.Addressed exclude n) :=
  inferInstanceAs (Decidable (_ ∧ _))

/-- What a message to all but one has made of server `s` when it has returned and the messages that
were posted by the application have been taken up on the connections `ns`, one for each time a
connection is among them: `fs` happened in the call and `gs` afterwards. -/
structure Spread (s u : Server κ) (m : Message κ) (exclude : Option Nat) (ns : List Nat)
    (fs gs : List (Event κ)) : Prop where
  /-- On a connection it is for, the message was put into the queue once, behind all that was posted
  before. -/
  enqueued_addressed : ∀ n c, s.connections[n]? = some c → s.Addressed exclude n →
    Connection.enqueued (eventsOf n (fs ++ gs)) = c.posted ++ [m]
  /-- On any other it was not put into the queue; what had been posted for it before may have been. -/
  enqueued_other : ∀ n c, s.connections[n]? = some c → ¬s.Addressed exclude n →
    Connection.enqueued (eventsOf n (fs ++ gs)) = c.takenUp (ns.count n)
  /-- Where nothing was taken up, nothing happened. -/
  alone : ∀ n ∉ ns, u.connections[n]? = s.connections[n]? ∧ eventsOf n (fs ++ gs) = []
  /-- The queue is the one from before with what was put into it behind; phase and id of the
  connection are what they were, and so is everything else but what is left to take up and a write
  chain that starts. -/
  connection : ∀ n c, s.connections[n]? = some c → ∃ c', u.connections[n]? = some c' ∧
    c'.outbound.toList = c.outbound.toList ++ Connection.enqueued (eventsOf n (fs ++ gs)) ∧
    c'.phase = c.phase ∧ c'.id = c.id ∧
    c' = { c with posted := c'.posted, outbound := c'.outbound, chains := c'.chains }
  /-- The handler was told once of every registered connection that is closed, and of no other. -/
  told : ∀ n, (reported (fs ++ gs)).count n = if n ∈ s.registry.numbers ∧ s.Closed n then 1 else 0
  /-- There is no connection more or less, and nothing else of the server has changed, but that the
  ids of the connections that were reported are set aside. -/
  rest : u.connections.length = s.connections.length ∧
    u = { s with
      connections := u.connections
      registry := (Registry.move ((reported fs).flatMap s.idsOf) s.registry s.retired).1
      retired := (Registry.move ((reported fs).flatMap s.idsOf) s.registry s.retired).2 }

/-- What happens in a message to all: the handler is told of every registered connection that is gone,
and the call returns. -/
def notices (s : Server κ) : List (Event κ) :=
  (s.gone s.registry.numbers).map .disconnected ++ [.returned none]

/-- The server when a message to all has returned. -/
def posted (m : Message κ) (exclude : Option Nat) (s : Server κ) : Server κ :=
  (s.post m (s.addressees exclude s.registry.numbers)).prune
    ((s.gone s.registry.numbers).flatMap s.idsOf)

section Broadcast

variable {s : Server κ} {m : Message κ} {exclude : Option Nat}

/-- The call posts the message, tells of those that are gone, sets their ids aside and returns. -/
theorem run_broadcasting (m : Message κ) (exclude : Option Nat) (hs : s.registry.numbers.Nodup) :
    s.run (broadcasting m exclude (s.gone s.registry.numbers).length) =
      some (s.posted m exclude, s.notices) := by
  obtain ⟨rs, hresumes, hfs⟩ := sweep_returns m exclude hs [] s
  unfold notices
  rw [← hfs]
  exact Run.all_cons_eq_some_iff.mpr ⟨_, _, rs, rfl, hresumes, rfl⟩

omit [Kind κ]

theorem mem_addressees {n : Nat} :
    n ∈ s.addressees exclude s.registry.numbers ↔ s.Addressed exclude n := by
  simp [addressees, Addressed]

theorem isClosed_of_connected {n : Nat} {c : Connection κ} (hn : s.connections[n]? = some c)
    (h : s.Connected n) : c.isClosed = false := by
  have hconnected := (has_iff hn).mp h
  rw [Bool.eq_false_iff]
  intro hclosed
  rw [Connection.isConnected, Connection.isClosed_iff.mp hclosed] at hconnected
  cases hconnected

theorem getElem?_posted (n : Nat) : (s.posted m exclude).connections[n]? =
    (s.connections[n]?).map fun c => if s.Addressed exclude n then c.send .application m else c := by
  have hpost : (s.posted m exclude).connections[n]? = _ := getElem?_mapped n
  rw [hpost]
  simp only [mem_addressees]

/-- On every connection that a message is for, it waits behind what was posted before, and nothing else
has changed. -/
theorem getElem?_posted_of_some (hs : Attending s) {n : Nat} {c : Connection κ}
    (hn : s.connections[n]? = some c) :
    (s.posted m exclude).connections[n]? =
      some { c with posted := c.posted ++ if s.Addressed exclude n then [m] else [] } := by
  rw [getElem?_posted, hn, Option.map_some]
  by_cases haddressed : s.Addressed exclude n
  · have hopen := isClosed_of_connected hn haddressed.2.1
    have hattended := (has_iff hn).mp (hs n haddressed.1)
    have hthread : c.attended = true := hattended.resolve_left fun hclosed => by
      rw [Connection.isClosed_iff.mpr hclosed] at hopen
      cases hopen
    rw [if_pos haddressed, if_pos haddressed]
    simp [Connection.send, hopen, hthread]
  · rw [if_neg haddressed, if_neg haddressed, List.append_nil]

theorem posts_posted (hs : Attending s) (n : Nat) :
    (s.posted m exclude).posts n = s.posts n + if s.Addressed exclude n then 1 else 0 := by
  unfold posts
  cases hn : s.connections[n]? with
  | none =>
    have hnot : ¬s.Addressed exclude n := fun h => not_has hn h.2.1
    rw [getElem?_posted, hn, if_neg hnot]
    rfl
  | some c =>
    rw [getElem?_posted_of_some hs hn]
    by_cases haddressed : s.Addressed exclude n <;> simp [haddressed]

/-- The connections that are gone are those that are closed. -/
theorem count_gone (hs : Regular s) (hkeyed : Keyed s.core false) (n : Nat) :
    (s.gone s.registry.numbers).count n = if n ∈ s.registry.numbers ∧ s.Closed n then 1 else 0 := by
  have hnodup : (s.gone s.registry.numbers).Nodup := hkeyed.nodup_numbers.filter _
  have hclosed : s.Has (fun c => c.isConnected = false) n ↔ s.Closed n := by
    constructor
    · rintro ⟨c, hc, hgone⟩
      exact hs.closed_of_not_isConnected hc (Bool.eq_false_iff.mp hgone)
    · exact fun h => h.imp fun c hc => by rw [Connection.isConnected, hc]; rfl
  rw [hnodup.count]
  simp only [gone, List.mem_filter, decide_eq_true_eq, hclosed]

theorem reported_notices : reported s.notices = s.gone s.registry.numbers := by
  have htold : ∀ ns : List Nat, reported (κ := κ) (ns.map .disconnected) = ns := fun ns => by
    unfold reported
    rw [List.filterMap_map]
    exact List.filterMap_some
  rw [notices, reported_append, htold]
  exact List.append_nil _

theorem eventsOf_notices (n : Nat) : eventsOf n s.notices = [] := by
  refine eventsOf_aside (fun e he => ?_) n
  rcases List.mem_append.mp he with he | he
  · obtain ⟨-, -, rfl⟩ := List.mem_map.mp he
    rfl
  · cases List.mem_singleton.mp he
    rfl

/-- What becomes of the server when, after the call, messages are taken up on the connections. -/
theorem spread_taken (hregular : Regular s) (hkeyed : Keyed s.core false) (hattending : Attending s)
    {ns : List Nat} (hall : ∀ n, s.Addressed exclude n → ns.count n = s.posts n + 1)
    {gs : List (Event κ)} (hsilent : reported gs = [])
    (hevents : ∀ n, eventsOf n gs = (((s.posted m exclude).connections[n]?).elim []
      (·.takenUp (ns.count n))).map .enqueued) :
    Spread s ((s.posted m exclude).taken (ns.count ·)) m exclude ns s.notices gs := by
  have hof : ∀ n, eventsOf n (s.notices ++ gs) = eventsOf n gs := fun n => by
    rw [eventsOf_append, eventsOf_notices, List.nil_append]
  have hafter : ∀ n, ((s.posted m exclude).taken (ns.count ·)).connections[n]? =
      ((s.posted m exclude).connections[n]?).map (Connection.taken (ns.count n)) := fun n =>
    getElem?_mapped n
  have henqueued : ∀ n c, s.connections[n]? = some c →
      Connection.enqueued (eventsOf n (s.notices ++ gs)) =
        Connection.takenUp (ns.count n)
          { c with posted := c.posted ++ if s.Addressed exclude n then [m] else [] } := by
    intro n c hn
    rw [hof, hevents, getElem?_posted_of_some hattending hn]
    exact Connection.enqueued_map _
  constructor
  case enqueued_addressed =>
    intro n c hn h
    have hopen := isClosed_of_connected hn h.2.1
    have hcount : ns.count n = c.posted.length + 1 := by
      rw [hall n h, posts, hn]
      rfl
    rw [henqueued n c hn, if_pos h, hcount, Connection.takenUp]
    exact (if_neg (Bool.eq_false_iff.mp hopen)).trans (List.take_of_length_le (by simp))
  case enqueued_other =>
    intro n c hn h
    rw [henqueued n c hn, if_neg h, List.append_nil]
  case alone =>
    intro n hn
    have hcount : ns.count n = 0 := List.count_eq_zero.mpr hn
    have hother : ¬s.Addressed exclude n := fun h => by
      have hone := hall n h
      omega
    constructor
    · rw [hafter, getElem?_posted, hcount, funext Connection.taken_zero, Option.map_id']
      simp only [if_neg hother, Option.map_id']
    · rw [hof, hevents, hcount]
      cases (s.posted m exclude).connections[n]? with
      | none => rfl
      | some c => rw [Option.elim_some, Connection.takenUp_zero, List.map_nil]
  case connection =>
    intro n c hn
    refine ⟨_, (hafter n).trans (congrArg _ (getElem?_posted_of_some hattending hn)), ?_⟩
    rw [henqueued n c hn]
    exact ⟨Connection.toList_outbound_taken _ _, Connection.phase_taken _ _,
      Connection.id_taken _ _, Connection.taken_eq _ _⟩
  case told =>
    intro n
    rw [reported_append, reported_notices, hsilent, List.append_nil]
    exact count_gone hregular hkeyed n
  case rest =>
    refine ⟨List.length_mapIdx.trans List.length_mapIdx, ?_⟩
    rw [reported_notices]
    rfl

end Broadcast

/-- **A message to all but one reaches each connection it is for once**, behind all that was posted
there before, and no other connection; the handler, which is done each time without having done
anything, is told of those that are closed.  Servers beside this one are left alone.  What is taken up
afterwards is all that waits on the connections the message is for, and on others what may wait there
from before. -/
theorem broadcast_delivers {settings : ServerSettings} {transport : TransportSettings}
    {entropy : Source} {as : List (Action κ)} {s : Server κ} {es : List (Event κ)}
    (hrun : (create settings transport entropy).run as = some (s, es)) (m : Message κ)
    (exclude : Option Nat) {ns : List Nat}
    (hns : ∀ n, ns.count n ≤ s.posts n + if s.Addressed exclude n then 1 else 0)
    (hall : ∀ n, s.Addressed exclude n → ns.count n = s.posts n + 1) :
    ∃ t fs u gs, s.run (broadcasting m exclude (reported fs).length) = some (t, fs) ∧
      t.run (takings ns) = some (u, gs) ∧ Spread s u m exclude ns fs gs ∧
      ∀ (servers : List (Server κ)) (i : Nat), servers[i]? = some s →
        Run.all stepAt servers
            ((broadcasting m exclude (reported fs).length ++ takings ns).map (i, ·)) =
          some (servers.set i u, (fs ++ gs).map (i, ·)) := by
  obtain ⟨hregular, hkeyed, -⟩ := keyed_run hrun
  have hattending := attending_run hrun
  have hcall := run_broadcasting m exclude hkeyed.nodup_numbers
  obtain ⟨gs, htakings, hsilent, hevents⟩ := run_takings (s.posted m exclude) ns fun n =>
    Nat.le_trans (hns n) (Nat.le_of_eq (posts_posted hattending n).symm)
  rw [← reported_notices] at hcall
  exact ⟨_, _, _, gs, hcall, htakings, spread_taken hregular hkeyed hattending hall hsilent hevents,
    fun servers i hi => run_stepAt hi (Run.all_append_of_eq_some hcall htakings)⟩

/-- A message to all but the last of four clients, the second of which has not answered yet and the third
of which is gone: it waits behind an older one for the first client, which is open, and alone for the
second, and of the third the handler is told. -/
theorem broadcast_delivers_mixed :
    let m₀ : Message GameTag := ⟨⟨.chat, 1⟩, [7], rfl⟩
    let m : Message GameTag := ⟨⟨.chat, 2⟩, [7, 8], rfl⟩
    let as : List (Action GameTag) :=
      [.start .loopback 0, .accept [] true, .accept [] true, .accept [] true, .accept [] true,
        .connection 0 (.turn .ready), .connection 0 (.turn (.wrote 8)),
        .connection 0 (.arrive (Bytes.ofWord (scramble 0))), .connection 0 (.turn .ready),
        .connection 0 (.turn .ready), .messageClient 0 m₀,
        .connection 2 (.perform .application .disconnect)]
    ∃ s es t fs u gs, (create {} {} fun _ => 0).run as = some (s, es) ∧
      (s.connections[0]?).any (·.phase = .opened) ∧ (s.connections[1]?).any (·.phase = .validating) ∧
      s.run (broadcasting m (some 3) (reported fs).length) = some (t, fs) ∧
      t.run (takings [1, 0, 0]) = some (u, gs) ∧
      Connection.enqueued (eventsOf 0 (fs ++ gs)) = [m₀, m] ∧
      Connection.enqueued (eventsOf 1 (fs ++ gs)) = [m] ∧
      eventsOf 3 (fs ++ gs) = [] ∧ (reported (fs ++ gs)).count 2 = 1 := by
  intro m₀ m as
  have hruns : ((create {} {} fun _ => 0).run as).any (fun o =>
      o.1.registry.numbers == [0, 1, 2, 3] &&
      (o.1.connections[0]?).any (fun c => c.phase == .opened && c.posted == [m₀]) &&
      (o.1.connections[1]?).any (fun c => c.phase == .validating && c.posted == []) &&
      decide (o.1.Addressed (some 3) 0) && decide (o.1.Addressed (some 3) 1) &&
      decide (o.1.Closed 2)) = true := by
    decide +kernel
  obtain ⟨⟨s, es⟩, hrun, hlast⟩ := (Option.any_eq_true _ _).mp hruns
  simp only [Bool.and_eq_true, Option.any_eq_true, beq_iff_eq, decide_eq_true_eq] at hlast
  obtain ⟨⟨⟨⟨⟨hnumbers, c₀, hc₀, hopened, hposted₀⟩, c₁, hc₁, hvalidating, hposted₁⟩, hfor₀⟩, hfor₁⟩,
    hclosed⟩ := hlast
  have hposts₀ : s.posts 0 = 1 := by rw [posts, hc₀, Option.elim_some, hposted₀]; rfl
  have hposts₁ : s.posts 1 = 0 := by rw [posts, hc₁, Option.elim_some, hposted₁]; rfl
  have hone : ∀ n, s.Addressed (some 3) n → n = 0 ∨ n = 1 := by
    rintro n ⟨hn, ⟨c, hc, hconnected⟩, hexclude⟩
    rw [hnumbers] at hn
    have htwo : n ≠ 2 := by
      rintro rfl
      rw [Connection.isConnected, (has_iff hc).mp hclosed] at hconnected
      cases hconnected
    simp only [List.mem_cons, List.not_mem_nil, or_false] at hn
    have hthree : n ≠ 3 := fun h => hexclude (congrArg some h.symm)
    omega
  have hns : ∀ n, [1, 0, 0].count n ≤ s.posts n + if s.Addressed (some 3) n then 1 else 0 := by
    intro n
    by_cases hn : n ∈ [1, 0, 0]
    · have hn' : n = 1 ∨ n = 0 := by simpa using hn
      rcases hn' with rfl | rfl
      · rw [hposts₁, if_pos hfor₁]; decide
      · rw [hposts₀, if_pos hfor₀]; decide
    · rw [List.count_eq_zero.mpr hn]
      exact Nat.zero_le _
  have hall : ∀ n, s.Addressed (some 3) n → [1, 0, 0].count n = s.posts n + 1 := by
    intro n hn
    rcases hone n hn with rfl | rfl
    · rw [hposts₀]; rfl
    · rw [hposts₁]; rfl
  obtain ⟨t, fs, u, gs, hcall, htakings, hspread, -⟩ := broadcast_delivers hrun m (some 3) hns hall
  refine ⟨s, es, t, fs, u, gs, hrun, ?_, ?_, hcall, htakings, ?_, ?_, ?_, ?_⟩
  · rw [hc₀, Option.any_some, hopened]; rfl
  · rw [hc₁, Option.any_some, hvalidating]; rfl
  · rw [hspread.enqueued_addressed 0 c₀ hc₀ hfor₀, hposted₀]; rfl
  · rw [hspread.enqueued_addressed 1 c₁ hc₁ hfor₁, hposted₁]; rfl
  · exact (hspread.alone 3 (by decide)).2
  · rw [hspread.told 2, if_pos ⟨by rw [hnumbers]; decide, hclosed⟩]

end Server
end Parley
