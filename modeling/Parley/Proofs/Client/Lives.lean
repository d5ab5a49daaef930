import Parley.Client
import Parley.Proofs.Connection.Lifecycle

/-!
# Parley.Proofs.Client.Lives — every connection of a client is sound

A step of a client is a chain of acts: a step of its connection, the end of it, or the beginning of
another one (`acts_of_step`).  So each connection that lives or has lived since the history begins
has lived a life of its own (`Lives`).
-/

namespace Parley.Client

variable {κ : Type}

/-- What happened to the `k`-th connection. -/
def eventsOf (k : Nat) (es : List (Event κ)) : List (Connection.Event κ) :=
  es.filterMap fun e => if e.n = k then some e.event else none

@[simp] theorem eventsOf_append (k : Nat) (es fs : List (Event κ)) :
    eventsOf k (es ++ fs) = eventsOf k es ++ eventsOf k fs := List.filterMap_append

theorem eventsOf_map (k n : Nat) (ces : List (Connection.Event κ)) :
    eventsOf k (ces.map (⟨n, ·⟩)) = if n = k then ces else [] := by
  rw [eventsOf, List.filterMap_map]
  split
  · next h =>
    have hof : (fun e : Event κ => if e.n = k then some e.event else none) ∘
        (fun e => (⟨n, e⟩ : Event κ)) = some := by
      funext e
      exact if_pos h
    rw [hof, List.filterMap_some]
  · next h => exact List.filterMap_eq_nil_iff.mpr fun e _ => if_neg h

/-! ### Acts -/

/-- Counting events and queueing messages is all that happens to a client besides. -/
theorem foldl_note (es : List (Connection.Event κ)) (c : Client κ) :
    ∃ metrics inbound, es.foldl note c = { c with metrics := metrics, inbound := inbound } ∧
      inbound.toList = c.inbound.toList ++ (Connection.received es).map (⟨none, ·⟩) := by
  induction es generalizing c with
  | nil => exact ⟨c.metrics, c.inbound, rfl, (List.append_nil _).symm⟩
  | cons e es ih =>
    rw [List.foldl_cons]
    obtain ⟨metrics, inbound, hes, hqueue⟩ := ih (note c e)
    refine ⟨metrics, inbound, hes.trans ?_, hqueue.trans ?_⟩
    · cases e <;> rfl
    · cases e with
      | received m =>
        show (c.inbound.pushBack ⟨none, m⟩).toList ++ _ = _
        rw [Deque.toList_pushBack, List.append_assoc]
        rfl
      | _ => rfl

@[simp] theorem past_absorb (c : Client κ) (o : Connection.Outcome κ) :
    (c.absorb o).1.past = c.past := by
  obtain ⟨metrics, inbound, h, -⟩ := foldl_note o.2 { c with connection := some o.1 }
  rw [absorb, h]

@[simp] theorem connection_absorb (c : Client κ) (o : Connection.Outcome κ) :
    (c.absorb o).1.connection = some o.1 := by
  obtain ⟨metrics, inbound, h, -⟩ := foldl_note o.2 { c with connection := some o.1 }
  rw [absorb, h]

/-- What the connection reads is put into the inbound queue, and nothing else is. -/
theorem inbound_absorb (c : Client κ) (o : Connection.Outcome κ) :
    (c.absorb o).1.inbound.toList =
      c.inbound.toList ++ (Connection.received o.2).map (⟨none, ·⟩) := by
  obtain ⟨metrics, inbound, h, hqueue⟩ := foldl_note o.2 { c with connection := some o.1 }
  rw [absorb, h]
  exact hqueue

/-- What happens is counted, and nothing else is. -/
theorem metrics_foldl_note (es : List (Connection.Event κ)) (c : Client κ) :
    (es.foldl note c).metrics = c.metrics.recordAll (Connection.entries es) := by
  induction es generalizing c with
  | nil => rfl
  | cons e es ih =>
    rw [List.foldl_cons, ih]
    cases e <;> rfl

theorem metrics_absorb (c : Client κ) (o : Connection.Outcome κ) :
    (c.absorb o).1.metrics = c.metrics.recordAll (Connection.entries o.2) :=
  metrics_foldl_note o.2 { c with connection := some o.1 }

/-! ### Connecting -/

/-- An address was found. -/
def finds : Except String (List Address) → Bool
  | .ok (_ :: _) => true
  | _ => false

/-- What connecting begins with: a client gives up the connection it has. -/
def dropped (c : Client κ) : Outcome κ :=
  if c.connection.isSome || c.attended then c.disconnect else (c, [])

theorem dropped_cases (c : Client κ) :
    c.dropped = c.disconnect ∨
      (c.connection = none ∧ c.attended = false ∧ c.dropped = (c, [])) := by
  unfold dropped
  by_cases hidle : (c.connection.isSome || c.attended) = true
  · rw [if_pos hidle]
    exact .inl rfl
  · rw [if_neg hidle]
    simp only [Bool.or_eq_true, not_or, Bool.not_eq_true, Option.isSome_eq_false_iff,
      Option.isNone_iff_eq_none] at hidle
    exact .inr ⟨hidle.1, hidle.2, rfl⟩

section Connecting

variable (c : Client κ) (host : String) (portNumber : UInt16) {found : Except String (List Address)}

/-- If an address was found, there is a new connection, -/
theorem connect_of_finds (h : finds found = true) :
    c.connect host portNumber found =
      (({ c.dropped.1 with connection := some (.outgoing c.limit), attended := true },
        c.dropped.2), none) := by
  match found, h with
  | .ok (_ :: _), _ => rfl

/-- and otherwise a fault. -/
theorem connect_of_not_finds (h : finds found = false) :
    ∃ e, c.connect host portNumber found = (c.dropped, some e) := by
  match found, h with
  | .error _, _ => exact ⟨_, rfl⟩
  | .ok [], _ => exact ⟨_, rfl⟩

end Connecting

/-- The bytes an action brings in to the `k`-th connection. -/
def Action.brings (c : Client κ) : Action κ → Nat → List UInt8
  | .connection a, k => if k = c.current then a.brings else []
  | _, _ => []

variable [Kind κ]

/-- One act of a client: the bytes that arrive at each connection, the client afterwards, and what
happened. -/
inductive Act (c : Client κ) : (Nat → List UInt8) → Client κ → List (Event κ) → Prop where
  /-- A step of the connection. -/
  | connection {c' : Client κ} {x : Connection κ} {a : Connection.Action κ}
    {o : Connection.Outcome κ} (hx : c.connection = some x) (hstep : x.step a = some o)
    (hpast : c'.past = c.past) (hconn : c'.connection = some o.1) :
    Act c (fun k => if k = c.current then a.brings else []) c' (o.2.map (⟨c.current, ·⟩))
  /-- The connection is closed and set aside. -/
  | leave {c' : Client κ} {x : Connection κ} (hx : c.connection = some x)
    (hpast : c'.past = c.past ++ [x.close.1.abort]) (hconn : c'.connection = none) :
    Act c (fun _ => []) c' (x.close.2.map (⟨c.current, ·⟩))
  /-- There is another connection. -/
  | begin {c' : Client κ} {limit : Nat} (hnone : c.connection = none) (hpast : c'.past = c.past)
    (hconn : c'.connection = some (.outgoing limit)) : Act c (fun _ => []) c' []
  /-- Nothing happens that matters here. -/
  | aside {c' : Client κ} (hpast : c'.past = c.past) (hconn : c'.connection = c.connection) :
    Act c (fun _ => []) c' []

/-- Acts one after the other. -/
inductive Acts (c : Client κ) : (Nat → List UInt8) → Client κ → List (Event κ) → Prop where
  | refl : Acts c (fun _ => []) c []
  | tail {br br' : Nat → List UInt8} {c' c'' : Client κ} {es es' : List (Event κ)}
    (h : Acts c br c' es) (hact : Act c' br' c'' es') :
    Acts c (fun k => br k ++ br' k) c'' (es ++ es')

theorem Acts.single {c c' : Client κ} {br : Nat → List UInt8} {es : List (Event κ)}
    (h : Act c br c' es) : Acts c br c' es := by
  simpa using Acts.refl.tail h

theorem act_disconnect (c : Client κ) :
    Act c (fun _ => []) c.disconnect.1 c.disconnect.2 ∧ c.disconnect.1.connection = none := by
  unfold disconnect
  split
  · next hnone => exact ⟨.aside rfl rfl, hnone⟩
  · next x hx =>
    exact ⟨.leave hx rfl rfl, rfl⟩

theorem acts_connect (c : Client κ) (host : String) (portNumber : UInt16)
    (found : Except String (List Address)) :
    Acts c (fun _ => []) (c.connect host portNumber found).1.1
      (c.connect host portNumber found).1.2 := by
  obtain ⟨hact, hnone⟩ : Act c (fun _ => []) c.dropped.1 c.dropped.2 ∧
      c.dropped.1.connection = none := by
    rcases c.dropped_cases with hleft | ⟨hnone, -, hstays⟩
    · rw [hleft]
      exact act_disconnect c
    · rw [hstays]
      exact ⟨.aside rfl rfl, hnone⟩
  cases hfound : finds found with
  | false =>
    obtain ⟨e, he⟩ := c.connect_of_not_finds host portNumber hfound
    rw [he]
    exact .single hact
  | true =>
    rw [c.connect_of_finds host portNumber hfound]
    have hbegin : Act c.dropped.1 (fun _ => [])
        { c.dropped.1 with connection := some (.outgoing c.limit), attended := true } [] :=
      .begin hnone rfl rfl
    have hall := (Acts.single hact).tail hbegin
    simpa only [List.append_nil] using hall

/-- **Every step of a client is a chain of acts.** -/
theorem acts_of_step {c : Client κ} {a : Action κ} {o : Outcome κ} (h : c.step a = some o) :
    Acts c (a.brings c) o.1 o.2 := by
  cases a with
  | connect host portNumber found =>
    cases h
    exact acts_connect c host portNumber found
  | disconnect =>
    cases h
    exact .single (act_disconnect c).1
  | send m =>
    cases h
    cases hx : c.connection with
    | none => exact .single (.aside rfl (by simp [send, hx]))
    | some x =>
      have hact : Act c (fun k => if k = c.current then [] else []) (c.send m) [] :=
        .connection (a := .perform .application (.send m)) hx rfl rfl (by simp [send, hx]; rfl)
      simp only [ite_self] at hact
      exact .single hact
  | take =>
    obtain ⟨p, -, rfl⟩ := Option.map_eq_some_iff.mp h
    exact .single (.aside rfl rfl)
  | connection a =>
    simp only [step] at h
    split at h
    · cases h
    · obtain ⟨x, hx, hstep⟩ := Option.bind_eq_some_iff.mp h
      obtain ⟨o', hstep', rfl⟩ := Option.map_eq_some_iff.mp hstep
      exact .single (.connection hx hstep' (past_absorb c o') (connection_absorb c o'))

/-! ### Lives -/

open Connection (Sound sound_outgoing)

variable {c c' : Client κ} {br br' : Nat → List UInt8} {es es' : List (Event κ)}

/-- Every connection is sound for the bytes that arrived and what happened to it, but for those that
were over before the history began; and nothing happened to connections that do not exist. -/
structure Lives (c : Client κ) (br : Nat → List UInt8) (es : List (Event κ)) : Prop where
  former : ∀ k x, c.past[k]? = some x → eventsOf k es = [] ∨ Sound x (br k) (eventsOf k es)
  present : ∀ x, c.connection = some x → Sound x (br c.current) (eventsOf c.current es)
  later : ∀ k, c.current + c.connection.toList.length ≤ k → br k = [] ∧ eventsOf k es = []

theorem Lives.start (hnone : c.connection = none) : Lives c (fun _ => []) [] where
  former _ _ _ := .inl rfl
  present x hx := by
    rw [hnone] at hx
    cases hx
  later _ _ := ⟨rfl, rfl⟩

/-- The connection makes a step. -/
theorem Lives.connection (h : Lives c br es) {x : Connection κ} {a : Connection.Action κ}
    {o : Connection.Outcome κ} (hx : c.connection = some x) (hstep : x.step a = some o)
    (hpast : c'.past = c.past) (hconn : c'.connection = some o.1) :
    Lives c' (fun k => br k ++ if k = c.current then a.brings else [])
      (es ++ o.2.map (⟨c.current, ·⟩)) := by
  have hcurrent : c'.current = c.current := congrArg List.length hpast
  refine ⟨fun k y hk => ?_, fun y hy => ?_, fun k hk => ?_⟩
  · rw [hpast] at hk
    have hlt : k < c.current := (List.getElem?_eq_some_iff.mp hk).1
    rw [eventsOf_append, eventsOf_map, if_neg (by omega), if_neg (by omega), List.append_nil,
      List.append_nil]
    exact h.former k y hk
  · rw [hconn] at hy
    cases hy
    rw [hcurrent, eventsOf_append, eventsOf_map, if_pos rfl, if_pos rfl]
    exact (h.present x hx).step hstep
  · rw [hcurrent, hconn] at hk
    have hk' : c.current + 1 ≤ k := hk
    rw [eventsOf_append, eventsOf_map, if_neg (by omega), if_neg (by omega), List.append_nil,
      List.append_nil]
    refine h.later k ?_
    rw [hx]
    exact hk'

/-- The connection is closed and set aside. -/
theorem Lives.leave (h : Lives c br es) {x : Connection κ} (hx : c.connection = some x)
    (hpast : c'.past = c.past ++ [x.close.1.abort]) (hconn : c'.connection = none) :
    Lives c' (fun k => br k ++ []) (es ++ x.close.2.map (⟨c.current, ·⟩)) := by
  have hcurrent : c'.current = c.current + 1 := by
    rw [current, hpast, List.length_append]
    rfl
  refine ⟨fun k y hk => ?_, fun y hy => ?_, fun k hk => ?_⟩
  · rw [eventsOf_append, eventsOf_map, List.append_nil]
    rw [hpast] at hk
    by_cases hlt : k < c.current
    · rw [List.getElem?_append_left hlt] at hk
      rw [if_neg (by omega), List.append_nil]
      exact h.former k y hk
    · have hlen := (List.getElem?_eq_some_iff.mp hk).1
      rw [List.length_append, List.length_singleton] at hlen
      obtain rfl : k = c.current :=
        Nat.le_antisymm (Nat.lt_succ_iff.mp hlen) (Nat.le_of_not_lt hlt)
      have hlast : (c.past ++ [x.close.1.abort])[c.current]? = some x.close.1.abort :=
        List.getElem?_concat_length
      obtain rfl := Option.some.inj (hlast.symm.trans hk)
      rw [if_pos rfl]
      right
      have hclosed : Sound x.close.1 (br c.current ++ []) (eventsOf c.current es ++ x.close.2) :=
        (h.present x hx).step (a := .perform .application .disconnect) rfl
      have haborted := hclosed.step (a := .abort) rfl
      simpa only [Connection.Action.brings, List.append_nil] using haborted
  · rw [hconn] at hy
    cases hy
  · rw [hcurrent] at hk
    have hk' : c.current + 1 ≤ k := (Nat.le_add_right _ _).trans hk
    rw [eventsOf_append, eventsOf_map, if_neg (by omega), List.append_nil, List.append_nil]
    refine h.later k ?_
    rw [hx]
    exact hk'

theorem Lives.act (h : Lives c br es) (hact : Act c br' c' es') :
    Lives c' (fun k => br k ++ br' k) (es ++ es') := by
  cases hact with
  | connection hx hstep hpast hconn => exact h.connection hx hstep hpast hconn
  | leave hx hpast hconn => exact h.leave hx hpast hconn
  | @begin _ limit hnone hpast hconn =>
    have hcurrent : c'.current = c.current := congrArg List.length hpast
    obtain ⟨hbr, hes⟩ := h.later c.current (by rw [hnone]; exact Nat.le_refl _)
    simp only [List.append_nil]
    refine ⟨by rw [hpast]; exact h.former, fun y hy => ?_, fun k hk => ?_⟩
    · rw [hconn] at hy
      cases hy
      rw [hcurrent, hbr, hes]
      exact sound_outgoing limit
    · rw [hcurrent] at hk
      refine h.later k ?_
      rw [hnone]
      exact (Nat.le_add_right _ _).trans hk
  | aside hpast hconn =>
    have hcurrent : c'.current = c.current := congrArg List.length hpast
    simp only [List.append_nil]
    refine ⟨by rw [hpast]; exact h.former, ?_, ?_⟩
    · rw [hconn, hcurrent]
      exact h.present
    · rw [hconn, hcurrent]
      exact h.later

theorem Lives.acts (h : Lives c br es) (hacts : Acts c br' c' es') :
    Lives c' (fun k => br k ++ br' k) (es ++ es') := by
  induction hacts with
  | refl => simpa only [List.append_nil] using h
  | tail hacts hact ih =>
    have hall := ih.act hact
    simpa only [List.append_assoc] using hall

/-! ### What stays true of a connection -/

/-- The `k`-th connection is over, or it is there and has a property. -/
def After (c : Client κ) (P : Connection κ → Prop) (k : Nat) : Prop :=
  k < c.current ∨ ∃ x, k = c.current ∧ c.connection = some x ∧ P x

/-- What every step of a connection keeps stays true of it until it is over. -/
theorem After.act {P : Connection κ → Prop} (hP : Connection.Stable P)
    {k : Nat} (h : c.After P k) (hact : Act c br' c' es') : c'.After P k := by
  cases hact with
  | connection hx hstep hpast hconn =>
    have hcurrent : c'.current = c.current := congrArg List.length hpast
    rcases h with hlt | ⟨x, rfl, hx', hPx⟩
    · exact .inl (hcurrent ▸ hlt)
    · cases hx.symm.trans hx'
      exact .inr ⟨_, hcurrent.symm, hconn, hP _ _ _ hstep hPx⟩
  | leave hx hpast hconn =>
    have hcurrent : c'.current = c.current + 1 := by
      rw [current, hpast, List.length_append]
      rfl
    rcases h with hlt | ⟨x, rfl, -⟩
    · exact .inl (by omega)
    · exact .inl (by omega)
  | begin hnone hpast hconn =>
    have hcurrent : c'.current = c.current := congrArg List.length hpast
    rcases h with hlt | ⟨x, -, hx, -⟩
    · exact .inl (hcurrent ▸ hlt)
    · cases hnone.symm.trans hx
  | aside hpast hconn =>
    have hcurrent : c'.current = c.current := congrArg List.length hpast
    unfold After
    rw [hcurrent, hconn]
    exact h

theorem After.acts {P : Connection κ → Prop} (hP : Connection.Stable P)
    {k : Nat} (h : c.After P k) (hacts : Acts c br' c' es') : c'.After P k := by
  induction hacts with
  | refl => exact h
  | tail hacts hact ih => exact ih.act hP hact

end Parley.Client
