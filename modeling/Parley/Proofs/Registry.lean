import Mathlib.Data.List.Pairwise
import Parley.Registry

/-!
# Parley.Proofs.Registry — what entering, erasing and moving make of the entries

An id is known to two registries if it is entered in one of them.  Moving entries from one to the
other makes no id known or unknown, and makes up no entry.
-/

namespace Parley.Registry

variable {r a b : Registry} {id : UInt32} {n : Nat} {e : Entry}

theorem mem_enter_self (id : UInt32) (n : Nat) (es : List Entry) : (id, n) ∈ enter id n es := by
  induction es with
  | nil => simp [enter]
  | cons e rest ih =>
    rw [enter]
    split
    · exact List.mem_cons_self
    · split
      · exact List.mem_cons_self
      · exact List.mem_cons_of_mem _ ih

/-- Entering an id takes the place of its own entry at most. -/
theorem mem_enter_of_ne {es : List Entry} (h : e ∈ es) (hne : e.1 ≠ id) : e ∈ enter id n es := by
  induction es with
  | nil => cases h
  | cons d rest ih =>
    rw [enter]
    split
    · exact List.mem_cons_of_mem _ h
    · rcases List.mem_cons.mp h with rfl | h
      · rw [if_neg (Ne.symm hne)]
        exact List.mem_cons_self
      · split
        · exact List.mem_cons_of_mem _ h
        · exact List.mem_cons_of_mem _ (ih h)

theorem mem_insert_self (r : Registry) (id : UInt32) (n : Nat) :
    (id, n) ∈ (r.insert id n).entries := mem_enter_self id n r.entries

theorem of_mem_insert (h : e ∈ (r.insert id n).entries) : e = (id, n) ∨ e ∈ r.entries :=
  mem_enter h

theorem mem_of_find? (h : r.find? id = some n) : (id, n) ∈ r.entries := by
  obtain ⟨l₁, l₂, heq, -⟩ := List.lookup_eq_some_iff.mp h
  rw [heq]
  simp

theorem find?_of_mem (h : (id, n) ∈ r.entries) : r.find? id ≠ none := by
  intro hnone
  have hne := List.lookup_eq_none_iff.mp hnone _ h
  simp at hne

/-- An id stands for one connection. -/
theorem eq_of_fst {d : Entry} (hd : d ∈ r.entries) (he : e ∈ r.entries) (heq : d.1 = e.1) : d = e := by
  by_contra hne
  have hsymm : Std.Symm fun d e : Entry => d.1 ≠ e.1 := ⟨fun _ _ => Ne.symm⟩
  have hpair : r.entries.Pairwise fun d e => d.1 ≠ e.1 := r.sorted.imp UInt32.ne_of_lt
  exact hpair.forall hd he hne heq

/-- Looking an id up finds what is entered under it. -/
theorem find?_eq_some_iff : r.find? id = some n ↔ (id, n) ∈ r.entries := by
  refine ⟨mem_of_find?, fun h => ?_⟩
  obtain ⟨k, hk⟩ := Option.ne_none_iff_exists'.mp (find?_of_mem h)
  rw [hk]
  exact congrArg some (congrArg Prod.snd (eq_of_fst (mem_of_find? hk) h rfl))

theorem find?_insert (r : Registry) (id : UInt32) (n : Nat) (x : UInt32) :
    (r.insert id n).find? x = if x = id then some n else r.find? x := by
  by_cases hx : x = id
  · rw [if_pos hx, hx, find?_eq_some_iff]
    exact mem_insert_self r id n
  · rw [if_neg hx]
    ext k
    rw [find?_eq_some_iff, find?_eq_some_iff]
    refine ⟨fun h => ?_, fun h => mem_enter_of_ne h hx⟩
    rcases of_mem_insert h with heq | h
    · exact absurd (congrArg Prod.fst heq) hx
    · exact h

theorem find?_erase (r : Registry) (id x : UInt32) :
    (r.erase id).find? x = if x = id then none else r.find? x := by
  ext k
  rw [find?_eq_some_iff]
  show (x, k) ∈ r.entries.filter (·.1 != id) ↔ _
  rw [List.mem_filter, bne_iff_ne]
  by_cases hx : x = id
  · rw [if_pos hx]
    exact ⟨fun h => absurd hx h.2, nofun⟩
  · rw [if_neg hx, find?_eq_some_iff]
    exact ⟨And.left, fun h => ⟨h, hx⟩⟩

/-! ### Two registries -/

/-- The id is entered in one of two registries. -/
def Known (a b : Registry) (id : UInt32) : Prop := ∃ n, (id, n) ∈ a.entries ∨ (id, n) ∈ b.entries

theorem known_insert_iff {x : UInt32} :
    Known (a.insert id n) b x ↔ x = id ∨ Known a b x := by
  constructor
  · rintro ⟨k, h | h⟩
    · rcases of_mem_insert h with heq | h
      · exact .inl (congrArg Prod.fst heq)
      · exact .inr ⟨k, .inl h⟩
    · exact .inr ⟨k, .inr h⟩
  · intro h
    by_cases hx : x = id
    · exact ⟨n, .inl (hx ▸ mem_insert_self a id n)⟩
    · obtain ⟨k, h | h⟩ := h.resolve_left hx
      · exact ⟨k, .inl (mem_enter_of_ne h hx)⟩
      · exact ⟨k, .inr h⟩

/-- Where an id is looked up in one registry and then in the other, it is found if it is known. -/
theorem find?_or_eq_none_iff : (a.find? id).or (b.find? id) = none ↔ ¬Known a b id := by
  rw [Option.or_eq_none_iff]
  constructor
  · rintro ⟨ha, hb⟩ ⟨n, h | h⟩
    · exact find?_of_mem h ha
    · exact find?_of_mem h hb
  · intro h
    refine ⟨Option.eq_none_iff_forall_ne_some.mpr fun n hn => ?_,
      Option.eq_none_iff_forall_ne_some.mpr fun n hn => ?_⟩
    · exact h ⟨n, .inl (mem_of_find? hn)⟩
    · exact h ⟨n, .inr (mem_of_find? hn)⟩

theorem mem_of_find?_or (h : (a.find? id).or (b.find? id) = some n) :
    (id, n) ∈ a.entries ∨ (id, n) ∈ b.entries := by
  rcases Option.or_eq_some_iff.mp h with ha | ⟨-, hb⟩
  · exact .inl (mem_of_find? ha)
  · exact .inr (mem_of_find? hb)

/-- Moving makes up no entry. -/
theorem of_mem_move (ids : List UInt32)
    (h : e ∈ (move ids a b).1.entries ∨ e ∈ (move ids a b).2.entries) :
    e ∈ a.entries ∨ e ∈ b.entries := by
  induction ids generalizing a b with
  | nil => exact h
  | cons id ids ih =>
    cases hid : a.find? id with
    | none =>
      have hskip : move (id :: ids) a b = move ids a b := by simp [move, hid]
      rw [hskip] at h
      exact ih h
    | some n =>
      have hmove : move (id :: ids) a b = move ids (a.erase id) (b.insert id n) := by
        simp [move, hid]
      rw [hmove] at h
      rcases ih h with h | h
      · exact .inl (List.mem_filter.mp h).1
      · rcases of_mem_insert h with rfl | h
        · exact .inl (mem_of_find? hid)
        · exact .inr h

/-- Moving leaves the other entries where they are. -/
theorem mem_move_of_notMem (ids : List UInt32) (h : e ∈ a.entries) (hids : e.1 ∉ ids) :
    e ∈ (move ids a b).1.entries := by
  induction ids generalizing a b with
  | nil => exact h
  | cons id ids ih =>
    obtain ⟨hne, hrest⟩ := not_or.mp (mt List.mem_cons.mpr hids)
    cases hid : a.find? id with
    | none =>
      have hskip : move (id :: ids) a b = move ids a b := by simp [move, hid]
      rw [hskip]
      exact ih h hrest
    | some n =>
      have hmove : move (id :: ids) a b = move ids (a.erase id) (b.insert id n) := by
        simp [move, hid]
      rw [hmove]
      exact ih (List.mem_filter.mpr ⟨h, by simpa using hne⟩) hrest

/-- Moving takes out what was entered under the given ids, and nothing else. -/
theorem mem_fst_move_iff (ids : List UInt32) :
    e ∈ (move ids a b).1.entries ↔ e ∈ a.entries ∧ e.1 ∉ ids := by
  refine ⟨fun h => ?_, fun h => mem_move_of_notMem ids h.1 h.2⟩
  induction ids generalizing a b with
  | nil => exact ⟨h, List.not_mem_nil⟩
  | cons id ids ih =>
    cases hid : a.find? id with
    | none =>
      have hskip : move (id :: ids) a b = move ids a b := by simp [move, hid]
      rw [hskip] at h
      obtain ⟨hmem, hrest⟩ := ih h
      refine ⟨hmem, List.not_mem_cons_of_ne_of_not_mem ?_ hrest⟩
      rintro rfl
      exact find?_of_mem hmem hid
    | some n =>
      have hmove : move (id :: ids) a b = move ids (a.erase id) (b.insert id n) := by
        simp [move, hid]
      rw [hmove] at h
      obtain ⟨hmem, hrest⟩ := ih h
      obtain ⟨hmem, hne⟩ := List.mem_filter.mp hmem
      exact ⟨hmem, List.not_mem_cons_of_ne_of_not_mem (by simpa using hne) hrest⟩

/-- Moving makes no id unknown. -/
theorem known_move {x : UInt32} (ids : List UInt32) (h : Known a b x) :
    Known (move ids a b).1 (move ids a b).2 x := by
  induction ids generalizing a b with
  | nil => exact h
  | cons id ids ih =>
    cases hid : a.find? id with
    | none =>
      have hskip : move (id :: ids) a b = move ids a b := by simp [move, hid]
      rw [hskip]
      exact ih h
    | some n =>
      have hmove : move (id :: ids) a b = move ids (a.erase id) (b.insert id n) := by
        simp [move, hid]
      rw [hmove]
      apply ih
      by_cases hx : x = id
      · exact ⟨n, .inr (hx ▸ mem_insert_self b id n)⟩
      · obtain ⟨k, h | h⟩ := h
        · exact ⟨k, .inl (List.mem_filter.mpr ⟨h, by simpa using hx⟩)⟩
        · exact ⟨k, .inr (mem_enter_of_ne h hx)⟩

/-- What an id stands for in two registries stays the same when entries are moved from one to the
other. -/
theorem find?_or_move (ids : List UInt32) (x : UInt32) :
    ((move ids a b).1.find? x).or ((move ids a b).2.find? x) = (a.find? x).or (b.find? x) := by
  induction ids generalizing a b with
  | nil => rfl
  | cons id ids ih =>
    cases hid : a.find? id with
    | none =>
      have hskip : move (id :: ids) a b = move ids a b := by simp [move, hid]
      rw [hskip]
      exact ih
    | some n =>
      have hmove : move (id :: ids) a b = move ids (a.erase id) (b.insert id n) := by
        simp [move, hid]
      rw [hmove, ih, find?_erase, find?_insert]
      by_cases hx : x = id
      · rw [if_pos hx, if_pos hx, hx, hid]
        rfl
      · rw [if_neg hx, if_neg hx]

theorem known_move_iff {x : UInt32} (ids : List UInt32) :
    Known (move ids a b).1 (move ids a b).2 x ↔ Known a b x := by
  refine ⟨?_, known_move ids⟩
  rintro ⟨k, h⟩
  exact ⟨k, of_mem_move ids h⟩

end Parley.Registry
