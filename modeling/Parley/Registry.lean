/-!
# Parley.Registry — connections by id

A registry maps ids to the numbers of connections and lists them by rising id.  An id that is
entered again takes the place of the earlier entry.
-/

namespace Parley

namespace Registry

/-- An id and the number of a connection. -/
abbrev Entry := UInt32 × Nat

/-- Enter an id into a list that rises. -/
def enter (id : UInt32) (n : Nat) : List Entry → List Entry
  | [] => [(id, n)]
  | e :: rest =>
    if id < e.1 then (id, n) :: e :: rest
    else if id = e.1 then (id, n) :: rest
    else e :: enter id n rest

theorem mem_enter {id : UInt32} {n : Nat} {es : List Entry} {x : Entry} (h : x ∈ enter id n es) :
    x = (id, n) ∨ x ∈ es := by
  induction es with
  | nil => exact .inl (by simpa [enter] using h)
  | cons e rest ih =>
    rw [enter] at h
    split at h
    · simpa using h
    · split at h
      · rcases List.mem_cons.mp h with h | h
        · exact .inl h
        · exact .inr (List.mem_cons_of_mem _ h)
      · rcases List.mem_cons.mp h with h | h
        · exact .inr (h ▸ List.mem_cons_self)
        · exact (ih h).imp_right (List.mem_cons_of_mem _)

theorem pairwise_enter {id : UInt32} {n : Nat} {es : List Entry}
    (h : es.Pairwise fun a b => a.1 < b.1) : (enter id n es).Pairwise fun a b => a.1 < b.1 := by
  induction es with
  | nil => simp [enter]
  | cons e rest ih =>
    obtain ⟨hhead, hrest⟩ := List.pairwise_cons.mp h
    rw [enter]
    split
    · next hlt =>
      refine List.pairwise_cons.mpr ⟨fun x hx => ?_, h⟩
      rcases List.mem_cons.mp hx with rfl | hx
      · exact hlt
      · exact UInt32.lt_trans hlt (hhead x hx)
    · next hge =>
      split
      · next heq => exact List.pairwise_cons.mpr ⟨fun x hx => heq ▸ hhead x hx, hrest⟩
      · next hne =>
        refine List.pairwise_cons.mpr ⟨fun x hx => ?_, ih hrest⟩
        rcases mem_enter hx with rfl | hx
        · exact UInt32.lt_of_le_of_ne (UInt32.not_lt.mp hge) (Ne.symm hne)
        · exact hhead x hx

end Registry

/-- Connections by id. -/
structure Registry where
  entries : List Registry.Entry
  /-- The ids rise. -/
  sorted : entries.Pairwise fun a b => a.1 < b.1
  deriving DecidableEq

namespace Registry

def empty : Registry := ⟨[], .nil⟩

/-- The number entered under an id. -/
def find? (r : Registry) (id : UInt32) : Option Nat := r.entries.lookup id

/-- The ids, rising. -/
def ids (r : Registry) : List UInt32 := r.entries.map (·.1)

/-- The connections, by rising id. -/
def numbers (r : Registry) : List Nat := r.entries.map (·.2)

def count (r : Registry) : Nat := r.entries.length

def insert (r : Registry) (id : UInt32) (n : Nat) : Registry :=
  ⟨enter id n r.entries, pairwise_enter r.sorted⟩

def erase (r : Registry) (id : UInt32) : Registry :=
  ⟨r.entries.filter (·.1 != id), r.sorted.filter _⟩

/-- Take the entries of the given ids out, if there are any, and put them into another registry. -/
def move (ids : List UInt32) (source target : Registry) : Registry × Registry :=
  ids.foldl (fun (r : Registry × Registry) id =>
    match r.1.find? id with
    | some n => (r.1.erase id, r.2.insert id n)
    | none => r) (source, target)

end Registry
end Parley
