import Parley.Proofs.Toml.Document

/-!
# Parley.Proofs.Toml.Unreadable — documents that cannot be read

A value that cannot be read, such as an integer of more than 64 bits, spoils the whole document
(`parse?_unreadable`): what comes before it is read or spoils the document itself, and what comes after
it does not matter.
-/

namespace Parley.Toml.Document

/-- Reading `w` as a value fails. -/
def Unreadable (w : Written) : Prop := ∀ r, value depthLimit (skipBlanks (w ++ '\n' :: r)) = none

theorem unreadable_int {n : Int} (h : n < -2 ^ 63 ∨ 2 ^ 63 ≤ n) : Unreadable (Scalar.ofInt n) := by
  intro r
  rw [value_word isWordChar_of_mem_ofInt (ofInt_ne_nil n), Scalar.ofWord?_ofInt, Scalar.fit?_of_lt h]
  rfl

/-! ### Texts that are passed, and texts that block -/

/-- Reading goes on behind `t`, unless it has failed. -/
def Passes (t : List Char) : Prop :=
  ∀ d cs, lines d (t ++ cs) = none ∨ ∃ d', lines d (t ++ cs) = lines d' cs

/-- Reading fails in `t`. -/
def Blocks (t : List Char) : Prop := ∀ d cs, lines d (t ++ cs) = none

theorem Blocks.passes {t : List Char} (h : Blocks t) : Passes t := fun d cs => .inl (h d cs)

theorem passes_nil : Passes [] := fun d _ => .inr ⟨d, rfl⟩

theorem Passes.append {t u : List Char} (ht : Passes t) (hu : Passes u) : Passes (t ++ u) := by
  intro d cs
  rw [List.append_assoc]
  rcases ht d (u ++ cs) with h | ⟨d', h⟩
  · exact .inl h
  · rw [h]
    exact hu d' cs

theorem Passes.append_blocks {t u : List Char} (ht : Passes t) (hu : Blocks u) : Blocks (t ++ u) := by
  intro d cs
  rw [List.append_assoc]
  rcases ht d (u ++ cs) with h | ⟨d', h⟩
  · exact h
  · rw [h]
    exact hu d' cs

theorem Blocks.append {t : List Char} (ht : Blocks t) (u : List Char) : Blocks (t ++ u) := by
  intro d cs
  rw [List.append_assoc]
  exact ht d (u ++ cs)

section FlatMap

variable {α : Type} {f : α → List Char} {as : List α} (h : ∀ a ∈ as, Passes (f a))

include h

theorem passes_flatMap : Passes (as.flatMap f) := by
  induction as with
  | nil => exact passes_nil
  | cons a as ih =>
    obtain ⟨ha, has⟩ := List.forall_mem_cons.mp h
    exact ha.append (ih has)

/-- One of several texts that blocks blocks them all. -/
theorem blocks_flatMap (hblocks : ∃ a ∈ as, Blocks (f a)) : Blocks (as.flatMap f) := by
  induction as with
  | nil => exact absurd hblocks (by simp)
  | cons a as ih =>
    obtain ⟨ha, has⟩ := List.forall_mem_cons.mp h
    obtain ⟨b, hb, hblocks⟩ := hblocks
    rw [List.flatMap_cons]
    rcases List.mem_cons.mp hb with rfl | hb
    · exact hblocks.append _
    · exact ha.append_blocks (ih has ⟨b, hb, hblocks⟩)

end FlatMap

/-! ### Lines, sections and documents -/

/-- A line that is read, or is not, whatever follows. -/
theorem passes_line {t : List Char} (hne : t ≠ []) {next : Draft → Option Draft}
    (h : ∀ d cs, line d (t ++ cs) = (next d).map (·, cs)) : Passes t := by
  intro d cs
  have hline := h d cs
  cases hnext : next d with
  | none =>
    rw [hnext] at hline
    rw [lines.eq_def, hline]
    exact .inl rfl
  | some d' =>
    rw [hnext] at hline
    -- Reading goes on to the next line only if this one takes something.
    have hlt : cs.length < (t ++ cs).length := by
      have := List.length_pos_of_ne_nil hne
      rw [List.length_append]
      omega
    exact .inr ⟨d', lines_of_line hline hlt⟩

theorem blocks_entry {k name : String} (hk : SpellsKey k name) {w : Written} (hw : Unreadable w) :
    Blocks (Written.entry k w) := by
  intro d cs
  have hline := line_entry (v := none) hk (hw cs) d
  rw [lines.eq_def, hline]
  rfl

/-- A line with a key, and a value that can be read or not. -/
def Legible (a : String × Written) : Prop :=
  ∃ name, SpellsKey a.1 name ∧ ((∃ v, Spells a.2 v) ∨ Unreadable a.2)

theorem Legible.passes {a : String × Written} (h : Legible a) : Passes (Written.entry a.1 a.2) := by
  obtain ⟨name, hk, ⟨v, hw⟩ | hw⟩ := h
  · exact passes_line (by simp [Written.entry]) fun d cs => line_entry (v := some v) hk (hw cs) d
  · exact (blocks_entry hk hw).passes

variable {ws : List (String × Written)} (hws : ∀ a ∈ ws, Legible a)

include hws in
theorem passes_section {k name : String} (hk : SpellsKey k name) : Passes (Written.section k ws) :=
  (passes_line (by simp) (line_header hk)).append (passes_flatMap fun a ha => (hws a ha).passes)

include hws in
theorem blocks_section {k name : String} (hk : SpellsKey k name) (hbad : ∃ a ∈ ws, Unreadable a.2) :
    Blocks (Written.section k ws) := by
  obtain ⟨a, ha, hbad⟩ := hbad
  obtain ⟨_, hkey, -⟩ := hws a ha
  exact (passes_line (by simp) (line_header hk)).append_blocks
    (blocks_flatMap (fun a ha => (hws a ha).passes) ⟨a, ha, blocks_entry hkey hbad⟩)

theorem blocks_document {ts : List (List Char)} (h : ∀ t ∈ ts, Passes t) (hblocks : ∃ t ∈ ts, Blocks t) :
    Blocks (Written.document ts) := by
  induction ts with
  | nil => exact absurd hblocks (by simp)
  | cons t ts ih =>
    obtain ⟨ht, hts⟩ := List.forall_mem_cons.mp h
    obtain ⟨b, hb, hblocks⟩ := hblocks
    match ts, ih with
    | [], _ =>
      obtain rfl := List.mem_singleton.mp hb
      simpa [Written.document, List.intercalate] using hblocks
    | u :: ts, ih =>
      have hsplit : Written.document (t :: u :: ts) = t ++ (['\n'] ++ Written.document (u :: ts)) := by
        simp [Written.document, List.intercalate]
      have hempty : ∀ d cs, line d (['\n'] ++ cs) = (some d).map (·, cs) := line_empty
      have hbreak : Passes ['\n'] := passes_line (by simp) hempty
      rw [hsplit]
      rcases List.mem_cons.mp hb with rfl | hb
      · exact hblocks.append _
      · exact ht.append_blocks (hbreak.append_blocks (ih hts ⟨b, hb, hblocks⟩))

/-- **A value that cannot be read spoils the document**, in whatever section it stands. -/
theorem parse?_unreadable {lead : List (String × Written)} (hlead : ∀ a ∈ lead, Legible a)
    {ss : List (String × List (String × Written))} (hss : ∀ s ∈ ss, ∃ name, SpellsKey s.1 name)
    (hlines : ∀ s ∈ ss, ∀ a ∈ s.2, Legible a) (hbad : ∃ s ∈ ss, ∃ a ∈ s.2, Unreadable a.2) :
    parse? (String.ofList ((lead.flatMap fun (k, v) => Written.entry k v) ++
      Written.document (ss.map fun s => Written.section s.1 s.2))) = none := by
  have hkeys : ∀ a ∈ lead, ∃ name, SpellsKey a.1 name := fun a ha =>
    let ⟨name, hname, _⟩ := hlead a ha
    ⟨name, hname⟩
  have hblocks : Blocks (Written.document (ss.map fun s => Written.section s.1 s.2)) := by
    refine blocks_document (List.forall_mem_map.mpr fun s hs => ?_) ?_
    · obtain ⟨name, hname⟩ := hss s hs
      exact passes_section (hlines s hs) hname
    · obtain ⟨s, hs, hbad⟩ := hbad
      obtain ⟨name, hname⟩ := hss s hs
      exact ⟨_, List.mem_map_of_mem hs, blocks_section (hlines s hs) hname hbad⟩
  have hfirst : Passes (lead.flatMap fun (k, v) => Written.entry k v) :=
    passes_flatMap fun a ha => (hlead a ha).passes
  have hnone := hfirst.append_blocks hblocks {} []
  rw [List.append_nil] at hnone
  rw [parse?, String.toList_ofList, skipMark_of_head (head?_document hkeys ss), hnone]
  rfl

end Parley.Toml.Document
