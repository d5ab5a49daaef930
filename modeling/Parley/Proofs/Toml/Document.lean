import Mathlib.Algebra.Group.Nat.Defs
import Mathlib.Data.List.Infix
import Parley.Proofs.Toml.Scalar
import Parley.Proofs.Toml.Text
import Parley.Toml.Document

/-!
# Parley.Proofs.Toml.Document — documents are read back

What is written for a value spells it if reading takes exactly that and stops where the line ends
(`Spells`); texts, numbers of 64 bits and truth values are spelled so.  A line with such a value adds
one entry to the table that is being filled, a header starts the next table, and a document of lines
and sections with different names and different keys in each section is read as the entries and tables
it was made of (`parse?_document`).
-/

namespace Parley.Toml

open Text (isBlank)

/-! ### Values -/

namespace Document

theorem skipBlanks_of_not_blank {c : Char} (h : isBlank c = false) (cs : List Char) :
    skipBlanks (c :: cs) = c :: cs := by
  simp [skipBlanks, h]

/-- `w` is read as `v`, up to the end of its line and no further. -/
def Spells (w : Written) (v : Value) : Prop :=
  ∀ r, value depthLimit (skipBlanks (w ++ '\n' :: r)) = some (v, '\n' :: r)

theorem value_eq (depth : Nat) : ∃ inner, value depth = valueAround inner := by
  cases depth with
  | zero => exact ⟨_, rfl⟩
  | succ depth => exact ⟨_, rfl⟩

theorem value_of_quote {q : Char} (hq : q = '"' ∨ q = '\'') (depth : Nat) (cs : List Char) :
    value depth (q :: cs)
      = (Text.quoted (q :: cs)).map fun p => (.string p.1, p.2) := by
  obtain ⟨inner, h⟩ := value_eq depth
  rw [h]
  rcases hq with rfl | rfl <;> rfl

/-- A character of words is no quote and opens no bracket. -/
theorem not_wordChar {c d : Char} (h : Scalar.isWordChar d = false) (hc : Scalar.isWordChar c = true) :
    c ≠ d := by
  rintro rfl
  exact absurd hc (by simp [h])

theorem value_of_wordChar {c : Char} (hc : Scalar.isWordChar c = true) (depth : Nat)
    (cs : List Char) : value depth (c :: cs) = Scalar.read (c :: cs) := by
  obtain ⟨inner, h⟩ := value_eq depth
  rw [h, valueAround.eq_def]
  split
  · next he => exact absurd (List.cons.inj he).1 (not_wordChar rfl hc)
  · next he => exact absurd (List.cons.inj he).1 (not_wordChar rfl hc)
  · next he => exact absurd (List.cons.inj he).1 (not_wordChar rfl hc)
  · next he => exact absurd (List.cons.inj he).1 (not_wordChar rfl hc)
  · rfl

theorem isBlank_of_wordChar {c : Char} (hc : Scalar.isWordChar c = true) : isBlank c = false := by
  simp [isBlank, not_wordChar (d := ' ') rfl hc, not_wordChar (d := '\t') rfl hc]

theorem spells_text (s : String) : Spells (Written.ofText s) (.string s) := by
  intro r
  obtain ⟨q, t, ht, hq⟩ := Text.head_write s.toList
  have hblank : isBlank q = false := by rcases hq with rfl | rfl <;> rfl
  have hread := Text.quoted_write s (r := '\n' :: r) (by rintro q t (rfl | rfl) <;> simp)
  rw [ht, List.cons_append] at hread
  rw [Written.ofText, ht, List.cons_append, skipBlanks_of_not_blank hblank, value_of_quote hq,
    hread]
  rfl

theorem value_word {w : List Char} (hw : ∀ c ∈ w, Scalar.isWordChar c = true) (hne : w ≠ [])
    (r : List Char) : value depthLimit (skipBlanks (w ++ '\n' :: r)) =
      (Scalar.ofWord? w).map (·, '\n' :: r) := by
  have hread := Scalar.read_word hw r
  match w, hne with
  | c :: w, _ =>
    have hc := hw c List.mem_cons_self
    rw [List.cons_append] at hread ⊢
    rw [skipBlanks_of_not_blank (isBlank_of_wordChar hc), value_of_wordChar hc, hread]

theorem spells_word {w : List Char} {v : Value} (hw : ∀ c ∈ w, Scalar.isWordChar c = true)
    (hne : w ≠ []) (hv : Scalar.ofWord? w = some v) : Spells w v := by
  intro r
  rw [value_word hw hne, hv]
  rfl

theorem isWordChar_of_mem_ofInt {n : Int} : ∀ c ∈ Scalar.ofInt n, Scalar.isWordChar c = true := by
  intro c hc
  rcases Scalar.isDigit_or_of_mem_ofInt hc with h | rfl
  · simp [Scalar.isWordChar, Char.isAlphanum, h]
  · decide

theorem ofInt_ne_nil (n : Int) : Scalar.ofInt n ≠ [] := by
  cases n with
  | ofNat n => exact Nat.toDigits_ne_nil
  | negSucc n => exact List.cons_ne_nil _ _

theorem spells_int {n : Int} (hmin : -2 ^ 63 ≤ n) (hmax : n < 2 ^ 63) :
    Spells (Scalar.ofInt n) (.integer n) :=
  spells_word isWordChar_of_mem_ofInt (ofInt_ne_nil n)
    ((Scalar.ofWord?_ofInt n).trans (Scalar.fit?_of_le hmin hmax))

theorem spells_nat {n : Nat} (h : n < 2 ^ 63) : Spells (Written.ofNat n) (.integer n) := by
  show Spells (Scalar.ofInt n) (.integer n)
  exact spells_int (by omega) (by omega)

theorem spells_bool (b : Bool) : Spells (Written.ofBool b) (.boolean b) := by
  cases b with
  | true => exact spells_word (List.all_eq_true.mp rfl) (by decide) rfl
  | false => exact spells_word (List.all_eq_true.mp rfl) (by decide) rfl

/-! ### Lines -/

/-- A key that may stand without quotes. -/
def Bare (key : String) : Prop := key.toList ≠ [] ∧ ∀ c ∈ key.toList, isBare c = true

instance (key : String) : Decidable (Bare key) :=
  decidable_of_iff (key.toList ≠ [] ∧ key.toList.all isBare = true)
    (and_congr_right' List.all_eq_true)

/-- A bare key is read up to the first character that is no part of it. -/
theorem simpleKey_bare {k : String} (h : Bare k) {c : Char} (hc : isBare c = false)
    (r : List Char) : simpleKey (k.toList ++ c :: r) = some (k, c :: r) := by
  obtain ⟨hne, hall⟩ := h
  have ht : (k.toList ++ c :: r).takeWhile isBare = k.toList := by
    rw [List.takeWhile_append_of_pos hall, List.takeWhile_cons_of_neg (by simp [hc]),
      List.append_nil]
  have hd : (k.toList ++ c :: r).dropWhile isBare = c :: r := by
    rw [List.dropWhile_append_of_pos hall, List.dropWhile_cons_of_neg (by simp [hc])]
  have hquote : ∀ q u, isBare q = false → k.toList ++ c :: r ≠ q :: u := by
    intro q u hq heq
    obtain ⟨x, t, hk⟩ := List.exists_cons_of_ne_nil hne
    rw [hk, List.cons_append] at heq
    have hx := hall x (hk ▸ List.mem_cons_self)
    rw [(List.cons.inj heq).1, hq] at hx
    cases hx
  rw [simpleKey]
  · simp [ht, hd, hne]
  · exact fun u => hquote _ u rfl
  · exact fun u => hquote _ u rfl

/-- `text` is a key of one part, bare or quoted, that is read as `name`, up to the first character that
no bare key has. -/
def SpellsKey (text name : String) : Prop :=
  ∀ c r, isBare c = false → simpleKey (text.toList ++ c :: r) = some (name, c :: r)

theorem Bare.spellsKey {k : String} (h : Bare k) : SpellsKey k k := fun _ r hc => simpleKey_bare h hc r

/-- Any name can be written between double quotes. -/
theorem spellsKey_quoted (name : String) :
    SpellsKey (String.ofList ('"' :: Text.escapeAll name.toList ++ ['"'])) name := by
  intro c r _
  rw [String.toList_ofList, List.append_assoc, List.cons_append]
  show (Text.basic (Text.escapeAll name.toList ++ '"' :: c :: r)).map _ = _
  rw [Text.basic_escapeAll, Option.map_some]
  show some (String.ofList name.toList, c :: r) = some (name, c :: r)
  rw [String.ofList_toList]

/-- Characters that a key begins with. -/
def opensKey (c : Char) : Bool := isBare c || c == '"' || c == '\''

/-- A character that a key begins with is no blank and no mark that starts something else. -/
theorem not_opensKey {c d : Char} (h : opensKey d = false) (hc : opensKey c = true) : c ≠ d := by
  rintro rfl
  exact absurd hc (by simp [h])

theorem SpellsKey.exists_cons {k name : String} (h : SpellsKey k name) :
    ∃ x t, k.toList = x :: t ∧ opensKey x = true := by
  have hread := h '=' [] rfl
  cases hk : k.toList with
  | nil =>
    rw [hk] at hread
    cases hread
  | cons x t =>
    refine ⟨x, t, rfl, ?_⟩
    by_contra hx
    simp only [opensKey, Bool.not_eq_true, Bool.or_eq_false_iff, beq_eq_false_iff_ne] at hx
    obtain ⟨⟨hbare, hdouble⟩, hsingle⟩ := hx
    rw [hk, List.cons_append, simpleKey] at hread
    · simp [hbare] at hread
    · exact fun _ he => hdouble (List.cons.inj he).1
    · exact fun _ he => hsingle (List.cons.inj he).1

theorem SpellsKey.skipBlanks_eq {k name : String} (h : SpellsKey k name) (r : List Char) :
    skipBlanks (k.toList ++ r) = k.toList ++ r := by
  obtain ⟨x, t, hk, hx⟩ := h.exists_cons
  have hblank : isBlank x = false := by
    simp [isBlank, not_opensKey (d := ' ') rfl hx, not_opensKey (d := '\t') rfl hx]
  rw [hk, List.cons_append, skipBlanks_of_not_blank hblank]

/-- A key of one part is the whole key, unless a dot follows. -/
theorem SpellsKey.key_eq {k name : String} (h : SpellsKey k name) {c : Char} (hc : isBare c = false)
    {r t : List Char} (hr : skipBlanks (c :: r) = t) (hdot : ∀ u, t ≠ '.' :: u) :
    key (k.toList ++ c :: r) = some ([name], t) := by
  have hdotted : dottedKey (k.toList ++ c :: r) = some ([name], t) := by
    rw [dottedKey.eq_def, h.skipBlanks_eq, h c r hc]
    dsimp only
    rw [hr]
    split
    · next u => exact absurd rfl (hdot u)
    · rfl
  simp [key, hdotted, depthLimit]

theorem endLine?_break (cs : List Char) : endLine? ('\n' :: cs) = some cs := rfl

/-- A line with a key and whatever reading its value comes to. -/
theorem line_entry {k name : String} (hk : SpellsKey k name) {w : Written} {cs : List Char}
    {v : Option Value} (hw : value depthLimit (skipBlanks (w ++ '\n' :: cs)) = v.map (·, '\n' :: cs))
    (d : Draft) : line d (Written.entry k w ++ cs) =
      (v.bind fun v => d.put [] name v).map (·, cs) := by
  have htext : Written.entry k w ++ cs = k.toList ++ ' ' :: '=' :: ' ' :: (w ++ '\n' :: cs) := by
    simp [Written.entry]
  have hkey := hk.key_eq (c := ' ') rfl (r := '=' :: ' ' :: (w ++ '\n' :: cs))
    (t := '=' :: ' ' :: (w ++ '\n' :: cs)) rfl (by simp)
  have hvalue : value depthLimit (skipBlanks (' ' :: (w ++ '\n' :: cs)))
      = v.map (·, '\n' :: cs) := hw
  have hboth : keyValue (value depthLimit) (k.toList ++ ' ' :: '=' :: ' ' :: (w ++ '\n' :: cs))
      = v.map fun v => (([name], v), '\n' :: cs) := by
    cases v <;> simp [keyValue, hkey, Scalar.expect, hvalue]
  rw [htext, line, hk.skipBlanks_eq]
  obtain ⟨x, t, hk, hx⟩ := hk.exists_cons
  rw [hk, List.cons_append] at hboth ⊢
  have hmark : ¬ (x = '#' ∨ x = '\n' ∨ x = '\r') := by
    simp [not_opensKey (d := '#') rfl hx, not_opensKey (d := '\n') rfl hx,
      not_opensKey (d := '\r') rfl hx]
  split
  · next he => exact absurd he (by simp)
  · next he => exact absurd (List.cons.inj he).1 (not_opensKey rfl hx)
  · next he =>
    obtain ⟨rfl, rfl⟩ := List.cons.inj he
    rw [if_neg hmark, hboth]
    cases v with
    | none => rfl
    | some v => cases hput : d.put [] name v <;> simp [endLine?_break, hput]

/-- A header in single brackets. -/
theorem line_header {k name : String} (h : SpellsKey k name) (d : Draft) (cs : List Char) :
    line d ("[".toList ++ k.toList ++ "]\n".toList ++ cs)
      = (d.start false [name]).map (·, cs) := by
  have htext : "[".toList ++ k.toList ++ "]\n".toList ++ cs
      = '[' :: (k.toList ++ ']' :: '\n' :: cs) := by simp
  have hkey := h.key_eq (c := ']') rfl (r := '\n' :: cs) (skipBlanks_of_not_blank rfl _) (by simp)
  have hheader : header (k.toList ++ ']' :: '\n' :: cs)
      = some ((false, [name]), '\n' :: cs) := by
    rw [header.eq_def]
    split
    · next he =>
      obtain ⟨x, t, hn, hx⟩ := h.exists_cons
      rw [hn, List.cons_append] at he
      exact absurd (List.cons.inj he).1 (not_opensKey rfl hx)
    · simp [hkey, Scalar.expect]
  rw [htext, line, skipBlanks_of_not_blank rfl]
  cases hstart : d.start false [name] <;> simp [hheader, endLine?_break, hstart]

theorem line_empty (d : Draft) (cs : List Char) : line d ('\n' :: cs) = some (d, cs) := rfl

/-- A line is read, then the lines after it. -/
theorem lines_of_line {d d' : Draft} {cs rest : List Char} (h : line d cs = some (d', rest))
    (hlt : rest.length < cs.length) : lines d cs = lines d' rest := by
  rw [lines.eq_def, h]
  match rest, hlt with
  | [], _ => rw [lines.eq_def]; rfl
  | c :: r, hlt => exact if_pos hlt

end Document

/-! ### Entries and drafts -/

/-- The keys of entries. -/
abbrev Entries.keys (es : Entries) : List String := es.map Prod.fst

theorem Entries.find?_eq_none {es : Entries} {key : String} (h : key ∉ es.keys) :
    es.find? key = none := by
  rw [find?, List.lookup_eq_none_iff]
  intro e he
  have : key ≠ e.1 := fun hk => h (hk ▸ List.mem_map_of_mem he)
  simpa using this

namespace Draft

/-- A new key goes to the end of the table that is being filled. -/
theorem put_new {d : Draft} {key : String} (h : key ∉ d.current.keys) (v : Value) :
    d.put [] key v = some { d with current := d.current ++ [(key, v)] } := by
  simp [put, Entries.place, Entries.has, Entries.find?_eq_none h, Entries.add]

/-- A table with a new name goes to the end of the document. -/
theorem close_new {root : Entries} {name : String} (h : name ∉ root.keys) (current : Entries) :
    close { root, path := [name], repeated := false, current }
      = some (root ++ [(name, .table .header current)]) := by
  simp [close, Entries.reach, settle, Entries.find?_eq_none h, Entries.add]

/-- A table with a new name starts empty. -/
theorem start_new {d : Draft} {root : Entries} {name : String} (hroot : d.close = some root)
    (h : name ∉ root.keys) :
    d.start false [name] = some { root, path := [name], repeated := false, current := [] } := by
  simp [start, hroot, Entries.reach, claim, Entries.find?_eq_none h]

end Draft

namespace Document

/-! ### Sections -/

/-- A line as it is written and the entry it is read as. -/
structure Tells (a : String × Written) (b : String × Value) : Prop where
  key : SpellsKey a.1 b.1
  spells : Spells a.2 b.2

/-- A section as it is written and the table it is read as. -/
structure TellsSection (a : String × List (String × Written)) (b : String × Entries) : Prop where
  name : SpellsKey a.1 b.1
  entries : List.Forall₂ Tells a.2 b.2
  nodup : b.2.keys.Nodup

/-- The lines of a table add its entries. -/
theorem lines_entries {ws : List (String × Written)} {es : Entries}
    (h : List.Forall₂ Tells ws es) {d : Draft} (hd : (d.current ++ es).keys.Nodup)
    (cs : List Char) :
    lines d ((ws.flatMap fun (k, v) => Written.entry k v) ++ cs)
      = lines { d with current := d.current ++ es } cs := by
  induction h generalizing d with
  | nil => simp
  | @cons a b ws es hab _ ih =>
    obtain ⟨k, w⟩ := a
    obtain ⟨name, v⟩ := b
    have hnew : name ∉ d.current.keys := by
      intro hk
      simp only [Entries.keys, List.map_append, List.map_cons] at hd hk
      exact (List.nodup_append.mp hd).2.2 _ hk _ List.mem_cons_self rfl
    have hline := line_entry (v := some v) hab.key
      (hab.spells ((ws.flatMap fun (k, v) => Written.entry k v) ++ cs)) d
    rw [Option.bind_some, Draft.put_new hnew] at hline
    rw [List.flatMap_cons, List.append_assoc,
      lines_of_line hline (by simp [Written.entry]; omega), ih (by simpa using hd)]
    simp

/-- The lines of a section close the table before it and fill a new one. -/
theorem lines_section {a : String × List (String × Written)} {b : String × Entries}
    (h : TellsSection a b) {d : Draft} {root : Entries} (hroot : d.close = some root)
    (hnew : b.1 ∉ root.keys) (cs : List Char) :
    lines d (Written.section a.1 a.2 ++ cs)
      = lines { root, path := [b.1], repeated := false, current := b.2 } cs := by
  have hstart := Draft.start_new hroot hnew
  have hline := line_header h.name d ((a.2.flatMap fun (k, v) => Written.entry k v) ++ cs)
  rw [hstart] at hline
  have hentries := lines_entries h.entries
    (d := { root, path := [b.1], repeated := false, current := [] }) (by simpa using h.nodup) cs
  rw [Written.section, List.append_assoc, lines_of_line hline (by simp; omega), hentries]
  rfl

/-- The tables that sections are read as. -/
def tables (ss : List (String × Entries)) : Entries := ss.map fun s => (s.1, .table .header s.2)

/-- Sections are read one after the other; each is put in its place when the next one starts, the
last one at the end. -/
theorem lines_document {ws : List (String × List (String × Written))}
    {ss : List (String × Entries)} (h : List.Forall₂ TellsSection ws ss) {d : Draft}
    {root : Entries} (hroot : d.close = some root) (hd : (root ++ tables ss).keys.Nodup) :
    (lines d (Written.document (ws.map fun s => Written.section s.1 s.2))).bind Draft.close
      = some (root ++ tables ss) := by
  -- The root is not what the draft holds, but what it comes to when the table being filled is put in.
  induction h generalizing d root with
  | nil => simp [Written.document, lines, line, skipBlanks, tables, hroot]
  | @cons a b ws ss hab htail ih =>
    have hnew : b.1 ∉ root.keys := by
      intro hk
      simp only [Entries.keys, tables, List.map_append, List.map_cons] at hd hk
      exact (List.nodup_append.mp hd).2.2 _ hk _ List.mem_cons_self rfl
    have hclose := Draft.close_new hnew b.2
    have hdone : root ++ tables (b :: ss) = (root ++ [(b.1, .table .header b.2)]) ++ tables ss := by
      simp [tables]
    rw [hdone] at hd ⊢
    cases htail with
    | nil =>
      have hone := lines_section hab hroot hnew []
      rw [List.append_nil] at hone
      simp [Written.document, List.intercalate, hone, lines, line, skipBlanks, hclose, tables]
    | @cons a' b' ws' ss' hab' htail' =>
      have hsplit : Written.document ((a :: a' :: ws').map fun s => Written.section s.1 s.2)
          = Written.section a.1 a.2 ++
            ('\n' :: Written.document ((a' :: ws').map fun s => Written.section s.1 s.2)) := by
        simp [Written.document, List.intercalate]
      rw [hsplit, lines_section hab hroot hnew, lines_of_line (line_empty _ _) (by simp),
        ih hclose hd]

theorem skipMark_of_head {cs : List Char} (h : cs.head? ≠ some '\uFEFF') : skipMark cs = cs := by
  rw [skipMark.eq_def]
  split
  · exact absurd rfl h
  · rfl

/-- No document of lines and sections begins with a byte order mark. -/
theorem head?_document {lead : List (String × Written)} (hlead : ∀ a ∈ lead, ∃ name, SpellsKey a.1 name)
    (ws : List (String × List (String × Written))) :
    ((lead.flatMap fun (k, v) => Written.entry k v) ++
      Written.document (ws.map fun s => Written.section s.1 s.2)).head? ≠ some '\uFEFF' := by
  match lead, hlead with
  | [], _ =>
    match ws with
    | [] => simp [Written.document]
    | [a] => simp [Written.document, List.intercalate, Written.section]
    | a :: b :: ws => simp [Written.document, List.intercalate, Written.section]
  | a :: lead, hlead =>
    obtain ⟨name, hname⟩ := hlead a List.mem_cons_self
    obtain ⟨x, t, hk, hx⟩ := hname.exists_cons
    simpa [Written.entry, hk] using not_opensKey (d := '\uFEFF') rfl hx

/-- A document of lines and sections is read as the entries and tables it was made of. -/
theorem parse?_document {lead : List (String × Written)} {es : Entries}
    (hlead : List.Forall₂ Tells lead es) {ws : List (String × List (String × Written))}
    {ss : List (String × Entries)} (h : List.Forall₂ TellsSection ws ss)
    (hd : (es ++ tables ss).keys.Nodup) :
    parse? (String.ofList ((lead.flatMap fun (k, v) => Written.entry k v) ++
      Written.document (ws.map fun s => Written.section s.1 s.2))) = some (es ++ tables ss) := by
  have hkeys : ∀ a ∈ lead, ∃ name, SpellsKey a.1 name := by
    clear hd
    induction hlead with
    | nil => nofun
    | cons hab _ ih => exact List.forall_mem_cons.mpr ⟨⟨_, hab.key⟩, ih⟩
  have hentries : es.keys.Nodup := by
    rw [Entries.keys, List.map_append] at hd
    exact (List.nodup_append.mp hd).1
  have hlines := lines_entries hlead (d := {}) hentries
    (Written.document (ws.map fun s => Written.section s.1 s.2))
  rw [parse?, String.toList_ofList, skipMark_of_head (head?_document hkeys ws), hlines]
  exact lines_document h rfl hd

end Document
end Parley.Toml
