import Mathlib.Data.List.Forall2
import Parley.Proofs.Settings.Setting
import Parley.Proofs.Toml.Unreadable

/-!
# Parley.Proofs.Settings.Partial — documents that name some of the settings

A layout is a document: lines in front of the first header, and passages, each of them a header with the
lines under it.  A line sets a setting, holds a key that nobody knows, or gives a setting something that
it does not take (`Layout`, `Line`).  If keys and headers are different from each other, the settings
that the lines set are read, and all others keep their defaults, in whatever order everything stands; and
if a setting is given something that it does not take, nothing is read (`ofToml_layout`).
-/

namespace Parley.Settings

open Toml Toml.Document

/-! ### Layouts -/

/-- A key of one part, as it is written and as it is read. -/
structure Key where
  text : String
  name : String
  spells : SpellsKey text name

namespace Key

def bare (name : String) (h : Bare name) : Key := ⟨name, name, h.spellsKey⟩

def quoted (name : String) : Key := ⟨_, name, spellsKey_quoted name⟩

end Key

/-- A line with a key and a value. -/
inductive Line where
  /-- A setting and its value. -/
  | sets (f : Setting) (x : f.form.Carrier)
  /-- A key that is no setting of the section. -/
  | other (key : Key) (w : Written)
  /-- A setting and something that it does not take. -/
  | wrong (f : Setting) (w : Written)

/-- What a setting does not take: a value of another form, or an integer of any size. -/
def Form.Misfits (form : Form) (w : Written) : Prop :=
  ∃ v, ¬ form.Takes v ∧ (Spells w v ∨ ∃ n, v = .integer n ∧ w = Scalar.ofInt n)

namespace Line

/-- The key of a line, as it is read. -/
def key : Line → String
  | sets f _ | wrong f _ => f.key
  | other k _ => k.name

/-- A line as it is written. -/
def written : Line → String × Written
  | sets f x => (f.key, f.form.write x)
  | other k w => (k.text, w)
  | wrong f w => (f.key, w)

/-- A line may stand in the section with the given name. -/
def Suits (name : String) : Line → Prop
  | sets f x => f.home.name = name ∧ f.form.Fits x
  | other k w => (∀ f : Setting, f.home.name = name → f.key ≠ k.name) ∧ ∃ v, Spells w v
  | wrong f w => f.home.name = name ∧ f.form.Misfits w

/-- A line gives a setting something that it does not take. -/
def IsWrong : Line → Prop
  | wrong _ _ => True
  | _ => False

end Line

/-- A header and the lines under it. -/
structure Passage where
  head : Key
  lines : List Line

/-- The lines belong into the section, and no key is there twice. -/
structure Passage.Valid (p : Passage) : Prop where
  suits : ∀ l ∈ p.lines, l.Suits p.head.name
  nodup : (p.lines.map Line.key).Nodup

/-- A document that names some of the settings. -/
structure Layout where
  /-- Keys and values in front of the first header. -/
  lead : List (Key × Written)
  passages : List Passage

namespace Layout

/-- The text of a document. -/
def text (l : Layout) : String :=
  String.ofList (((l.lead.map fun e => (e.1.text, e.2)).flatMap fun (k, v) => Written.entry k v) ++
    Written.document ((l.passages.map fun p => (p.head.text, p.lines.map Line.written)).map
      fun s => Written.section s.1 s.2))

/-- Names are different, and everything stands where it may. -/
structure Valid (l : Layout) : Prop where
  lead : ∀ e ∈ l.lead, (∀ c : Section, c.name ≠ e.1.name) ∧ ∃ v, Spells e.2 v
  passages : ∀ p ∈ l.passages, p.Valid
  nodup : (l.lead.map (·.1.name) ++ l.passages.map (·.head.name)).Nodup

/-- The lines of a document that stand under a header. -/
def lines (l : Layout) : List Line := l.passages.flatMap (·.lines)

end Layout

/-- `t` is `s` with the settings that lines set, and nothing else is different. -/
structure Makes (ls : List Line) (s t : Settings) : Prop where
  set : ∀ (f : Setting) x, .sets f x ∈ ls → f.get t = some x
  unset : ∀ f : Setting, (∀ x, .sets f x ∉ ls) → f.get t = f.get s

theorem Makes.unique {ls : List Line} {s t u : Settings} (ht : Makes ls s t) (hu : Makes ls s u) :
    t = u := by
  refine Setting.ext fun f => ?_
  by_cases hset : ∃ x, .sets f x ∈ ls
  · obtain ⟨x, hx⟩ := hset
    rw [ht.set f x hx, hu.set f x hx]
  · have hunset : ∀ x, .sets f x ∉ ls := fun x hx => hset ⟨x, hx⟩
    rw [ht.unset f hunset, hu.unset f hunset]

theorem Makes.append {ls ms : List Line} {s t u : Settings} (ht : Makes ls s t) (hu : Makes ms t u)
    (hone : ∀ f x y, .sets f x ∈ ls → .sets f y ∉ ms) : Makes (ls ++ ms) s u where
  set f x hx := by
    rcases List.mem_append.mp hx with hx | hx
    · rw [hu.unset f fun y => hone f x y hx]
      exact ht.set f x hx
    · exact hu.set f x hx
  unset f hf := by
    rw [hu.unset f fun x hx => hf x (List.mem_append_right _ hx)]
    exact ht.unset f fun x hx => hf x (List.mem_append_left _ hx)

theorem makes_self {ls : List Line} (h : ∀ f x, .sets f x ∉ ls) (s : Settings) : Makes ls s s where
  set f x hx := absurd hx (h f x)
  unset _ _ := rfl

theorem makes_put (f : Setting) (x : f.form.Carrier) (s : Settings) :
    Makes [.sets f x] s (f.put x s) where
  set g y hy := by
    cases List.mem_singleton.mp hy
    exact f.get_put_self x s
  unset g hg := by
    refine Setting.get_put_ne ?_ x s
    rintro rfl
    exact hg x (List.mem_singleton.mpr rfl)

/-! ### What lines are read as -/

/-- A line is read as an entry. -/
inductive Line.Reads : Line → String × Value → Prop
  | sets {f : Setting} {x : f.form.Carrier} (h : Spells (f.form.write x) (f.form.value x)) :
    Reads (.sets f x) (f.key, f.form.value x)
  | other {k : Key} {w : Written} {v : Value} (h : Spells w v) : Reads (.other k w) (k.name, v)
  | wrong {f : Setting} {w : Written} {v : Value} (h : Spells w v) (hv : ¬ f.form.Takes v) :
    Reads (.wrong f w) (f.key, v)

theorem Line.spellsKey (l : Line) : SpellsKey l.written.1 l.key := by
  cases l with
  | sets f x => exact f.bare_key.spellsKey
  | other k w => exact k.spells
  | wrong f w => exact f.bare_key.spellsKey

theorem Line.Reads.tells {l : Line} {e : String × Value} (h : l.Reads e) : Tells l.written e := by
  cases h with
  | sets h => exact ⟨Line.spellsKey (.sets _ _), h⟩
  | other h => exact ⟨Line.spellsKey (.other _ _), h⟩
  | wrong h hv => exact ⟨Line.spellsKey (.wrong _ _), h⟩

theorem Line.Reads.key_eq {l : Line} {e : String × Value} (h : l.Reads e) : e.1 = l.key := by
  cases h <;> rfl

/-- A line can be read, unless it is wrong. -/
theorem Line.Suits.reads_or {name : String} {l : Line} (h : l.Suits name) :
    (∃ e, l.Reads e) ∨ l.IsWrong ∧ Unreadable l.written.2 := by
  cases l with
  | sets f x => exact .inl ⟨_, .sets (Form.spells_write h.2)⟩
  | other k w =>
    obtain ⟨-, v, hv⟩ := h
    exact .inl ⟨_, .other hv⟩
  | wrong f w =>
    obtain ⟨-, v, hv, hw | ⟨n, rfl, rfl⟩⟩ := h
    · exact .inl ⟨_, .wrong hw hv⟩
    · by_cases hn : -2 ^ 63 ≤ n ∧ n < 2 ^ 63
      · exact .inl ⟨_, .wrong (spells_int hn.1 hn.2) hv⟩
      · exact .inr ⟨trivial, unreadable_int (by omega)⟩

theorem Line.Suits.legible {name : String} {l : Line} (h : l.Suits name) : Legible l.written := by
  rcases h.reads_or with ⟨e, he⟩ | ⟨-, h⟩
  · exact ⟨_, l.spellsKey, .inl ⟨_, he.tells.spells⟩⟩
  · exact ⟨_, l.spellsKey, .inr h⟩

/-! ### Reading lines -/

/-- What reading some lines comes to: it fails if one of them is wrong; otherwise it goes on with the
settings that they make. -/
inductive Comes (ls : List Line) (s : Settings) (next : Settings → Except Problem Settings) :
    Except Problem Settings → Prop
  | goes {t : Settings} (hright : ∀ l ∈ ls, ¬ l.IsWrong) (h : Makes ls s t) : Comes ls s next (next t)
  | fails {p : Problem} (hwrong : ∃ l ∈ ls, l.IsWrong) : Comes ls s next (.error p)

section Comes

variable {ls ms : List Line} {s : Settings} {next next' : Settings → Except Problem Settings}
  {r : Except Problem Settings}

theorem Comes.append (h : Comes ls s next r) (hnext : ∀ t, Comes ms t next' (next t))
    (hone : ∀ f x y, .sets f x ∈ ls → .sets f y ∉ ms) : Comes (ls ++ ms) s next' r := by
  cases h with
  | fails hwrong =>
    obtain ⟨l, hl, hwrong⟩ := hwrong
    exact .fails ⟨l, List.mem_append_left _ hl, hwrong⟩
  | @goes t hright h =>
    have hrest := hnext t
    generalize next t = r at hrest ⊢
    cases hrest with
    | fails hwrong =>
      obtain ⟨l, hl, hwrong⟩ := hwrong
      exact .fails ⟨l, List.mem_append_right _ hl, hwrong⟩
    | goes hright' h' =>
      exact .goes (List.forall_mem_append.mpr ⟨hright, hright'⟩) (h.append h' hone)

theorem Comes.bind (h : Comes ls s .ok r) (next : Settings → Except Problem Settings) :
    Comes ls s next (r.bind next) := by
  cases h with
  | goes hright h => exact .goes hright h
  | fails hwrong => exact .fails hwrong

end Comes

theorem comes_line {c : Section} {l : Line} {e : String × Value} (h : l.Reads e) (hl : l.Suits c.name)
    (es : Entries) (s : Settings) : Comes [l] s (c.read es) (c.read (e :: es) s) := by
  cases h with
  | @sets f x h =>
    obtain rfl := Section.name_injective hl.1
    rw [Section.read_cons (Form.read_value f.form x)]
    exact .goes (by simp [Line.IsWrong]) (makes_put f x s)
  | @other k w v h =>
    rw [Section.read_skip fun f hf => hl.1 f (congrArg Section.name hf)]
    exact .goes (by simp [Line.IsWrong]) (makes_self (by simp) s)
  | @wrong f w v h hv =>
    obtain rfl := Section.name_injective hl.1
    obtain ⟨p, hp⟩ := Form.read_refused hv
    rw [Section.read_cons_refused hp]
    exact .fails ⟨_, List.mem_singleton.mpr rfl, trivial⟩

theorem comes_lines {c : Section} {ls : List Line} {es : Entries} (h : List.Forall₂ Line.Reads ls es)
    (hls : ∀ l ∈ ls, l.Suits c.name) (hnodup : (ls.map Line.key).Nodup) (s : Settings) :
    Comes ls s .ok (c.read es s) := by
  induction h generalizing s with
  | nil =>
    rw [Section.read_nil]
    exact .goes nofun (makes_self (fun _ _ => List.not_mem_nil) s)
  | @cons l e ls es hle _ ih =>
    obtain ⟨hl, hls⟩ := List.forall_mem_cons.mp hls
    obtain ⟨hnew, hnodup⟩ := List.nodup_cons.mp hnodup
    -- The keys are different, so no later line sets again what this one sets.
    show Comes ([l] ++ ls) s .ok _
    refine (comes_line hle hl es s).append (fun t => ih hls hnodup t) ?_
    intro f x y hx hy
    rw [← List.mem_singleton.mp hx] at hnew
    exact hnew (List.mem_map.mpr ⟨_, hy, rfl⟩)

/-- Lines under a header that is no section's set nothing. -/
theorem Line.Suits.stray {name : String} {l : Line} (h : l.Suits name)
    (hname : ∀ c : Section, c.name ≠ name) : ∃ k w, l = .other k w := by
  cases l with
  | sets f x => exact absurd h.1 (hname _)
  | other k w => exact ⟨k, w, rfl⟩
  | wrong f w => exact absurd h.1 (hname _)

theorem comes_passage {p : Passage} (hp : p.Valid) {es : Entries}
    (h : List.Forall₂ Line.Reads p.lines es) (rest : Entries) (s : Settings) :
    Comes p.lines s (readEntries sections rest)
      (readEntries sections ((p.head.name, .table .header es) :: rest) s) := by
  by_cases hname : ∃ c : Section, c.name = p.head.name
  · obtain ⟨c, hc⟩ := hname
    have hsuits := hp.suits
    rw [← hc] at hsuits ⊢
    rw [readEntries_section]
    exact (comes_lines h hsuits hp.nodup s).bind _
  · have hname : ∀ c : Section, c.name ≠ p.head.name := fun c hc => hname ⟨c, hc⟩
    -- The whole table is skipped, and no line in it can be about a setting.
    have hstray : ∀ l ∈ p.lines, ∃ k w, l = .other k w := fun l hl => (hp.suits l hl).stray hname
    rw [readEntries_skip (lookup_sections_eq_none hname)]
    refine .goes (fun l hl => ?_) (makes_self (fun f x hx => ?_) s)
    · obtain ⟨k, w, rfl⟩ := hstray l hl
      exact id
    · obtain ⟨k, w, heq⟩ := hstray _ hx
      cases heq

/-- The tables that passages are read as. -/
def Passage.Reads (p : Passage) (e : String × Entries) : Prop :=
  e.1 = p.head.name ∧ List.Forall₂ Line.Reads p.lines e.2

theorem comes_passages {ps : List Passage} {ss : List (String × Entries)}
    (h : List.Forall₂ Passage.Reads ps ss) (hps : ∀ p ∈ ps, p.Valid)
    (hnodup : (ps.map (·.head.name)).Nodup) (s : Settings) :
    Comes (ps.flatMap (·.lines)) s .ok (readEntries sections (tables ss) s) := by
  induction h generalizing s with
  | nil => exact .goes nofun (makes_self (fun _ _ => List.not_mem_nil) s)
  | @cons p e ps ss hpe _ ih =>
    obtain ⟨hp, hps⟩ := List.forall_mem_cons.mp hps
    obtain ⟨hnew, hnodup⟩ := List.nodup_cons.mp hnodup
    obtain ⟨name, es⟩ := e
    obtain ⟨rfl, hes⟩ := hpe
    refine (comes_passage hp hes (tables ss) s).append (fun t => ih hps hnodup t) ?_
    intro f x y hx hy
    obtain ⟨q, hq, hy⟩ := List.mem_flatMap.mp hy
    have hsame : p.head.name = q.head.name :=
      (hp.suits _ hx).1.symm.trans ((hps q hq).suits _ hy).1
    exact hnew (List.mem_map.mpr ⟨q, hq, hsame.symm⟩)

/-! ### Reading documents -/

/-- What each can be read as, all of them can. -/
theorem exists_forall₂ {α β : Type} {R : α → β → Prop} {as : List α} (h : ∀ a ∈ as, ∃ b, R a b) :
    ∃ bs, List.Forall₂ R as bs := by
  induction as with
  | nil => exact ⟨[], .nil⟩
  | cons a as ih =>
    obtain ⟨⟨b, hb⟩, has⟩ := List.forall_mem_cons.mp h
    obtain ⟨bs, hbs⟩ := ih has
    exact ⟨b :: bs, .cons hb hbs⟩

theorem map_eq_of_forall₂ {α β γ : Type} {R : α → β → Prop} {f : α → γ} {g : β → γ} {as : List α}
    {bs : List β} (h : List.Forall₂ R as bs) (hfg : ∀ a b, R a b → g b = f a) :
    bs.map g = as.map f := by
  induction h with
  | nil => rfl
  | cons hab _ ih => exact congrArg₂ List.cons (hfg _ _ hab) ih

theorem Passage.Valid.tells {p : Passage} (hp : p.Valid) {e : String × Entries} (h : p.Reads e) :
    TellsSection (p.head.text, p.lines.map Line.written) e where
  name := by
    rw [h.1]
    exact p.head.spells
  entries := List.forall₂_map_left_iff.mpr (h.2.imp fun _ _ => Line.Reads.tells)
  nodup := by
    have hkeys : e.2.keys = p.lines.map Line.key := map_eq_of_forall₂ h.2 fun _ _ => Line.Reads.key_eq
    rw [hkeys]
    exact hp.nodup

theorem Layout.Valid.parse?_eq {l : Layout} (h : l.Valid)
    (hread : ∀ p ∈ l.passages, ∀ m ∈ p.lines, ∃ e, m.Reads e) : ∃ (es : Entries) (ss : _),
      parse? l.text = some (es ++ tables ss) ∧ es.keys = l.lead.map (·.1.name) ∧
        List.Forall₂ Passage.Reads l.passages ss := by
  have hlead : ∀ a ∈ l.lead, ∃ e : String × Value, Tells (a.1.text, a.2) e ∧ e.1 = a.1.name := by
    intro a ha
    obtain ⟨-, v, hv⟩ := h.lead a ha
    exact ⟨(a.1.name, v), ⟨a.1.spells, hv⟩, rfl⟩
  have hpassages : ∀ p ∈ l.passages, ∃ e, p.Reads e ∧
      TellsSection (p.head.text, p.lines.map Line.written) e := by
    intro p hp
    obtain ⟨es, hes⟩ := exists_forall₂ (hread p hp)
    have hreads : p.Reads (p.head.name, es) := ⟨rfl, hes⟩
    exact ⟨_, hreads, (h.passages p hp).tells hreads⟩
  obtain ⟨es, hes⟩ := exists_forall₂ hlead
  obtain ⟨ss, hss⟩ := exists_forall₂ hpassages
  have hkeys : Entries.keys es = l.lead.map (·.1.name) := map_eq_of_forall₂ hes fun _ _ he => he.2
  have hnames : (tables ss).keys = l.passages.map (·.head.name) := by
    rw [Entries.keys, tables, List.map_map]
    exact map_eq_of_forall₂ hss fun _ _ hs => hs.1.1
  have hnodup : (Entries.keys (es ++ tables ss)).Nodup := by
    have hboth : Entries.keys (es ++ tables ss) = Entries.keys es ++ (tables ss).keys := List.map_append
    rw [hboth, hkeys, hnames]
    exact h.nodup
  exact ⟨es, ss, parse?_document (List.forall₂_map_left_iff.mpr (hes.imp fun _ _ he => he.1))
    (List.forall₂_map_left_iff.mpr (hss.imp fun _ _ hs => hs.2)) hnodup, hkeys,
    hss.imp fun _ _ hs => hs.1⟩

theorem Layout.Valid.comes {l : Layout} (h : l.Valid)
    (hread : ∀ p ∈ l.passages, ∀ m ∈ p.lines, ∃ e, m.Reads e) :
    Comes l.lines {} .ok (ofToml l.text) := by
  obtain ⟨es, ss, hparse, hes, hss⟩ := h.parse?_eq hread
  have hskip : ∀ e ∈ es, sections.lookup e.1 = none := by
    intro e he
    have hmem : e.1 ∈ l.lead.map (·.1.name) := hes ▸ List.mem_map_of_mem he
    obtain ⟨a, ha, hname⟩ := List.mem_map.mp hmem
    exact lookup_sections_eq_none (hname ▸ (h.lead a ha).1)
  rw [ofToml, hparse]
  dsimp only
  rw [readEntries_append_skip hskip]
  exact comes_passages hss h.passages (List.nodup_append.mp h.nodup).2.1 {}

/-- Something that cannot be read spoils the document. -/
theorem Layout.Valid.ofToml_eq_error {l : Layout} (h : l.Valid)
    (hbad : ∃ p ∈ l.passages, ∃ m ∈ p.lines, Unreadable m.written.2) :
    ofToml l.text = .error .malformed := by
  have hlegible : ∀ p ∈ l.passages, ∀ a ∈ p.lines.map Line.written, Legible a := fun p hp =>
    List.forall_mem_map.mpr fun m hm => ((h.passages p hp).suits m hm).legible
  have hlead : ∀ a ∈ l.lead.map fun e => (e.1.text, e.2), Legible a := by
    refine List.forall_mem_map.mpr fun e he => ?_
    obtain ⟨-, hv⟩ := h.lead e he
    exact ⟨e.1.name, e.1.spells, .inl hv⟩
  have hnone : parse? l.text = none := by
    refine parse?_unreadable hlead (List.forall_mem_map.mpr fun p _ => ⟨_, p.head.spells⟩)
      (List.forall_mem_map.mpr hlegible) ?_
    obtain ⟨p, hp, m, hm, hbad⟩ := hbad
    exact ⟨_, List.mem_map_of_mem hp, _, List.mem_map_of_mem hm, hbad⟩
  rw [ofToml, hnone]

/-- **The settings that a document names are read, and all others keep their defaults**, in whatever
order keys and sections stand, and whatever else stands between them.  If a setting is given something
that it does not take, no settings are read at all. -/
theorem ofToml_layout (l : Layout) (h : l.Valid) :
    ((∀ m ∈ l.lines, ¬ m.IsWrong) → ∃ s, ofToml l.text = .ok s ∧ Makes l.lines {} s ∧
      ∀ t, Makes l.lines {} t → t = s) ∧
    ((∃ m ∈ l.lines, m.IsWrong) → ∃ p message, ofToml l.text = .error p ∧
      p.fault = .config message) := by
  -- If a line cannot be read, it is a setting with an integer that no document has room for.
  by_cases hread : ∀ p ∈ l.passages, ∀ m ∈ p.lines, ∃ e, m.Reads e
  · have hcomes := h.comes hread
    generalize ofToml l.text = r at hcomes ⊢
    cases hcomes with
    | @goes s hright hs =>
      refine ⟨fun _ => ⟨s, rfl, hs, fun t ht => ht.unique hs⟩, ?_⟩
      rintro ⟨m, hm, hwrong⟩
      exact absurd hwrong (hright m hm)
    | @fails p hwrong =>
      refine ⟨fun hright => ?_, fun _ => ⟨p, _, rfl, rfl⟩⟩
      obtain ⟨m, hm, hwrong⟩ := hwrong
      exact absurd hwrong (hright m hm)
  · push Not at hread
    obtain ⟨p, hp, m, hm, hnone⟩ := hread
    obtain ⟨e, he⟩ | ⟨hwrong, hbad⟩ := ((h.passages p hp).suits m hm).reads_or
    · exact absurd he (hnone e)
    · have hmem : m ∈ l.lines := List.mem_flatMap.mpr ⟨p, hp, hm⟩
      exact ⟨fun hright => absurd hwrong (hright m hmem),
        fun _ => ⟨_, _, h.ofToml_eq_error ⟨p, hp, m, hm, hbad⟩, rfl⟩⟩

/-- Sections and keys out of order, among others that nobody knows; then the same with a size that is
too large to be read. -/
theorem ofToml_layout_mixed :
    let logging : Passage := ⟨.bare "logging" (by decide), [.sets .level .warn,
      .other (.bare "thread_name" (by decide)) "1979-05-27".toList, .sets .appName "a \"b\"\n"]⟩
    let extra : Passage := ⟨.quoted "the rest", [.other (.quoted "") "-1.5e3".toList]⟩
    let transport : Passage := ⟨.bare "transport" (by decide),
      [.wrong .maxBodySize (Scalar.ofInt 18446744073709551616)]⟩
    let lead : List (Key × Written) := [(.bare "bind_address" (by decide), "true".toList)]
    (∃ s, ofToml (Layout.text ⟨lead, [logging, extra]⟩) = .ok s ∧ s.logging.level = .warn ∧
      s.logging.appName = "a \"b\"\n" ∧ s.server.threadName = "framed-net-server") ∧
    ∃ p message, ofToml (Layout.text ⟨lead, [logging, transport, extra]⟩) = .error p ∧
      p.fault = .config message := by
  intro logging extra transport lead
  have hlead : ∀ e ∈ lead, (∀ c : Section, c.name ≠ e.1.name) ∧ ∃ v, Spells e.2 v := by
    refine List.forall_mem_singleton.mpr ⟨fun c => ?_, .boolean true, spells_bool true⟩
    cases c <;> decide
  have hlogging : logging.Valid := by
    have hdate : Line.Suits "logging" (.other (.bare "thread_name" (by decide)) "1979-05-27".toList) := by
      refine ⟨fun f hf => ?_, .moment, spells_word (List.all_eq_true.mp rfl) (by decide) rfl⟩
      cases f <;> first | decide | exact absurd hf (by decide)
    exact ⟨List.forall_mem_cons.mpr ⟨⟨rfl, trivial⟩, List.forall_mem_cons.mpr ⟨hdate,
      List.forall_mem_singleton.mpr ⟨rfl, trivial⟩⟩⟩, by decide⟩
  have hextra : extra.Valid := by
    refine ⟨List.forall_mem_singleton.mpr ⟨fun f hf => ?_, .float, ?_⟩, by decide⟩
    · cases f <;> exact absurd hf (by decide)
    · exact spells_word (List.all_eq_true.mp rfl) (by decide) rfl
  have htransport : transport.Valid := by
    refine ⟨List.forall_mem_singleton.mpr ⟨rfl, _, ?_, .inr ⟨_, rfl, rfl⟩⟩, by decide⟩
    exact fun h => absurd h.2 (by decide)
  have hright : Layout.Valid ⟨lead, [logging, extra]⟩ :=
    ⟨hlead, List.forall_mem_cons.mpr ⟨hlogging, List.forall_mem_singleton.mpr hextra⟩, by decide⟩
  have hwrong : Layout.Valid ⟨lead, [logging, transport, extra]⟩ :=
    ⟨hlead, List.forall_mem_cons.mpr ⟨hlogging, List.forall_mem_cons.mpr
      ⟨htransport, List.forall_mem_singleton.mpr hextra⟩⟩, by decide⟩
  constructor
  · obtain ⟨s, hs, hmakes, -⟩ := (ofToml_layout _ hright).1 (by
      simp [Layout.lines, logging, extra, Line.IsWrong])
    refine ⟨s, hs, ?_, ?_, ?_⟩
    · exact Option.some.inj (hmakes.set .level .warn (by simp [Layout.lines, logging]))
    · exact Option.some.inj (hmakes.set .appName "a \"b\"\n" (by simp [Layout.lines, logging]))
    · exact Option.some.inj (hmakes.unset .serverThreadName fun x => by
        simp [Layout.lines, logging, extra])
  · exact (ofToml_layout _ hwrong).2 ⟨_, List.mem_flatMap.mpr
      ⟨transport, .tail _ (.head _), .head _⟩, trivial⟩

end Parley.Settings
