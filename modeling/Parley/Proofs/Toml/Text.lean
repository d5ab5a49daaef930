import Mathlib.Data.List.Infix
import Parley.Toml.Writer

/-!
# Parley.Proofs.Toml.Text — what is written between quotes is read back

Whichever quotes a text is written between, reading what was written gives the text and stops right
after the closing quotes (`quoted_write`).  Between single quotes nothing is escaped, so this rests
on the conditions under which a text is written so: no control characters, and no run of quotes that
would close it.  Between double quotes it rests on the escapes alone: each of them is read as the
character it stands for, in texts on one line and on several alike (`basic_escape`,
`basicLines_escape`).
-/

namespace Parley.Toml.Text

/-! ### Characters -/

theorem isPlain_iff {c : Char} : isPlain c = true ↔ isCode c = false ∧ c ≠ '\n' := by
  have hlt : (c < ' ') = ¬ (' ' ≤ c) := by simp
  simp only [isPlain, isCode, hlt]
  by_cases ht : c = '\t'
  · subst ht; decide
  · by_cases hn : c = '\n'
    · subst hn; decide
    · by_cases hs : ' ' ≤ c <;> simp [ht, hn, hs]

theorem isPlain_of_escapeOf? {c : Char} (h : escapeOf? c = none) : isPlain c = true ∧ c ≠ '\\' := by
  simp only [escapeOf?] at h
  split_ifs at h with h1 h2 h3 h4 h5 h6
  obtain ⟨hlow, hdel⟩ := not_or.mp h6
  refine ⟨?_, h5⟩
  simp [isPlain, Char.not_lt.mp hlow, hdel]

/-- The escape of a character by its code spells that code. -/
theorem coded?_codeEscape {c : Char} (h : c.toNat < 128) :
    coded? ['0', '0', upperDigit (c.toNat / 16), upperDigit (c.toNat % 16)] = some c := by
  have hall : ∀ n < 128, coded? ['0', '0', upperDigit (n / 16), upperDigit (n % 16)]
      = some (Char.ofNat n) := by decide
  rw [hall _ h, Char.ofNat_toNat]

theorem toNat_of_isCode {c : Char} (h : c < ' ' ∨ c = '\x7f') : c.toNat < 128 := by
  rcases h with h | rfl
  · have : c.toNat < 32 := h
    omega
  · decide

/-- What an escape looks like: a backslash and a letter that stands for the character, or the code
of the character. -/
theorem escapeOf?_cases {c : Char} {e : List Char} (h : escapeOf? c = some e) :
    (∃ x, e = ['\\', x] ∧ escape? x = some c ∧ isBlank x = false ∧ x ≠ '\r' ∧ x ≠ '\n') ∨
      (e = codeEscape c ∧ c.toNat < 128) := by
  simp only [escapeOf?] at h
  split_ifs at h with h1 h2 h3 h4 h5 h6 <;> obtain rfl := Option.some.inj h
  · exact .inl ⟨'b', rfl, h1 ▸ rfl, rfl, by decide, by decide⟩
  · exact .inl ⟨'t', rfl, h2 ▸ rfl, rfl, by decide, by decide⟩
  · exact .inl ⟨'f', rfl, h3 ▸ rfl, rfl, by decide, by decide⟩
  · exact .inl ⟨'r', rfl, h4 ▸ rfl, rfl, by decide, by decide⟩
  · exact .inl ⟨'\\', rfl, by rw [h5]; rfl, rfl, by decide, by decide⟩
  · exact .inr ⟨rfl, toNat_of_isCode h6⟩

/-- No letter after a backslash announces a code. -/
theorem not_code_of_escape? {x c : Char} (h : escape? x = some c) : x ≠ 'u' ∧ x ≠ 'U' := by
  constructor <;> (rintro rfl; simp [escape?] at h)

/-! ### Between double quotes on one line -/

theorem basic_escape {x c : Char} (h : escape? x = some c) (r : List Char) :
    basic ('\\' :: x :: r) = prepend c (basic r) := by
  obtain ⟨hu, hU⟩ := not_code_of_escape? h
  simp [basic, hu, hU, h]

theorem basic_escapeOf? {c : Char} {e : List Char} (h : escapeOf? c = some e) (r : List Char) :
    basic (e ++ r) = prepend c (basic r) := by
  rcases escapeOf?_cases h with ⟨x, rfl, hx, -⟩ | ⟨rfl, hc⟩
  · exact basic_escape hx r
  · simp [codeEscape, basic, coded?_codeEscape hc]

theorem basic_plain {c : Char} (hc : isPlain c = true) (hq : c ≠ '"') (hb : c ≠ '\\')
    (r : List Char) : basic (c :: r) = prepend c (basic r) := by
  simp [basic, hq, hb, isBasic, hc]

/-- A text with escapes is read as the text it was made of. -/
theorem basic_escapeAll (cs r : List Char) : basic (escapeAll cs ++ '"' :: r) = some (cs, r) := by
  induction cs with
  | nil => rfl
  | cons c cs ih =>
    simp only [escapeAll, List.flatMap_cons, List.append_assoc] at ih ⊢
    by_cases hq : c = '"'
    · rw [if_pos hq, List.cons_append, List.cons_append, List.nil_append,
        basic_escape rfl, ih, hq]
      rfl
    rw [if_neg hq]
    by_cases hn : c = '\n'
    · rw [if_pos hn, List.cons_append, List.cons_append, List.nil_append,
        basic_escape rfl, ih, hn]
      rfl
    rw [if_neg hn]
    cases he : escapeOf? c with
    | some e => rw [Option.getD_some, basic_escapeOf? he, ih]; rfl
    | none =>
      obtain ⟨hp, hb⟩ := isPlain_of_escapeOf? he
      rw [Option.getD_none, List.cons_append, List.nil_append, basic_plain hp hq hb, ih]
      rfl

/-! ### Between double quotes on several lines -/

theorem basicLines_escape {x c : Char} (h : escape? x = some c) (hb : isBlank x = false)
    (hr : x ≠ '\r') (hn : x ≠ '\n') (r : List Char) :
    basicLines .text ('\\' :: x :: r) = prepend c (basicLines .text r) := by
  obtain ⟨hu, hU⟩ := not_code_of_escape? h
  rw [basicLines.eq_def]
  simp [hu, hU, h, hb, hr, hn]

theorem basicLines_escapeOf? {c : Char} {e : List Char} (h : escapeOf? c = some e)
    (r : List Char) : basicLines .text (e ++ r) = prepend c (basicLines .text r) := by
  rcases escapeOf?_cases h with ⟨x, rfl, hx, hb, hr, hn⟩ | ⟨rfl, hc⟩
  · exact basicLines_escape hx hb hr hn r
  · rw [basicLines.eq_def]
    simp [codeEscape, coded?_codeEscape hc]

/-- A character that stands for itself, unless it is the first of three quotes. -/
theorem basicLines_plain {c : Char} (hc : isPlain c = true ∨ c = '\n') (hb : c ≠ '\\')
    {r : List Char} (hq : c = '"' → ∀ t, r ≠ '"' :: '"' :: t) :
    basicLines .text (c :: r) = prepend c (basicLines .text r) := by
  have hr : c ≠ '\r' := by
    rintro rfl
    exact absurd hc (by decide)
  have hself : (isBasic c || c == '\n' || c == '"') = true := by
    rcases hc with hc | rfl
    · by_cases h : c = '"' <;> simp [isBasic, hc, hb, h]
    · decide
  rw [basicLines, if_pos hself]
  all_goals simp_all

theorem escapeLines_cons {c : Char} (hq : c ≠ '"') (hn : c ≠ '\n') (run : Nat)
    (cs : List Char) :
    escapeLines run (c :: cs) = (escapeOf? c).getD [c] ++ escapeLines 0 cs := by
  rw [escapeLines.eq_def]
  split <;> simp_all

/-- An escaped text starts with a quote only if the text does, and two quotes come before it at the
most. -/
theorem head_escapeLines {run : Nat} {c : Char} {cs r t : List Char}
    (h : escapeLines run (c :: cs) ++ r = '"' :: t) :
    c = '"' ∧ run ≠ 2 ∧ t = escapeLines (run + 1) cs ++ r := by
  by_cases hq : c = '"'
  · subst hq
    by_cases hr : run = 2
    · simp [escapeLines, hr] at h
    · simp only [escapeLines, if_neg hr, List.cons_append, List.cons.injEq, true_and] at h
      exact ⟨rfl, hr, h.symm⟩
  by_cases hn : c = '\n'
  · subst hn
    simp [escapeLines] at h
  rw [escapeLines_cons hq hn] at h
  cases he : escapeOf? c with
  | none => simp [he, hq] at h
  | some e =>
    rcases escapeOf?_cases he with ⟨x, rfl, -⟩ | ⟨rfl, -⟩ <;> simp [he, codeEscape] at h

/-- The three quotes that close a text. -/
abbrev closing (q : Char) (r : List Char) : List Char := q :: q :: q :: r

/-- A text with escapes on several lines is read as the text it was made of.  The induction is on
the text; the quotes that went before a piece of it were read already, so only the quotes to come
can close the text, and there are three of them in a row only where it ends. -/
theorem basicLines_escapeLines {r : List Char} (hr : ∀ t, r ≠ '"' :: t) (cs : List Char) :
    ∀ run ≤ 2, basicLines .text (escapeLines run cs ++ closing '"' r) = some (cs, r) := by
  induction cs with
  | nil =>
    intro run _
    rw [escapeLines, List.nil_append, basicLines]
    · exact fun t h => hr _ h
    · exact fun t h => hr _ h
  | cons c cs ih =>
    intro run hrun
    by_cases hq : c = '"'
    · subst hq
      by_cases h2 : run = 2
      · rw [escapeLines, if_pos h2, List.cons_append, List.cons_append,
          basicLines_escape rfl rfl (by decide) (by decide), ih 0 (by omega)]
        rfl
      rw [escapeLines, if_neg h2, List.cons_append]
      cases cs with
      | nil => rw [escapeLines, List.nil_append, basicLines]; exact hr
      | cons d ds =>
        by_cases hfive : d = '"' ∧ ds = [] ∧ run = 0
        · obtain ⟨rfl, rfl, rfl⟩ := hfive
          simp [escapeLines, basicLines]
        rw [basicLines_plain (.inl rfl) (by decide), ih (run + 1) (by omega)]
        · rfl
        · rintro - t ht
          obtain ⟨rfl, h1, ht⟩ := head_escapeLines ht
          cases ds with
          | nil => exact hfive ⟨rfl, rfl, by omega⟩
          | cons d ds => exact absurd (head_escapeLines ht.symm).2.1 (by omega)
    by_cases hn : c = '\n'
    · subst hn
      rw [escapeLines, List.cons_append, basicLines_plain (.inr rfl) (by decide) (by simp),
        ih 0 (by omega)]
      rfl
    rw [escapeLines_cons hq hn, List.append_assoc]
    cases he : escapeOf? c with
    | some e => rw [Option.getD_some, basicLines_escapeOf? he, ih 0 (by omega)]; rfl
    | none =>
      obtain ⟨hp, hb⟩ := isPlain_of_escapeOf? he
      rw [Option.getD_none, List.cons_append, List.nil_append,
        basicLines_plain (.inl hp) hb (by simp [hq]), ih 0 (by omega)]
      rfl

/-! ### Between single quotes -/

theorem literal_append {cs : List Char} (h : ∀ c ∈ cs, isPlain c = true ∧ c ≠ '\'')
    (r : List Char) : literal (cs ++ '\'' :: r) = some (cs, r) := by
  induction cs with
  | nil => rfl
  | cons c cs ih =>
    obtain ⟨⟨hp, hq⟩, hcs⟩ := List.forall_mem_cons.mp h
    rw [List.cons_append, literal, if_pos (by simp [isLiteral, hp, hq]), ih hcs]
    · rfl
    · simpa using hq

/-- The run a character ends, and the longest one so far. -/
def runs (q : Char) (p : Nat × Nat) (x : Char) : Nat × Nat :=
  if x = q then (p.1 + 1, max p.2 (p.1 + 1)) else (0, p.2)

theorem longestRun_eq (q : Char) (cs : List Char) :
    longestRun q cs = (cs.foldl (runs q) (0, 0)).2 := rfl

theorem le_foldl_runs (q : Char) (cs : List Char) (p : Nat × Nat) :
    p.2 ≤ (cs.foldl (runs q) p).2 := by
  induction cs generalizing p with
  | nil => exact Nat.le_refl _
  | cons c cs ih =>
    have h : p.2 ≤ (runs q p c).2 := by
      unfold runs
      split
      · exact Nat.le_max_left _ _
      · exact Nat.le_refl _
    exact h.trans (ih _)

/-- A text with no run of three quotes has no three quotes in a row. -/
theorem not_infix_of_longestRun {q : Char} {cs : List Char} (h : longestRun q cs ≤ 2) :
    ¬ [q, q, q] <:+: cs := by
  rintro ⟨a, b, rfl⟩
  have hle := le_foldl_runs q b (([q, q, q] : List Char).foldl (runs q) (a.foldl (runs q) (0, 0)))
  rw [longestRun_eq, List.foldl_append, List.foldl_append] at h
  have hthree : ∀ p : Nat × Nat, 3 ≤ (([q, q, q] : List Char).foldl (runs q) p).2 := by
    intro p
    simp only [List.foldl_cons, List.foldl_nil, runs, ↓reduceIte]
    omega
  have := hthree (a.foldl (runs q) (0, 0))
  omega

theorem literalLines_plain {c : Char} (hc : isPlain c = true ∨ c = '\n') {r : List Char}
    (hq : c = '\'' → ∀ t, r ≠ '\'' :: '\'' :: t) :
    literalLines (c :: r) = prepend c (literalLines r) := by
  have hr : c ≠ '\r' := by
    rintro rfl
    exact absurd hc (by decide)
  rw [literalLines, if_pos (by simpa using hc)]
  all_goals simp_all

/-- A text that is written as it is, with no three quotes in a row, is read as it is. -/
theorem literalLines_append {r : List Char} (hr : ∀ t, r ≠ '\'' :: t) (cs : List Char)
    (hcs : ∀ c ∈ cs, isPlain c = true ∨ c = '\n') (hrun : ¬ ['\'', '\'', '\''] <:+: cs) :
    literalLines (cs ++ closing '\'' r) = some (cs, r) := by
  induction cs with
  | nil =>
    rw [List.nil_append, literalLines]
    · exact fun t h => hr _ h
    · exact fun t h => hr _ h
  | cons c cs ih =>
    obtain ⟨hc, hcs⟩ := List.forall_mem_cons.mp hcs
    have ih := ih hcs fun h => hrun (h.trans (List.suffix_cons c cs).isInfix)
    by_cases hq : c = '\''
    · subst hq
      match cs, ih, hrun with
      | [], _, _ => rw [List.cons_append, List.nil_append, literalLines]; exact hr
      | [d], ih, _ =>
        by_cases hd : d = '\''
        · subst hd
          simp [literalLines]
        · rw [List.cons_append, literalLines_plain hc (by simp [hd]), ih]
          rfl
      | d :: e :: es, ih, hrun =>
        rw [List.cons_append, literalLines_plain hc, ih]
        · rfl
        · rintro - t ht
          simp only [List.cons_append, List.cons.injEq] at ht
          obtain ⟨rfl, rfl, -⟩ := ht
          exact hrun ⟨[], es, rfl⟩
    · rw [List.cons_append, literalLines_plain hc (by simp [hq]), ih]
      rfl

/-! ### Any quotes -/

/-- Texts between single quotes have nothing in them that would need an escape. -/
theorem style_cases (cs : List Char) :
    style cs = .basic ∨ (style cs = .literal ∧ ∀ c ∈ cs, isPlain c = true ∧ c ≠ '\'') ∨
      style cs = .basicLines ∨
      (style cs = .literalLines ∧ (∀ c ∈ cs, isPlain c = true ∨ c = '\n') ∧
        longestRun '\'' cs ≤ 2) := by
  simp only [style]
  split_ifs with h1 h2 h3 h4 h5
  · exact .inl rfl
  · simp only [Bool.and_eq_true, Bool.not_eq_true', List.any_eq_false, List.contains_eq_mem,
      decide_eq_false_iff_not, Bool.not_eq_true] at h2
    obtain ⟨⟨hcode, hq⟩, hn⟩ := h2
    exact .inr (.inl ⟨rfl, fun c hc => ⟨isPlain_iff.mpr ⟨hcode c hc, ne_of_mem_of_not_mem hc hn⟩,
      ne_of_mem_of_not_mem hc hq⟩⟩)
  · exact .inr (.inr (.inl rfl))
  · simp only [Bool.and_eq_true, Bool.not_eq_true', List.any_eq_false, decide_eq_true_eq,
      Bool.not_eq_true] at h4
    obtain ⟨hcode, hrun⟩ := h4
    refine .inr (.inr (.inr ⟨rfl, fun c hc => ?_, hrun⟩))
    by_cases hn : c = '\n'
    · exact .inr hn
    · exact .inl (isPlain_iff.mpr ⟨hcode c hc, hn⟩)
  · exact .inr (.inr (.inl rfl))
  · exact .inl rfl

/-- A text that does not start with a line break. -/
def Unbroken (cs : List Char) : Prop := ∀ c t, cs = c :: t → c ≠ '\n' ∧ c ≠ '\r'

theorem afterBreak_of_unbroken {cs : List Char} (h : Unbroken cs) : afterBreak cs = cs := by
  match cs, h with
  | [], _ => rfl
  | c :: t, h =>
    obtain ⟨hn, hr⟩ := h c t rfl
    rw [afterBreak]
    · exact fun u hu => hn (List.cons.inj hu).1
    · exact fun u hu => hr (List.cons.inj hu).1

theorem unbroken_of_isPlain {c : Char} (h : isPlain c = true) (t : List Char) :
    Unbroken (c :: t) := by
  rintro d u hd
  obtain ⟨rfl, -⟩ := List.cons.inj hd
  constructor <;> (rintro rfl; exact absurd h (by decide))

/-- An escape starts with a backslash. -/
theorem head_escapeOf? {c : Char} {e : List Char} (h : escapeOf? c = some e) :
    ∃ t, e = '\\' :: t := by
  rcases escapeOf?_cases h with ⟨x, rfl, -⟩ | ⟨rfl, -⟩
  · exact ⟨_, rfl⟩
  · exact ⟨_, rfl⟩

theorem unbroken_escapeLines {cs : List Char} (h : '\n' ∉ cs) (r : List Char) :
    Unbroken (escapeLines 0 cs ++ '"' :: r) := by
  match cs, h with
  | [], _ => exact unbroken_of_isPlain rfl _
  | c :: cs, h =>
    by_cases hq : c = '"'
    · subst hq
      exact unbroken_of_isPlain rfl _
    rw [escapeLines_cons hq (ne_of_mem_of_not_mem List.mem_cons_self h)]
    cases he : escapeOf? c with
    | none => exact unbroken_of_isPlain (isPlain_of_escapeOf? he).1 _
    | some e =>
      obtain ⟨t, rfl⟩ := head_escapeOf? he
      exact unbroken_of_isPlain rfl _

theorem escapeAll_ne {c : Char} {cs r t : List Char} : escapeAll (c :: cs) ++ r ≠ '"' :: t := by
  intro h
  simp only [escapeAll, List.flatMap_cons] at h
  by_cases hq : c = '"'
  · simp [hq] at h
  by_cases hn : c = '\n'
  · simp [hn] at h
  cases he : escapeOf? c with
  | none => simp [he, hq, hn] at h
  | some e =>
    obtain ⟨u, rfl⟩ := head_escapeOf? he
    simp [he, hq, hn] at h

/-- A text that is written starts with a quote. -/
theorem head_write (cs : List Char) : ∃ q t, write cs = q :: t ∧ (q = '"' ∨ q = '\'') := by
  simp only [write]
  cases style cs with
  | basic => exact ⟨_, _, rfl, .inl rfl⟩
  | literal => exact ⟨_, _, rfl, .inr rfl⟩
  | basicLines => exact ⟨_, _, rfl, .inl rfl⟩
  | literalLines => exact ⟨_, _, rfl, .inr rfl⟩

/-- A text that was read, and the rest after it. -/
def told : Option (List Char × List Char) → Option (String × List Char) :=
  Option.map fun p => (String.ofList p.1, p.2)

theorem quoted_basic {cs : List Char} (h : ∀ t, cs ≠ '"' :: '"' :: t) :
    quoted ('"' :: cs) = told (basic cs) := by
  rw [quoted.eq_def]
  split <;> simp_all [told]

theorem quoted_literal {cs : List Char} (h : ∀ t, cs ≠ '\'' :: '\'' :: t) :
    quoted ('\'' :: cs) = told (literal cs) := by
  rw [quoted.eq_def]
  split <;> simp_all [told]

theorem quoted_basicLines (cs : List Char) :
    quoted ('"' :: '"' :: '"' :: cs) = told (basicLines .text (afterBreak cs)) := rfl

theorem quoted_literalLines (cs : List Char) :
    quoted ('\'' :: '\'' :: '\'' :: cs) = told (literalLines (afterBreak cs)) := rfl

/-- The line break that may follow the opening quotes is the only one that is skipped. -/
theorem afterBreak_broken {lines : Bool} {cs : List Char} (h : lines = false → Unbroken cs) :
    afterBreak ((if lines then ['\n'] else []) ++ cs) = cs := by
  cases lines with
  | true => rfl
  | false => exact afterBreak_of_unbroken (h rfl)

/-- Whichever quotes a text is written between, it is read back, as long as no quote follows. -/
theorem quoted_write (s : String) {r : List Char} (hr : ∀ q t, q = '"' ∨ q = '\'' → r ≠ q :: t) :
    quoted (write s.toList ++ r) = some (s, r) := by
  have hdouble : ∀ t, r ≠ '"' :: t := fun t => hr _ t (.inl rfl)
  have hsingle : ∀ t, r ≠ '\'' :: t := fun t => hr _ t (.inr rfl)
  have htold : told (some (s.toList, r)) = some (s, r) := by simp [told]
  have hbreak : s.toList.contains '\n' = false → '\n' ∉ s.toList := by simp
  rcases style_cases s.toList with h | ⟨h, hcs⟩ | h | ⟨h, hcs, hrun⟩
  · have hw : write s.toList ++ r = '"' :: (escapeAll s.toList ++ '"' :: r) := by
      simp [write, h, between]
    rw [hw, quoted_basic, basic_escapeAll, htold]
    intro t ht
    match s.toList, ht with
    | [], ht => exact hdouble t (List.cons.inj ht).2
    | c :: cs, ht => exact escapeAll_ne ht
  · have hw : write s.toList ++ r = '\'' :: (s.toList ++ '\'' :: r) := by
      simp [write, h, between]
    rw [hw, quoted_literal, literal_append hcs, htold]
    intro t ht
    match s.toList, hcs, ht with
    | [], _, ht => exact hsingle t (List.cons.inj ht).2
    | c :: cs, hcs, ht => exact (hcs c List.mem_cons_self).2 (List.cons.inj ht).1
  · have hw : write s.toList ++ r = '"' :: '"' :: '"' ::
        ((if s.toList.contains '\n' then ['\n'] else []) ++
          (escapeLines 0 s.toList ++ closing '"' r)) := by
      simp [write, h, between]
    rw [hw, quoted_basicLines,
      afterBreak_broken fun hn => unbroken_escapeLines (hbreak hn) _,
      basicLines_escapeLines hdouble _ 0 (by omega), htold]
  · have hw : write s.toList ++ r = '\'' :: '\'' :: '\'' ::
        ((if s.toList.contains '\n' then ['\n'] else []) ++
          (s.toList ++ closing '\'' r)) := by
      simp [write, h, between]
    rw [hw, quoted_literalLines, afterBreak_broken,
      literalLines_append hsingle _ hcs (not_infix_of_longestRun hrun), htold]
    intro hn
    match s.toList, hcs, hbreak hn with
    | [], _, _ => exact unbroken_of_isPlain rfl _
    | c :: cs, hcs, hn =>
      refine unbroken_of_isPlain ((hcs c List.mem_cons_self).resolve_right ?_) _
      exact ne_of_mem_of_not_mem List.mem_cons_self hn

end Parley.Toml.Text
