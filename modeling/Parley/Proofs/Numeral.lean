import Mathlib.Logic.Basic
import Parley.Numeral

/-!
# Parley.Proofs.Numeral — which texts are numerals, and what is wrong with the others

A numeral is perhaps a plus sign, and then digits whose value stays within the bound (`Denotes`).
Of what is wrong with another text, reading names what comes first from the left (`FirstFlaw`): since
digits only make a value larger, it comes to light with the first digit that takes it over the bound.
-/

namespace Parley.Numeral

/-! ### Numerals -/

/-- `text` is a numeral of `n`, which is at most `bound`. -/
def Denotes (bound : Nat) (text : List Char) (n : Nat) : Prop :=
  ∃ plus ds, text = plus ++ ds ∧ (plus = [] ∨ plus = ['+']) ∧ ds ≠ [] ∧
    (∀ d ∈ ds, d.isDigit = true) ∧ Nat.ofDigitChars 10 ds 0 = n ∧ n ≤ bound

theorem Denotes.le {bound n : Nat} {text : List Char} (h : Denotes bound text n) : n ≤ bound := by
  obtain ⟨-, -, -, -, -, -, -, hle⟩ := h
  exact hle

/-- `plus` is the sign in front of `rest`: a plus that is there is taken for it. -/
def Signed (plus rest : List Char) : Prop := plus = ['+'] ∨ plus = [] ∧ rest.head? ≠ some '+'

/-- What is wrong with a text, from the left. -/
inductive FirstFlaw (bound : Nat) : List Char → Flaw → Prop
  | empty : FirstFlaw bound [] .empty
  /-- A plus that nothing follows is no sign. -/
  | lonePlus : FirstFlaw bound ['+'] .invalidDigit
  /-- All is well up to `c`, which is no digit. -/
  | stray {plus ds rest : List Char} {c : Char} (hplus : Signed plus (ds ++ c :: rest))
    (hds : ∀ d ∈ ds, d.isDigit = true) (hvalue : Nat.ofDigitChars 10 ds 0 ≤ bound)
    (hc : c.isDigit = false) : FirstFlaw bound (plus ++ (ds ++ c :: rest)) .invalidDigit
  /-- All is well up to the digit `c`, with which the value is over the bound. -/
  | excess {plus ds rest : List Char} {c : Char} (hplus : Signed plus (ds ++ c :: rest))
    (hds : ∀ d ∈ ds, d.isDigit = true) (hvalue : Nat.ofDigitChars 10 ds 0 ≤ bound)
    (hc : c.isDigit = true) (hover : bound < Nat.ofDigitChars 10 (ds ++ [c]) 0) :
    FirstFlaw bound (plus ++ (ds ++ c :: rest)) .tooLarge

/-! ### Digits -/

theorem digit?_of_isDigit {c : Char} (h : c.isDigit = true) :
    digit? c = some (c.toNat - '0'.toNat) := if_pos h

theorem digit?_of_not_isDigit {c : Char} (h : c.isDigit = false) : digit? c = none :=
  if_neg (by rw [h]; exact Bool.false_ne_true)

/-- One more digit. -/
theorem digits_cons {bound value : Nat} {c : Char} (h : c.isDigit = true) (cs : List Char) :
    digits bound value (c :: cs) =
      if Nat.ofDigitChars 10 [c] value ≤ bound then digits bound (Nat.ofDigitChars 10 [c] value) cs
      else .error .tooLarge := by
  rw [digits, digit?_of_isDigit h, Nat.ofDigitChars_cons, Nat.ofDigitChars_nil, Nat.mul_comm 10]

/-- Digits do not make a value smaller. -/
theorem le_ofDigitChars (cs : List Char) (value : Nat) : value ≤ Nat.ofDigitChars 10 cs value := by
  induction cs generalizing value with
  | nil => exact Nat.le_refl value
  | cons c cs ih =>
    rw [Nat.ofDigitChars_cons]
    exact Nat.le_trans (by omega) (ih _)

/-- Digits that keep the value within the bound are read. -/
theorem digits_append {bound : Nat} {ds : List Char} (hds : ∀ d ∈ ds, d.isDigit = true) {value : Nat}
    (h : Nat.ofDigitChars 10 ds value ≤ bound) (rest : List Char) :
    digits bound value (ds ++ rest) = digits bound (Nat.ofDigitChars 10 ds value) rest := by
  induction ds generalizing value with
  | nil => rfl
  | cons d ds ih =>
    obtain ⟨hd, hds⟩ := List.forall_mem_cons.mp hds
    have happend : Nat.ofDigitChars 10 (d :: ds) value =
        Nat.ofDigitChars 10 ds (Nat.ofDigitChars 10 [d] value) :=
      Nat.ofDigitChars_append (l := [d]) value
    rw [happend] at h ⊢
    rw [List.cons_append, digits_cons hd, if_pos (Nat.le_trans (le_ofDigitChars ds _) h), ih hds h]

/-- What reading digits comes to: all of them are read, or it ends at the first that cannot be. -/
inductive Scan (bound value : Nat) (cs : List Char) : Except Flaw Nat → Prop
  | read (hcs : ∀ d ∈ cs, d.isDigit = true) (hvalue : Nat.ofDigitChars 10 cs value ≤ bound) :
    Scan bound value cs (.ok (Nat.ofDigitChars 10 cs value))
  | stray {ds rest : List Char} {c : Char} (hcs : cs = ds ++ c :: rest)
    (hds : ∀ d ∈ ds, d.isDigit = true) (hvalue : Nat.ofDigitChars 10 ds value ≤ bound)
    (hc : c.isDigit = false) : Scan bound value cs (.error .invalidDigit)
  | excess {ds rest : List Char} {c : Char} (hcs : cs = ds ++ c :: rest)
    (hds : ∀ d ∈ ds, d.isDigit = true) (hvalue : Nat.ofDigitChars 10 ds value ≤ bound)
    (hc : c.isDigit = true) (hover : bound < Nat.ofDigitChars 10 (ds ++ [c]) value) :
    Scan bound value cs (.error .tooLarge)

/-- A digit in front is one more digit that is read. -/
theorem Scan.cons {bound value : Nat} {c : Char} {cs : List Char} {e : Except Flaw Nat}
    (hc : c.isDigit = true) (h : Scan bound (Nat.ofDigitChars 10 [c] value) cs e) :
    Scan bound value (c :: cs) e := by
  have happend : ∀ ds : List Char, Nat.ofDigitChars 10 ds (Nat.ofDigitChars 10 [c] value) =
      Nat.ofDigitChars 10 (c :: ds) value := fun ds => (Nat.ofDigitChars_append value).symm
  cases h with
  | read hcs hvalue =>
    rw [happend] at hvalue ⊢
    exact .read (List.forall_mem_cons.mpr ⟨hc, hcs⟩) hvalue
  | stray hcs hds hvalue hx =>
    rw [happend] at hvalue
    exact .stray (congrArg (c :: ·) hcs) (List.forall_mem_cons.mpr ⟨hc, hds⟩) hvalue hx
  | excess hcs hds hvalue hx hover =>
    rw [happend] at hvalue hover
    exact .excess (congrArg (c :: ·) hcs) (List.forall_mem_cons.mpr ⟨hc, hds⟩) hvalue hx hover

theorem scan_digits {bound value : Nat} (h : value ≤ bound) (cs : List Char) :
    Scan bound value cs (digits bound value cs) := by
  -- The value so far is within the bound: reading stops before it would not be.
  induction cs generalizing value with
  | nil => exact .read nofun h
  | cons c cs ih =>
    cases hc : c.isDigit with
    | false =>
      rw [digits, digit?_of_not_isDigit hc]
      exact .stray (show c :: cs = [] ++ c :: cs from rfl) nofun h hc
    | true =>
      rw [digits_cons hc]
      split
      · next hle => exact .cons hc (ih hle)
      · next hover =>
        exact .excess (show c :: cs = [] ++ c :: cs from rfl) nofun h hc (Nat.lt_of_not_le hover)

/-! ### Texts -/

/-- What reading a text comes to. -/
inductive Outcome (bound : Nat) (text : List Char) : Except Flaw Nat → Prop
  | ok {n : Nat} (h : Denotes bound text n) : Outcome bound text (.ok n)
  | error {flaw : Flaw} (h : FirstFlaw bound text flaw) : Outcome bound text (.error flaw)

/-- A sign in front of digits does not matter. -/
theorem Scan.outcome {bound : Nat} {plus cs : List Char} {e : Except Flaw Nat}
    (h : Scan bound 0 cs e) (hcs : cs ≠ []) (hplus : Signed plus cs) :
    Outcome bound (plus ++ cs) e := by
  cases h with
  | read hds hvalue => exact .ok ⟨plus, cs, rfl, hplus.symm.imp_left And.left, hcs, hds, rfl, hvalue⟩
  | stray hcs hds hvalue hc =>
    subst hcs
    exact .error (.stray hplus hds hvalue hc)
  | excess hcs hds hvalue hc hover =>
    subst hcs
    exact .error (.excess hplus hds hvalue hc hover)

theorem outcome_parse (bound : Nat) (text : List Char) : Outcome bound text (parse bound text) := by
  have hscan := scan_digits (Nat.zero_le bound)
  rw [parse.eq_def]
  split
  · exact .error .empty
  · exact .error .lonePlus
  · next cs hne =>
    have hsigned : Signed ['+'] cs := .inl rfl
    exact (hscan cs).outcome (fun hnil => hne (by rw [hnil])) hsigned
  · next hempty _ hplus =>
    have hsigned : Signed [] text := by
      refine .inr ⟨rfl, fun hhead => ?_⟩
      obtain ⟨cs, rfl⟩ := List.head?_eq_some_iff.mp hhead
      exact hplus cs rfl
    exact (hscan text).outcome hempty hsigned

/-- A text is read without its sign. -/
theorem parse_signed {bound : Nat} {plus cs : List Char} (hcs : cs ≠ []) (hplus : Signed plus cs) :
    parse bound (plus ++ cs) = digits bound 0 cs := by
  rcases hplus with rfl | ⟨rfl, hhead⟩
  · match cs, hcs with
    | c :: cs, _ => rfl
  · match cs, hcs, hhead with
    | c :: cs, _, hhead =>
      have hc : c ≠ '+' := fun h => hhead (congrArg some h)
      rw [List.nil_append, parse]
      · exact List.cons_ne_nil c cs
      · exact fun h => hc (List.cons.inj h).1
      · exact fun _ h => hc (List.cons.inj h).1

theorem signed_of_digits {plus ds : List Char} (hplus : plus = [] ∨ plus = ['+'])
    (hds : ∀ d ∈ ds, d.isDigit = true) : Signed plus ds := by
  refine hplus.symm.imp_right fun hplus => ⟨hplus, fun hhead => ?_⟩
  exact absurd (hds _ (List.mem_of_head? hhead)) (by decide)

/-- **Numerals and nothing else are read.** -/
theorem parse_eq_ok_iff {bound : Nat} {text : List Char} {n : Nat} :
    parse bound text = .ok n ↔ Denotes bound text n := by
  constructor
  · intro h
    cases h ▸ outcome_parse bound text with
    | ok h => exact h
  · rintro ⟨plus, ds, rfl, hplus, hne, hds, rfl, hle⟩
    have hdigits := digits_append hds hle []
    rw [List.append_nil] at hdigits
    rw [parse_signed hne (signed_of_digits hplus hds), hdigits, digits]

/-- **Of a text that is no numeral the first flaw is named.** -/
theorem parse_eq_error_iff {bound : Nat} {text : List Char} {flaw : Flaw} :
    parse bound text = .error flaw ↔ FirstFlaw bound text flaw := by
  constructor
  · intro h
    cases h ▸ outcome_parse bound text with
    | error h => exact h
  · intro h
    cases h with
    | empty => rfl
    | lonePlus => rfl
    | @stray plus ds rest c hplus hds hvalue hc =>
      rw [parse_signed (by simp) hplus, digits_append hds hvalue, digits, digit?_of_not_isDigit hc]
    | @excess plus ds rest c hplus hds hvalue hc hover =>
      rw [Nat.ofDigitChars_append] at hover
      rw [parse_signed (by simp) hplus, digits_append hds hvalue, digits_cons hc,
        if_neg (Nat.not_le_of_lt hover)]

theorem parse64_eq_ok_iff {text : String} {x : UInt64} :
    parse64 text = .ok x ↔ Denotes (UInt64.size - 1) text.toList x.toNat := by
  rw [parse64, ← parse_eq_ok_iff]
  cases hparse : parse (UInt64.size - 1) text.toList with
  | error flaw => simp [Except.map]
  | ok n =>
    have hlt : n < UInt64.size := Nat.lt_of_le_of_lt (parse_eq_ok_iff.mp hparse).le (by decide)
    simp only [Except.map, Except.ok.injEq]
    constructor
    · rintro rfl
      exact (UInt64.toNat_ofNat_of_lt' hlt).symm
    · rintro rfl
      exact UInt64.ofNat_toNat

end Parley.Numeral
