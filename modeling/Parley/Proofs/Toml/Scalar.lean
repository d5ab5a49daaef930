import Mathlib.Algebra.Group.Int.Defs
import Mathlib.Algebra.Group.Nat.Defs
import Mathlib.Data.List.Infix
import Mathlib.Data.List.TakeWhile
import Parley.Toml.Scalar

/-!
# Parley.Proofs.Toml.Scalar — numbers are read back

An integer in plain decimal (`ofInt`) is no date, no time and no floating-point number.  So it is read as
that integer if it has no more than 64 bits, and as nothing otherwise (`ofWord?_ofInt`).  A word is read
up to the end of its line (`read_word`).
-/

namespace Parley.Toml.Scalar

/-! ### Digits -/

/-- Decimal digits and nothing else. -/
def AllDigits (cs : List Char) : Prop := ∀ c ∈ cs, c.isDigit = true

theorem allDigits_toDigits (n : Nat) : AllDigits (Nat.toDigits 10 n) :=
  fun _ h => Nat.isDigit_of_mem_toDigits (by decide) (by decide) h

theorem separated?_of_allDigits {cs : List Char} (h : AllDigits cs) (hne : cs ≠ []) :
    separated? Char.isDigit cs = some cs := by
  induction cs with
  | nil => exact absurd rfl hne
  | cons c cs ih =>
    obtain ⟨hc, hcs⟩ := List.forall_mem_cons.mp h
    match cs, ih, hcs with
    | [], _, _ => simp [separated?, hc]
    | d :: ds, ih, hcs =>
      have hd : d ≠ '_' := by
        rintro rfl
        exact absurd (hcs _ List.mem_cons_self) (by decide)
      rw [separated?, if_pos hc, ih hcs (List.cons_ne_nil _ _)]
      · rfl
      · simp
      · simpa using hd

/-- The first digit of a number is a zero only if the number is. -/
theorem head?_toDigits (n : Nat) (h : (Nat.toDigits 10 n).head? = some '0') : n = 0 := by
  induction n using Nat.strongRecOn with
  | _ n ih =>
    by_cases hn : n < 10
    · rw [Nat.toDigits_of_lt_base hn, List.head?_cons, Option.some.injEq] at h
      have hall : ∀ m < 10, m.digitChar = '0' → m = 0 := by decide
      exact hall n hn h
    · rw [Nat.toDigits_of_base_le (by decide) (by omega)] at h
      rw [List.head?_append_of_ne_nil _ Nat.toDigits_ne_nil] at h
      have := ih (n / 10) (by omega) h
      omega

theorem decimal?_toDigits (n : Nat) : decimal? (Nat.toDigits 10 n) = some (Nat.toDigits 10 n) := by
  rw [decimal?, separated?_of_allDigits (allDigits_toDigits n) Nat.toDigits_ne_nil]
  by_cases h : (Nat.toDigits 10 n).head? = some '0'
  · rw [head?_toDigits n h]
    decide
  · simp [h]

theorem hexDigit?_of_isDigit {c : Char} (h : c.isDigit = true) :
    Text.hexDigit? c = some (c.toNat - '0'.toNat) := by
  have : '0' ≤ c ∧ c ≤ '9' := by simpa [Char.isDigit, Char.le_def] using h
  rw [Text.hexDigit?, if_pos this]

theorem valueOf_of_allDigits {cs : List Char} (h : AllDigits cs) :
    valueOf 10 cs = Nat.ofDigitChars 10 cs 0 := by
  rw [valueOf, Nat.ofDigitChars_eq_foldl]
  refine List.foldl_ext _ _ _ fun n c hc => ?_
  rw [hexDigit?_of_isDigit (h c hc), Option.getD_some, Nat.mul_comm]

theorem valueOf_toDigits (n : Nat) : valueOf 10 (Nat.toDigits 10 n) = n := by
  rw [valueOf_of_allDigits (allDigits_toDigits n),
    Nat.ofDigitChars_toDigits (by decide) (by decide)]

/-- An integer in plain decimal. -/
def ofInt : Int → List Char
  | .ofNat n => Nat.toDigits 10 n
  | .negSucc n => '-' :: Nat.toDigits 10 (n + 1)

theorem isDigit_or_of_mem_ofInt {n : Int} {c : Char} (h : c ∈ ofInt n) : c.isDigit = true ∨ c = '-' := by
  cases n with
  | ofNat n => exact .inl (allDigits_toDigits n c h)
  | negSucc n =>
    rcases List.mem_cons.mp h with rfl | h
    · exact .inr rfl
    · exact .inl (allDigits_toDigits _ c h)

theorem notMem_ofInt {c : Char} (hc : c.isDigit = false) (hne : c ≠ '-') (n : Int) : c ∉ ofInt n := by
  intro hmem
  rcases isDigit_or_of_mem_ofInt hmem with h | h
  · rw [hc] at h
    cases h
  · exact hne h

theorem sign_ofInt (n : Int) : sign (ofInt n) = (decide (n < 0), Nat.toDigits 10 n.natAbs) := by
  cases n with
  | ofNat n =>
    have hd := allDigits_toDigits n
    have hpos : ¬ Int.ofNat n < 0 := by simp
    rw [sign.eq_def, decide_eq_false hpos]
    split
    · next he => exact absurd (hd '+' (by rw [← ofInt, he]; simp)) (by decide)
    · next he => exact absurd (hd '-' (by rw [← ofInt, he]; simp)) (by decide)
    · rfl
  | negSucc n => rw [decide_eq_true (Int.negSucc_lt_zero n)]; rfl

theorem fit?_of_le {n : Int} (hmin : -2 ^ 63 ≤ n) (hmax : n < 2 ^ 63) : fit? n = some (.integer n) := by
  have hlow : Int64.minValue.toInt = -2 ^ 63 := by decide
  have hhigh : Int64.maxValue.toInt = 2 ^ 63 - 1 := by decide
  rw [fit?, if_pos]
  omega

/-- A number with more than 64 bits does not fit. -/
theorem fit?_of_lt {n : Int} (h : n < -2 ^ 63 ∨ 2 ^ 63 ≤ n) : fit? n = none := by
  have hlow : Int64.minValue.toInt = -2 ^ 63 := by decide
  have hhigh : Int64.maxValue.toInt = 2 ^ 63 - 1 := by decide
  rw [fit?, if_neg]
  omega

theorem integer?_ofInt (n : Int) : integer? (ofInt n) = fit? n := by
  rw [integer?.eq_def]
  split
  · next he => exact absurd (by simp [he]) (notMem_ofInt (c := 'x') rfl (by decide) n)
  · next he => exact absurd (by simp [he]) (notMem_ofInt (c := 'o') rfl (by decide) n)
  · next he => exact absurd (by simp [he]) (notMem_ofInt (c := 'b') rfl (by decide) n)
  · have hvalue : (if n < 0 then -(n.natAbs : Int) else n.natAbs) = n := by split <;> omega
    simp only [sign_ofInt, decimal?_toDigits, valueOf_toDigits, decide_eq_true_eq, hvalue, bind,
      Option.bind_some]

/-! ### Floating-point numbers -/

/-- Digits alone are no floating-point number, which has a fraction or an exponent. -/
theorem parts?_of_allDigits {cs : List Char} (h : AllDigits cs) : parts? cs = none := by
  have hexponent : ∀ c ∈ cs, (!isExponent c) = true := by
    intro c hc
    have hc := h c hc
    rw [Bool.not_eq_true', isExponent, Bool.or_eq_false_iff, beq_eq_false_iff_ne, beq_eq_false_iff_ne]
    constructor <;> (rintro rfl; exact absurd hc (by decide))
  have hpoint : ∀ c ∈ cs, (c != '.') = true := by
    intro c hc
    rw [bne_iff_ne]
    rintro rfl
    exact absurd (h _ hc) (by decide)
  have hfront : cs.takeWhile (fun c => !isExponent c) = cs := List.takeWhile_eq_self_iff.mpr hexponent
  have hwhole : cs.takeWhile (· != '.') = cs := List.takeWhile_eq_self_iff.mpr hpoint
  rw [parts?, hfront, hwhole, List.drop_length]
  cases decimal? cs <;> simp

theorem float?_ofInt (n : Int) : float? (ofInt n) = none := by
  have hd := allDigits_toDigits n.natAbs
  have hword : ¬ (Nat.toDigits 10 n.natAbs = "inf".toList ∨ Nat.toDigits 10 n.natAbs = "nan".toList) := by
    rintro (he | he)
    · exact absurd (hd 'n' (by simp [he])) (by decide)
    · exact absurd (hd 'n' (by simp [he])) (by decide)
  rw [float?, sign_ofInt]
  dsimp only
  rw [if_neg hword, parts?_of_allDigits hd]
  rfl

/-! ### Moments -/

theorem expect_of_allDigits {c : Char} (hc : c.isDigit = false) {cs : List Char}
    (h : AllDigits cs) : expect c cs = none := by
  match cs, h with
  | [], _ => rfl
  | d :: ds, h =>
    have hd : d ≠ c := by
      rintro rfl
      exact absurd (h d List.mem_cons_self) (by simp [hc])
    rw [expect, if_neg hd]

theorem date?_of_allDigits {cs : List Char} (h : AllDigits cs) : date? cs = none := by
  match cs, h with
  | a :: b :: c :: d :: r, h =>
    have hr : AllDigits r := fun x hx => h x (by simp [hx])
    rw [date?, expect_of_allDigits rfl hr]
    cases guard ([a, b, c, d].all Char.isDigit = true) (f := Option) <;> rfl
  | [], _ | [_], _ | [_, _], _ | [_, _, _], _ => rfl

theorem time?_of_allDigits {cs : List Char} (h : AllDigits cs) : time? cs = none := by
  match cs, h with
  | a :: b :: r, h =>
    have hr : AllDigits r := fun x hx => h x (by simp [hx])
    simp only [time?, two?]
    split_ifs
    · simp [expect_of_allDigits (c := ':') rfl hr]
    · rfl
    · rfl
  | [], _ | [_], _ => rfl

/-- Digits alone are no date and no time, which have other characters in between. -/
theorem isMoment_of_allDigits {cs : List Char} (h : AllDigits cs) : isMoment cs = false := by
  rw [isMoment, date?_of_allDigits h]
  simp [isTime, time?_of_allDigits h]

theorem isMoment_ofInt (n : Int) : isMoment (ofInt n) = false := by
  cases n with
  | ofNat n => exact isMoment_of_allDigits (allDigits_toDigits n)
  | negSucc n =>
    have hdate : date? (ofInt (.negSucc n)) = none := by
      rw [ofInt]
      match Nat.toDigits 10 (n + 1) with
      | b :: c :: d :: r => rfl
      | [] | [_] | [_, _] => rfl
    have htime : time? (ofInt (.negSucc n)) = none := by
      rw [ofInt, time?]
      cases Nat.toDigits 10 (n + 1) <;> rfl
    rw [isMoment, hdate, isTime, htime]

/-! ### Words -/

theorem ofWord?_ofInt (n : Int) : ofWord? (ofInt n) = fit? n := by
  have htrue : ofInt n ≠ "true".toList := fun he =>
    notMem_ofInt (c := 't') rfl (by decide) n (by simp [he])
  have hfalse : ofInt n ≠ "false".toList := fun he =>
    notMem_ofInt (c := 'f') rfl (by decide) n (by simp [he])
  rw [ofWord?, if_neg htrue, if_neg hfalse, isMoment_ofInt, integer?_ofInt, float?_ofInt]
  exact Option.or_none

/-- A word is read up to the end of its line. -/
theorem read_word {w : List Char} (hw : ∀ c ∈ w, isWordChar c = true) (r : List Char) :
    read (w ++ '\n' :: r) = (ofWord? w).map (·, '\n' :: r) := by
  have ht : (w ++ '\n' :: r).takeWhile isWordChar = w := by
    rw [List.takeWhile_append_of_pos hw, List.takeWhile_cons_of_neg (by decide), List.append_nil]
  have hd : (w ++ '\n' :: r).dropWhile isWordChar = '\n' :: r := by
    rw [List.dropWhile_append_of_pos hw, List.dropWhile_cons_of_neg (by decide)]
  simp [read, ht, hd]

end Parley.Toml.Scalar
