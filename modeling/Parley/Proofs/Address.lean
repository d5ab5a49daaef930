import Mathlib.Data.List.Induction
import Mathlib.Data.Nat.Digits.Lemmas
import Mathlib.Data.Option.Basic
import Parley.Address

/-!
# Parley.Proofs.Address — which texts stand for addresses

A dotted quad is four bytes in plain decimal.  A group is one to four hexadecimal digits of either case.
The newer addresses are eight groups between colons, of which the last two may be written as a quad;
once, `::` may stand for one or more groups of zeros (`Spells`).  These texts are read as the addresses
they spell, and no others are read (`parse?_eq_some_iff`).
-/

namespace Parley.Address

/-! ### The grammar -/

/-- A dotted quad. -/
def IsQuad (cs : List Char) (a b c d : UInt8) : Prop :=
  cs = ['.'].intercalate ([a, b, c, d].map fun x => Nat.toDigits 10 x.toNat)

/-- A group and its value. -/
def IsGroup (cs : List Char) (g : UInt16) : Prop :=
  ∃ ds : List Nat, ds ≠ [] ∧ ds.length ≤ 4 ∧ (∀ d ∈ ds, d < 16) ∧
    cs.map Char.toLower = ds.map Nat.digitChar ∧ Nat.ofDigits 16 ds.reverse = g.toNat

/-- Groups one by one; if `tail` says so, a quad may stand for the last two. -/
inductive Parts (tail : Bool) : List (List Char) → List UInt16 → Prop
  | nil : Parts tail [] []
  | group {p : List Char} {ps : List (List Char)} {g : UInt16} {gs : List UInt16}
    (h : IsGroup p g) (hps : Parts tail ps gs) : Parts tail (p :: ps) (g :: gs)
  | quad {p : List Char} {a b c d : UInt8} (htail : tail = true) (h : IsQuad p a b c d) :
    Parts tail [p] [pair a b, pair c d]

/-- Groups between colons. -/
def Side (tail : Bool) (cs : List Char) (gs : List UInt16) : Prop :=
  ∃ parts, Parts tail parts gs ∧ cs = [':'].intercalate parts

/-- A text and the address it stands for. -/
inductive Spells : List Char → Address → Prop
  | quad {cs : List Char} {a b c d : UInt8} (h : IsQuad cs a b c d) : Spells cs (v4 a b c d)
  | groups {cs : List Char} {gs : Vector UInt16 8} (h : Side true cs gs.toList) : Spells cs (v6 gs)
  | gap {before after : List Char} {left right : List UInt16} {k : Nat} {gs : Vector UInt16 8}
    (hleft : Side false before left) (hright : Side true after right)
    (hgs : gs.toList = left ++ List.replicate (k + 1) 0 ++ right) :
    Spells (before ++ ':' :: ':' :: after) (v6 gs)

/-! ### Parts between separators -/

theorem split_eq_splitOn (sep : Char) (cs : List Char) : split sep cs = cs.splitOn sep := by
  induction cs with
  | nil => rw [List.splitOn_nil]; rfl
  | cons c cs ih =>
    rw [split, ih, List.splitOn_eq_splitOnP, List.splitOn_eq_splitOnP, List.splitOnP_cons_eq_if_modifyHead]
    by_cases hc : c = sep
    · simp [hc]
    · simp only [hc, beq_iff_eq, if_false]
      cases hs : cs.splitOnP (· == sep) with
      | nil => exact absurd hs (List.splitOnP_ne_nil _ _)
      | cons p ps => rfl

theorem intercalate_split (sep : Char) (cs : List Char) : [sep].intercalate (split sep cs) = cs := by
  rw [split_eq_splitOn, List.intercalate_splitOn]

theorem split_intercalate {sep : Char} {parts : List (List Char)} (h : ∀ p ∈ parts, sep ∉ p)
    (hne : parts ≠ []) : split sep ([sep].intercalate parts) = parts := by
  rw [split_eq_splitOn, List.splitOn_intercalate sep h hne]

/-! ### Quads -/

/-- A digit is the digit of its value. -/
theorem digitChar_of_isDigit {c : Char} (h : c.isDigit = true) :
    c.toNat - '0'.toNat < 10 ∧ (c.toNat - '0'.toNat).digitChar = c := by
  have hall : ∀ n < 58, (Char.ofNat n).isDigit = true →
      n - 48 < 10 ∧ (n - 48).digitChar = Char.ofNat n := by decide
  have hlt : c.toNat < 58 := by
    have hle : c.val ≤ 57 := by simp [Char.isDigit] at h; exact h.2
    exact Nat.lt_succ_of_le (UInt32.le_iff_toNat_le.mp hle)
  have hc := hall c.toNat hlt
  rw [Char.ofNat_toNat] at hc
  exact hc h

/-- Digits without a zero in front are the numeral of their value. -/
theorem toDigits_ofDigitChars {cs : List Char} (hne : cs ≠ []) (hdigits : ∀ c ∈ cs, c.isDigit = true)
    (hzero : cs.head? = some '0' → cs.length = 1) :
    Nat.toDigits 10 (Nat.ofDigitChars 10 cs 0) = cs := by
  induction cs using List.reverseRecOn with
  | nil => exact absurd rfl hne
  | append_singleton cs c ih =>
    obtain ⟨hlt, hchar⟩ := digitChar_of_isDigit (hdigits c (by simp))
    rw [Nat.ofDigitChars_append, Nat.ofDigitChars_cons, Nat.ofDigitChars_nil]
    match cs, ih with
    | [], _ =>
      rw [Nat.ofDigitChars_nil, Nat.mul_zero, Nat.zero_add, Nat.toDigits_of_lt_base hlt, hchar]
      rfl
    | d :: ds, ih =>
      have hhead : d ≠ '0' := by
        rintro rfl
        simpa using hzero rfl
      have hbefore := ih (List.cons_ne_nil d ds) (fun x hx => hdigits x (List.mem_append_left _ hx))
        fun hd => absurd (Option.some.inj hd) hhead
      generalize Nat.ofDigitChars 10 (d :: ds) 0 = n at hbefore ⊢
      have hpos : n ≠ 0 := by
        rintro rfl
        exact hhead (List.cons.inj hbefore).1.symm
      rw [Nat.toDigits_of_base_le (by decide) (by omega)]
      rw [show (10 * n + (c.toNat - '0'.toNat)) / 10 = n by omega,
        show (10 * n + (c.toNat - '0'.toNat)) % 10 = c.toNat - '0'.toNat by omega, hbefore, hchar]

theorem decimal?_eq_some_iff {cs : List Char} {n : Nat} : decimal? cs = some n ↔
    cs ≠ [] ∧ (∀ c ∈ cs, c.isDigit = true) ∧ Nat.ofDigitChars 10 cs 0 = n := by
  have hvalue : cs.foldl (fun n c => n * 10 + (c.toNat - '0'.toNat)) 0 = Nat.ofDigitChars 10 cs 0 := by
    simp only [Nat.ofDigitChars_eq_foldl, Nat.mul_comm]
  rw [decimal?, hvalue, Option.ite_none_right_eq_some, List.all_eq_true, Option.some.injEq, and_assoc]

/-- A number of a quad is a byte in plain decimal. -/
theorem octet?_eq_some_iff {cs : List Char} {x : UInt8} :
    octet? cs = some x ↔ cs = Nat.toDigits 10 x.toNat := by
  constructor
  · intro h
    simp only [octet?, Option.bind_eq_bind, Option.bind_eq_some_iff, Option.guard_eq_some',
      Option.pure_def, Option.some.injEq] at h
    obtain ⟨-, ⟨-, hzero⟩, n, hn, -, hlt, rfl⟩ := h
    obtain ⟨hne, hdigits, rfl⟩ := decimal?_eq_some_iff.mp hn
    rw [UInt8.toNat_ofNat_of_lt' hlt, toDigits_ofDigitChars hne hdigits hzero]
  · rintro rfl
    have hall : ∀ n < 256, octet? (Nat.toDigits 10 n) = some (UInt8.ofNat n) := by decide +kernel
    rw [hall x.toNat x.toNat_lt, UInt8.ofNat_toNat]

/-- A plain decimal has digits only. -/
theorem notMem_toDigits {c : Char} (hc : c.isDigit = false) (x : UInt8) :
    c ∉ Nat.toDigits 10 x.toNat := by
  intro hmem
  rw [Nat.isDigit_of_mem_toDigits (by decide) (by decide) hmem] at hc
  cases hc

theorem quad?_eq_some_iff {cs : List Char} {a b c d : UInt8} :
    quad? cs = some (a, b, c, d) ↔ IsQuad cs a b c d := by
  constructor
  · intro h
    rw [quad?] at h
    split at h
    · next p q r s hsplit =>
      simp only [Option.bind_eq_bind, Option.bind_eq_some_iff, Option.pure_def, Option.some.injEq,
        Prod.mk.injEq, octet?_eq_some_iff] at h
      obtain ⟨_, rfl, _, rfl, _, rfl, _, rfl, rfl, rfl, rfl, rfl⟩ := h
      rw [← intercalate_split '.' cs, hsplit]
      rfl
    · cases h
  · rintro rfl
    have hdots : ∀ p ∈ [a, b, c, d].map fun x => Nat.toDigits 10 x.toNat, '.' ∉ p := by
      intro p hp
      obtain ⟨x, -, rfl⟩ := List.mem_map.mp hp
      exact notMem_toDigits rfl x
    rw [quad?, split_intercalate hdots (by simp)]
    simp [octet?_eq_some_iff.mpr rfl]

/-! ### Groups -/

theorem toNat_lt_of_hexDigit? {c : Char} {d : Nat} (h : hexDigit? c = some d) : c.toNat < 128 := by
  have hle : ∀ k : Char, c ≤ k → k.toNat < 128 → c.toNat < 128 := fun k hk hk' =>
    Nat.lt_of_le_of_lt (UInt32.le_iff_toNat_le.mp hk) hk'
  rw [hexDigit?] at h
  split_ifs at h with h1 h2 h3
  · exact hle _ h1.2 (by decide)
  · exact hle _ h2.2 (by decide)
  · exact hle _ h3.2 (by decide)

theorem toNat_lt_of_toLower {c : Char} {d : Nat} (hd : d < 16) (h : c.toLower = d.digitChar) :
    c.toNat < 128 := by
  by_contra hc
  have hz : ¬ (c.val ≥ 'A'.val ∧ c.val ≤ 'Z'.val) := by
    rintro ⟨-, hz⟩
    exact hc (Nat.lt_of_le_of_lt (UInt32.le_iff_toNat_le.mp hz) (by decide))
  have hlow : ∀ d < 16, d.digitChar.toNat < 128 := by decide
  have hsame : c.toLower = c := dif_neg hz
  rw [hsame] at h
  exact hc (h ▸ hlow d hd)

/-- A hexadecimal digit, in either case, is the digit of its value. -/
theorem hexDigit?_eq_some_iff {c : Char} {d : Nat} :
    hexDigit? c = some d ↔ d < 16 ∧ c.toLower = d.digitChar := by
  -- Both sides hold of ASCII characters only, and those can be tried.
  have hforth : ∀ n < 128, (hexDigit? (Char.ofNat n)).all fun d =>
      decide (d < 16 ∧ (Char.ofNat n).toLower = d.digitChar) := by decide
  have hback : ∀ n < 128, ∀ d < 16, (Char.ofNat n).toLower = d.digitChar →
      hexDigit? (Char.ofNat n) = some d := by decide +kernel
  constructor
  · intro h
    have hc := hforth c.toNat (toNat_lt_of_hexDigit? h)
    rw [Char.ofNat_toNat, h] at hc
    simpa using hc
  · rintro ⟨hd, hc⟩
    have hc' := hback c.toNat (toNat_lt_of_toLower hd hc) d hd
    rw [Char.ofNat_toNat] at hc'
    exact hc' hc

/-- The value of hexadecimal digits. -/
theorem foldlM_hexDigit? {cs : List Char} {v n : Nat} :
    cs.foldlM (fun n c => (hexDigit? c).map (n * 16 + ·)) v = some n ↔
      ∃ ds : List Nat, (∀ d ∈ ds, d < 16) ∧ cs.map Char.toLower = ds.map Nat.digitChar ∧
        ds.foldl (fun n d => n * 16 + d) v = n := by
  induction cs generalizing v with
  | nil =>
    constructor
    · intro h
      exact ⟨[], nofun, rfl, Option.some.inj h⟩
    · rintro ⟨ds, -, hds, rfl⟩
      rw [List.map_eq_nil_iff.mp hds.symm]
      rfl
  | cons c cs ih =>
    rw [List.foldlM_cons, Option.bind_eq_bind, Option.bind_eq_some_iff]
    simp only [Option.map_eq_some_iff, hexDigit?_eq_some_iff]
    constructor
    · rintro ⟨_, ⟨d, ⟨hd, hc⟩, rfl⟩, h⟩
      obtain ⟨ds, hds, hcs, rfl⟩ := ih.mp h
      exact ⟨d :: ds, List.forall_mem_cons.mpr ⟨hd, hds⟩, congrArg₂ List.cons hc hcs, rfl⟩
    · rintro ⟨ds, hds, hcs, rfl⟩
      match ds, hds, hcs with
      | d :: ds, hds, hcs =>
        obtain ⟨hd, hds⟩ := List.forall_mem_cons.mp hds
        obtain ⟨hc, hcs⟩ := List.cons.inj hcs
        exact ⟨_, ⟨d, ⟨hd, hc⟩, rfl⟩, ih.mpr ⟨ds, hds, hcs, rfl⟩⟩

/-- Digits from the front make the number they are the digits of. -/
theorem foldl_eq_ofDigits (ds : List Nat) :
    ds.foldl (fun n d => n * 16 + d) 0 = Nat.ofDigits 16 ds.reverse := by
  rw [Nat.ofDigits_eq_foldr, List.foldr_reverse]
  simp only [Nat.cast_id, Nat.mul_comm, Nat.add_comm]

theorem ofDigits_lt {ds : List Nat} (hds : ∀ d ∈ ds, d < 16) (hlen : ds.length ≤ 4) :
    Nat.ofDigits 16 ds.reverse < UInt16.size :=
  calc Nat.ofDigits 16 ds.reverse
      < 16 ^ ds.reverse.length :=
        Nat.ofDigits_lt_base_pow_length (by decide) fun d hd => hds d (List.mem_reverse.mp hd)
    _ ≤ 16 ^ 4 := Nat.pow_le_pow_right (by decide) (by rwa [List.length_reverse])

theorem group?_eq_some_iff {cs : List Char} {g : UInt16} : group? cs = some g ↔ IsGroup cs g := by
  simp only [group?, Option.bind_eq_bind, Option.bind_eq_some_iff, Option.guard_eq_some',
    Option.pure_def, Option.some.injEq, foldlM_hexDigit?, foldl_eq_ofDigits]
  constructor
  · rintro ⟨-, ⟨hpos, hlen⟩, n, ⟨ds, hds, hcs, rfl⟩, rfl⟩
    have hlength : cs.length = ds.length := by simpa using congrArg List.length hcs
    rw [hlength] at hpos hlen
    exact ⟨ds, List.ne_nil_of_length_pos hpos, hlen, hds, hcs,
      (UInt16.toNat_ofNat_of_lt' (ofDigits_lt hds hlen)).symm⟩
  · rintro ⟨ds, hne, hlen, hds, hcs, hg⟩
    have hlength : cs.length = ds.length := by simpa using congrArg List.length hcs
    rw [hlength]
    exact ⟨(), ⟨List.length_pos_of_ne_nil hne, hlen⟩, _, ⟨ds, hds, hcs, rfl⟩,
      by rw [hg, UInt16.ofNat_toNat]⟩

theorem IsGroup.ne_nil {cs : List Char} {g : UInt16} (h : IsGroup cs g) : cs ≠ [] := by
  obtain ⟨ds, hne, -, -, hcs, -⟩ := h
  rintro rfl
  exact hne (List.map_eq_nil_iff.mp hcs.symm)

/-- Neither separator is a hexadecimal digit. -/
theorem IsGroup.notMem {cs : List Char} {g : UInt16} (h : IsGroup cs g) : ':' ∉ cs ∧ '.' ∉ cs := by
  obtain ⟨ds, -, -, hds, hcs, -⟩ := h
  have hdigit : ∀ c ∈ cs, ∃ d < 16, c.toLower = d.digitChar := by
    intro c hc
    have hmem : c.toLower ∈ ds.map Nat.digitChar := hcs ▸ List.mem_map_of_mem hc
    obtain ⟨d, hd, hc⟩ := List.mem_map.mp hmem
    exact ⟨d, hds d hd, hc.symm⟩
  constructor
  · intro hmem
    exact absurd (hdigit ':' hmem) (by decide)
  · intro hmem
    exact absurd (hdigit '.' hmem) (by decide)

/-! ### Parts -/

theorem IsQuad.notMem {cs : List Char} {a b c d : UInt8} (h : IsQuad cs a b c d) : ':' ∉ cs := by
  rw [h]
  simp [List.intercalate, notMem_toDigits (c := ':') rfl]

theorem IsQuad.mem {cs : List Char} {a b c d : UInt8} (h : IsQuad cs a b c d) : '.' ∈ cs := by
  rw [h]
  simp [List.intercalate]

theorem groups?_singleton {tail : Bool} {p : List Char} {gs : List UInt16} :
    groups? tail [p] = some gs ↔ (∃ g, IsGroup p g ∧ gs = [g]) ∨
      (tail = true ∧ ∃ a b c d, IsQuad p a b c d ∧ gs = [pair a b, pair c d]) := by
  rw [groups?]
  constructor
  · intro h
    cases hg : group? p with
    | some g =>
      rw [hg] at h
      exact .inl ⟨g, group?_eq_some_iff.mp hg, (Option.some.inj h).symm⟩
    | none =>
      rw [hg] at h
      simp only [Option.ite_none_right_eq_some, Option.map_eq_some_iff, Prod.exists] at h
      obtain ⟨htail, a, b, c, d, hq, rfl⟩ := h
      exact .inr ⟨htail, a, b, c, d, quad?_eq_some_iff.mp hq, rfl⟩
  · rintro (⟨g, hg, rfl⟩ | ⟨rfl, a, b, c, d, hq, rfl⟩)
    · rw [group?_eq_some_iff.mpr hg]
    · -- A group is tried first, but a quad has dots and is none.
      have hg : group? p = none := by
        by_contra hg
        obtain ⟨g, hg⟩ := Option.ne_none_iff_exists'.mp hg
        exact (group?_eq_some_iff.mp hg).notMem.2 hq.mem
      rw [hg, quad?_eq_some_iff.mpr hq]
      rfl

theorem groups?_eq_some_iff {tail : Bool} {parts : List (List Char)} {gs : List UInt16} :
    groups? tail parts = some gs ↔ Parts tail parts gs := by
  constructor
  · intro h
    induction parts generalizing gs with
    | nil =>
      rw [groups?, Option.some.injEq] at h
      exact h ▸ .nil
    | cons p ps ih =>
      cases ps with
      | nil =>
        obtain ⟨g, hg, rfl⟩ | ⟨htail, a, b, c, d, hq, rfl⟩ := groups?_singleton.mp h
        · exact .group hg .nil
        · exact .quad htail hq
      | cons q ps =>
        simp only [groups?, Option.bind_eq_bind, Option.bind_eq_some_iff, Option.pure_def,
          Option.some.injEq] at h
        obtain ⟨g, hg, gs, hgs, rfl⟩ := h
        exact .group (group?_eq_some_iff.mp hg) (ih hgs)
  · intro h
    induction h with
    | nil => rfl
    | quad htail hq => exact groups?_singleton.mpr (.inr ⟨htail, _, _, _, _, hq, rfl⟩)
    | @group p ps g gs hg hps ih =>
      match ps, hps, ih with
      | [], .nil, _ => exact groups?_singleton.mpr (.inl ⟨g, hg, rfl⟩)
      | q :: ps, _, ih => simp [groups?, group?_eq_some_iff.mpr hg, ih]

/-- Parts are not empty and have no colons. -/
theorem Parts.plain {tail : Bool} {parts : List (List Char)} {gs : List UInt16}
    (h : Parts tail parts gs) : ∀ p ∈ parts, p ≠ [] ∧ ':' ∉ p := by
  induction h with
  | nil => nofun
  | group hg _ ih => exact List.forall_mem_cons.mpr ⟨⟨hg.ne_nil, hg.notMem.1⟩, ih⟩
  | quad _ hq =>
    exact List.forall_mem_singleton.mpr ⟨List.ne_nil_of_mem hq.mem, hq.notMem⟩

/-- Only a quad makes more than one group. -/
theorem Parts.length_le {tail : Bool} {parts : List (List Char)} {gs : List UInt16}
    (h : Parts tail parts gs) : gs.length ≤ parts.length + 1 := by
  induction h with
  | nil => exact Nat.zero_le _
  | group _ _ ih => exact Nat.succ_le_succ ih
  | quad _ _ => exact Nat.le_refl _

theorem join_eq_nil_iff {parts : List (List Char)} (h : ∀ p ∈ parts, p ≠ [] ∧ ':' ∉ p) :
    [':'].intercalate parts = [] ↔ parts = [] := by
  constructor
  · intro hjoin
    match parts, h with
    | [], _ => rfl
    | [p], h => exact absurd (by simpa using hjoin) (h p (by simp)).1
    | p :: q :: ps, _ => simp [List.intercalate] at hjoin
  · rintro rfl
    rfl

theorem side?_eq_some_iff {tail : Bool} {cs : List Char} {gs : List UInt16} :
    side? tail cs = some gs ↔ Side tail cs gs := by
  rw [side?]
  constructor
  · intro h
    split_ifs at h with hcs
    · cases h
      exact ⟨[], .nil, hcs⟩
    · exact ⟨split ':' cs, groups?_eq_some_iff.mp h, (intercalate_split ':' cs).symm⟩
  · rintro ⟨parts, hparts, rfl⟩
    split_ifs with hnil
    · obtain rfl := (join_eq_nil_iff hparts.plain).mp hnil
      cases hparts
      rfl
    · have hne : parts ≠ [] := fun h => hnil ((join_eq_nil_iff hparts.plain).mpr h)
      rw [split_intercalate (fun p hp => (hparts.plain p hp).2) hne]
      exact groups?_eq_some_iff.mpr hparts

/-! ### The gap -/

/-- The gap parts a text. -/
theorem eq_append_of_gap?_eq_some {cs before after : List Char} (h : gap? cs = some (before, after)) :
    cs = before ++ ':' :: ':' :: after := by
  fun_induction gap? cs generalizing before after with
  | case1 cs =>
    cases h
    rfl
  | case2 c cs hne ih =>
    obtain ⟨⟨b, a⟩, hgap, hba⟩ := Option.map_eq_some_iff.mp h
    cases hba
    rw [ih hgap]
    rfl
  | case3 => cases h

theorem gap?_cons {c : Char} {cs : List Char} (h : c = ':' → cs.head? ≠ some ':') :
    gap? (c :: cs) = (gap? cs).map fun (before, after) => (c :: before, after) := by
  rw [gap?]
  rintro cs' rfl rfl
  exact h rfl rfl

/-- A part in front of the rest belongs to what is before the gap. -/
theorem gap?_append {p : List Char} (hp : ':' ∉ p) (r : List Char) :
    gap? (p ++ r) = (gap? r).map fun (before, after) => (p ++ before, after) := by
  induction p with
  | nil => simp
  | cons c p ih =>
    have hc : c ≠ ':' := fun hc => hp (hc ▸ List.mem_cons_self)
    have htail : ':' ∉ p := fun h => hp (List.mem_cons_of_mem _ h)
    rw [List.cons_append, gap?_cons fun hc' => absurd hc' hc, ih htail]
    cases gap? r <;> rfl

theorem gap?_join {parts : List (List Char)} (h : ∀ p ∈ parts, p ≠ [] ∧ ':' ∉ p) (r : List Char) :
    gap? ([':'].intercalate parts ++ r) =
      (gap? r).map fun (before, after) => ([':'].intercalate parts ++ before, after) := by
  induction parts with
  | nil => simp [List.intercalate]
  | cons p ps ih =>
    obtain ⟨hp, hps⟩ := List.forall_mem_cons.mp h
    match ps, ih, hps with
    | [], _, _ => simpa [List.intercalate] using gap?_append hp.2 r
    | q :: ps, ih, hps =>
      obtain ⟨hq, -⟩ := List.forall_mem_cons.mp hps
      have hjoin : [':'].intercalate (p :: q :: ps) = p ++ ':' :: [':'].intercalate (q :: ps) := by
        simp [List.intercalate]
      have hhead : ([':'].intercalate (q :: ps) ++ r).head? ≠ some ':' := by
        obtain ⟨c, q, rfl⟩ := List.exists_cons_of_ne_nil hq.1
        have hc : c ≠ ':' := fun hc => hq.2 (hc ▸ List.mem_cons_self)
        cases ps <;> simpa [List.intercalate] using hc
      rw [hjoin, List.append_assoc, List.cons_append, gap?_append hp.2, gap?_cons fun _ => hhead,
        ih hps]
      cases gap? r <;> simp

/-! ### Addresses -/

theorem ofGroups?_eq_some_iff {gs : List UInt16} {a : Address} :
    ofGroups? gs = some a ↔ ∃ groups : Vector UInt16 8, groups.toList = gs ∧ a = v6 groups := by
  rw [ofGroups?]
  constructor
  · intro h
    split_ifs at h with hlen
    exact ⟨⟨gs.toArray, hlen⟩, rfl, (Option.some.inj h).symm⟩
  · rintro ⟨groups, rfl, rfl⟩
    exact dif_pos groups.size_toArray

theorem parseV6?_eq_some_iff {cs : List Char} {a : Address} :
    parseV6? cs = some a ↔ Spells cs a ∧ ∃ groups, a = v6 groups := by
  rw [parseV6?]
  constructor
  · intro h
    cases hgap : gap? cs with
    | none =>
      rw [hgap] at h
      simp only [Option.bind_eq_bind, Option.bind_eq_some_iff, side?_eq_some_iff,
        ofGroups?_eq_some_iff] at h
      obtain ⟨_, hside, groups, rfl, rfl⟩ := h
      exact ⟨.groups hside, groups, rfl⟩
    | some parts =>
      obtain ⟨before, after⟩ := parts
      rw [hgap] at h
      simp only [Option.bind_eq_bind, Option.bind_eq_some_iff, side?_eq_some_iff,
        ofGroups?_eq_some_iff, Option.guard_eq_some'] at h
      obtain ⟨left, hleft, right, hright, -, hlen, groups, hgs, rfl⟩ := h
      -- The gap stands for at least one group, since there are no more than seven others.
      rw [eq_append_of_gap?_eq_some hgap]
      obtain ⟨k, hk⟩ : ∃ k, 8 - left.length - right.length = k + 1 :=
        ⟨7 - left.length - right.length, by omega⟩
      rw [hk] at hgs
      exact ⟨.gap hleft hright hgs, groups, rfl⟩
  · rintro ⟨hspells, groups, rfl⟩
    cases hspells with
    | groups h =>
      obtain ⟨parts, hparts, rfl⟩ := h
      have hgap : gap? ([':'].intercalate parts) = none := by
        simpa [gap?] using gap?_join hparts.plain []
      rw [hgap]
      simp only [Option.bind_eq_bind, Option.bind_eq_some_iff, side?_eq_some_iff,
        ofGroups?_eq_some_iff]
      exact ⟨_, ⟨parts, hparts, rfl⟩, groups, rfl, rfl⟩
    | @gap before after left right k _ hleft hright hgs =>
      have hgap : gap? (before ++ ':' :: ':' :: after) = some (before, after) := by
        obtain ⟨parts, hparts, rfl⟩ := hleft
        simpa [gap?] using gap?_join hparts.plain (':' :: ':' :: after)
      have hlen : left.length + (k + 1) + right.length = 8 := by
        simpa [Nat.add_assoc] using (congrArg List.length hgs).symm
      have hk : 8 - left.length - right.length = k + 1 := by omega
      rw [hgap]
      simp only [Option.bind_eq_bind, Option.bind_eq_some_iff, Option.guard_eq_some',
        side?_eq_some_iff, ofGroups?_eq_some_iff]
      exact ⟨left, hleft, right, hright, (), by omega, groups, by rw [hk, hgs], rfl⟩

/-- The newer addresses have colons in their texts. -/
theorem Spells.colon_mem {cs : List Char} {gs : Vector UInt16 8} (h : Spells cs (v6 gs)) :
    ':' ∈ cs := by
  cases h with
  | groups h =>
    obtain ⟨parts, hparts, rfl⟩ := h
    have hlen : 8 ≤ parts.length + 1 := by simpa using hparts.length_le
    match parts, hlen with
    | p :: q :: ps, _ => simp [List.intercalate]
  | gap => simp

/-- **The texts of addresses**: a text is read as the address it spells, and as none if it spells none. -/
theorem parse?_eq_some_iff {text : String} {a : Address} :
    parse? text = some a ↔ Spells text.toList a := by
  rw [parse?]
  generalize text.toList = cs
  constructor
  · intro h
    split at h
    · next a' b c d hq =>
      cases h
      exact .quad (quad?_eq_some_iff.mp hq)
    · exact (parseV6?_eq_some_iff.mp h).1
  · intro h
    cases a with
    | v4 a b c d =>
      cases h with
      | quad hq => rw [quad?_eq_some_iff.mpr hq]
    | v6 groups =>
      split
      · next hq => exact absurd h.colon_mem (quad?_eq_some_iff.mp hq).notMem
      · exact parseV6?_eq_some_iff.mpr ⟨h, groups, rfl⟩

end Parley.Address
