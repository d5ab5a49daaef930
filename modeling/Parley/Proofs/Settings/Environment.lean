import Mathlib.Algebra.Group.Nat.Defs
import Mathlib.Tactic.ByContra
import Parley.Proofs.Numeral
import Parley.Settings.Environment

/-!
# Parley.Proofs.Settings.Environment — what an environment overrides

A variable holds a text, or none: because it is unset, or because its bytes are no text.  Three of the
variables are to hold numerals (`numbers`).  Settings are had from an environment exactly if each of
these holds no text or a numeral within its bound, and then they are the defaults with what the
variables say; otherwise the first of the three that holds neither is named as the environment names it,
with what is wrong first in its text (`ofEnvironment_exact`).
-/

namespace Parley.Settings

open Numeral (Denotes FirstFlaw)

/-! ### What a variable holds -/

namespace Environment

/-- A variable holds a text. -/
def Holds (env : Environment) (v : Variable) (text : String) : Prop := env v = some text.toUTF8

/-- A variable holds no text. -/
def IsUnset (env : Environment) (v : Variable) : Prop := ∀ text, ¬ env.Holds v text

/-- What a variable says, if it holds a text. -/
inductive Says (env : Environment) (v : Variable) : Option String → Prop
  | nothing (h : env.IsUnset v) : Says env v none
  | text {text : String} (h : env.Holds v text) : Says env v (some text)

/-- The number a variable says, if it holds a numeral within a bound. -/
inductive Number (env : Environment) (v : Variable) (bound : Nat) : Option Nat → Prop
  | nothing (h : env.IsUnset v) : Number env v bound none
  | numeral {text : String} {n : Nat} (h : env.Holds v text) (hn : Denotes bound text.toList n) :
    Number env v bound (some n)

/-- What is wrong first with the text a variable holds. -/
def Flawed (env : Environment) (v : Variable) (bound : Nat) (flaw : Numeral.Flaw) : Prop :=
  ∃ text, env.Holds v text ∧ FirstFlaw bound text.toList flaw

theorem says_text? (env : Environment) (v : Variable) : env.Says v (env.text? v) := by
  rw [text?]
  cases hv : env v with
  | none => exact .nothing fun text h => nomatch hv.symm.trans h
  | some bytes =>
    rw [Option.bind_some, String.fromUTF8?]
    split
    · exact .text hv
    · next hbytes =>
      refine .nothing fun text h => hbytes ?_
      cases hv.symm.trans h
      exact text.isValidUTF8

variable {env : Environment} {v : Variable} {bound : Nat}

theorem Holds.text?_eq {text : String} (h : env.Holds v text) : env.text? v = some text := by
  have hsays := env.says_text? v
  generalize env.text? v = o at hsays ⊢
  cases hsays with
  | nothing hnone => exact absurd h (hnone text)
  | text h' => rw [String.toByteArray_inj.mp (Option.some.inj (h'.symm.trans h))]

theorem IsUnset.text?_eq (h : env.IsUnset v) : env.text? v = none := by
  have hsays := env.says_text? v
  generalize env.text? v = o at hsays ⊢
  cases hsays with
  | nothing => rfl
  | text hholds => exact absurd hholds (h _)

theorem Says.text?_eq {o : Option String} (h : env.Says v o) : env.text? v = o := by
  cases h with
  | nothing h => exact h.text?_eq
  | text h => exact h.text?_eq

/-- A variable says a number, or something is wrong with its text. -/
theorem number_or_flawed (env : Environment) (v : Variable) (bound : Nat) :
    (∃ n, env.Number v bound n) ∨ ∃ flaw, env.Flawed v bound flaw := by
  obtain ⟨o, hsays⟩ : ∃ o, env.Says v o := ⟨_, env.says_text? v⟩
  cases hsays with
  | nothing h => exact .inl ⟨none, .nothing h⟩
  | @text text h =>
    cases hparse : Numeral.parse bound text.toList with
    | ok n => exact .inl ⟨_, .numeral h (Numeral.parse_eq_ok_iff.mp hparse)⟩
    | error flaw => exact .inr ⟨_, text, h, Numeral.parse_eq_error_iff.mp hparse⟩

end Environment

/-! ### One variable -/

section Override

variable {α : Type} {env : Environment} {v : Variable} {bound : Nat}

/-- `read` takes the numerals within a bound, and names what is wrong with other texts. -/
structure ReadsNumerals (bound : Nat) (read : String → Except Numeral.Flaw α) (f : Nat → α) : Prop where
  ok : ∀ text n, Denotes bound text.toList n → read text = .ok (f n)
  error : ∀ text flaw, FirstFlaw bound text.toList flaw → read text = .error flaw

theorem readsNumerals_map {read : String → Except Numeral.Flaw α} {f : Nat → α} {β : Type} (g : α → β)
    (h : ReadsNumerals bound read f) :
    ReadsNumerals bound (fun text => (read text).map g) fun n => g (f n) where
  ok text n hn := by rw [h.ok text n hn]; rfl
  error text flaw hflaw := by rw [h.error text flaw hflaw]; rfl

theorem readsNumerals_parse (bound : Nat) :
    ReadsNumerals bound (fun text => Numeral.parse bound text.toList) id where
  ok _ _ hn := Numeral.parse_eq_ok_iff.mpr hn
  error _ _ hflaw := Numeral.parse_eq_error_iff.mpr hflaw

variable {read : String → Except Numeral.Flaw α} {f : Nat → α}

theorem override_number (hread : ReadsNumerals bound read f) {n : Option Nat}
    (h : env.Number v bound n) (value : α) : override env v read value = .ok (n.elim value f) := by
  rw [override]
  cases h with
  | nothing h => rw [h.text?_eq]; rfl
  | @numeral text n h hn =>
    rw [h.text?_eq]
    dsimp only
    rw [hread.ok text n hn]
    rfl

theorem override_flawed (hread : ReadsNumerals bound read f) {flaw : Numeral.Flaw}
    (h : env.Flawed v bound flaw) (value : α) :
    override env v read value = .error (.badVariable v flaw) := by
  obtain ⟨text, hholds, hflaw⟩ := h
  rw [override, hholds.text?_eq]
  dsimp only
  rw [hread.error text flaw hflaw]

end Override

/-! ### The three that hold numbers -/

/-- The variables that are to hold numerals, in the order in which they are read, with their bounds. -/
def numbers : List (Variable × Nat) :=
  [(.firstClientId, 2 ^ 32 - 1), (.handshakeSeed, 2 ^ 64 - 1), (.maxBodySize, 2 ^ 64 - 1)]

/-- The defaults with what was set. -/
def overridden (address : Option String) (id seed size : Option Nat) : Settings :=
  let base : Settings := {}
  { base with
    server := { base.server with
      bindAddress := address.getD base.server.bindAddress
      firstClientId := id.elim base.server.firstClientId UInt32.ofNat
      handshakeSeed := seed.elim base.server.handshakeSeed (some ∘ UInt64.ofNat) }
    transport := { base.transport with
      maxBodySize := size.elim base.transport.maxBodySize UInt64.ofNat } }

variable {env : Environment}

theorem reads32 : ReadsNumerals (2 ^ 32 - 1) Numeral.parse32 UInt32.ofNat :=
  readsNumerals_map UInt32.ofNat (readsNumerals_parse _)

theorem reads64 : ReadsNumerals (2 ^ 64 - 1) Numeral.parse64 UInt64.ofNat :=
  readsNumerals_map UInt64.ofNat (readsNumerals_parse _)

/-- The three are read one after the other. -/
theorem ofEnvironment_eq (env : Environment) : ofEnvironment env =
    let base : Settings := {}
    (override env .firstClientId Numeral.parse32 base.server.firstClientId).bind fun id =>
    (override env .handshakeSeed (fun text => (Numeral.parse64 text).map some)
      base.server.handshakeSeed).bind fun seed =>
    (override env .maxBodySize Numeral.parse64 base.transport.maxBodySize).bind fun size =>
    .ok { base with
      server := { base.server with
        bindAddress := (env.text? .bindAddress).getD base.server.bindAddress
        firstClientId := id
        handshakeSeed := seed }
      transport := { base.transport with maxBodySize := size } } := rfl

theorem ofEnvironment_numbers {address : Option String} {id seed size : Option Nat}
    (haddress : env.Says .bindAddress address) (hid : env.Number .firstClientId (2 ^ 32 - 1) id)
    (hseed : env.Number .handshakeSeed (2 ^ 64 - 1) seed)
    (hsize : env.Number .maxBodySize (2 ^ 64 - 1) size) :
    ofEnvironment env = .ok (overridden address id seed size) := by
  rw [ofEnvironment_eq]
  dsimp only
  rw [haddress.text?_eq, override_number reads32 hid,
    override_number (readsNumerals_map some reads64) hseed, override_number reads64 hsize]
  rfl

/-- The first of the three that is flawed is named. -/
theorem ofEnvironment_flawed {early late : List (Variable × Nat)} {v : Variable} {bound : Nat}
    {flaw : Numeral.Flaw} (hv : numbers = early ++ (v, bound) :: late)
    (hearly : ∀ e ∈ early, ∃ n, env.Number e.1 e.2 n) (hflaw : env.Flawed v bound flaw) :
    ofEnvironment env = .error (.badVariable v flaw) := by
  rw [ofEnvironment_eq]
  dsimp only
  -- How many of the three are read before the flawed one tells which one it is.
  match early, hv, hearly with
  | [], hv, _ =>
    cases hv
    rw [override_flawed reads32 hflaw]
    rfl
  | [_], hv, hearly =>
    cases hv
    obtain ⟨id, hid⟩ := hearly _ List.mem_cons_self
    rw [override_number reads32 hid, override_flawed (readsNumerals_map some reads64) hflaw]
    rfl
  | [_, _], hv, hearly =>
    cases hv
    obtain ⟨id, hid⟩ := hearly _ List.mem_cons_self
    obtain ⟨seed, hseed⟩ := hearly _ (List.mem_cons_of_mem _ List.mem_cons_self)
    rw [override_number reads32 hid, override_number (readsNumerals_map some reads64) hseed,
      override_flawed reads64 hflaw]
    rfl
  | _ :: _ :: _ :: early, hv, _ => cases early <;> cases hv

/-- Of variables some of which do not say a number, one is the first that is flawed. -/
theorem exists_first_flawed {vs : List (Variable × Nat)}
    (h : ¬ ∀ e ∈ vs, ∃ n, env.Number e.1 e.2 n) : ∃ early v bound late flaw,
      vs = early ++ (v, bound) :: late ∧ (∀ e ∈ early, ∃ n, env.Number e.1 e.2 n) ∧
        env.Flawed v bound flaw := by
  induction vs with
  | nil => exact absurd nofun h
  | cons e vs ih =>
    rcases env.number_or_flawed e.1 e.2 with he | ⟨flaw, hflaw⟩
    · obtain ⟨early, v, bound, late, flaw, rfl, hearly, hflaw⟩ :=
        ih fun hvs => h (List.forall_mem_cons.mpr ⟨he, hvs⟩)
      exact ⟨e :: early, v, bound, late, flaw, rfl, List.forall_mem_cons.mpr ⟨he, hearly⟩, hflaw⟩
    · exact ⟨[], e.1, e.2, vs, flaw, rfl, nofun, hflaw⟩

/-- **Settings are had from an environment exactly if each of the three variables holds no text or a
numeral within its bound.**  Then they are the defaults with what the four variables say.  Otherwise the
first of the three that holds another text is named, with what is wrong first in that text. -/
theorem ofEnvironment_exact (env : Environment) :
    ((∃ s, ofEnvironment env = .ok s) ↔ ∀ e ∈ numbers, ∃ n, env.Number e.1 e.2 n) ∧
    (∀ address id seed size, env.Says .bindAddress address →
      env.Number .firstClientId (2 ^ 32 - 1) id → env.Number .handshakeSeed (2 ^ 64 - 1) seed →
      env.Number .maxBodySize (2 ^ 64 - 1) size →
      ofEnvironment env = .ok (overridden address id seed size)) ∧
    ((¬ ∀ e ∈ numbers, ∃ n, env.Number e.1 e.2 n) → ∃ early v bound late flaw p name cause,
      numbers = early ++ (v, bound) :: late ∧ (∀ e ∈ early, ∃ n, env.Number e.1 e.2 n) ∧
      env.Flawed v bound flaw ∧ ofEnvironment env = .error p ∧
      (v, name) ∈ [(Variable.firstClientId, "FRAMED_NET_FIRST_CLIENT_ID"),
        (.handshakeSeed, "FRAMED_NET_HANDSHAKE_SEED"), (.maxBodySize, "FRAMED_NET_MAX_BODY_SIZE")] ∧
      (flaw, cause) ∈ [(Numeral.Flaw.empty, "cannot parse integer from empty string"),
        (.invalidDigit, "invalid digit found in string"),
        (.tooLarge, "number too large to fit in target type")] ∧
      p.fault = .config ("Invalid " ++ name ++ ": " ++ cause)) := by
  refine ⟨⟨fun ⟨s, hs⟩ => ?_, fun h => ?_⟩, fun address id seed size => ofEnvironment_numbers,
    fun h => ?_⟩
  · by_contra hnone
    obtain ⟨early, v, bound, late, flaw, hv, hearly, hflaw⟩ := exists_first_flawed hnone
    cases hs.symm.trans (ofEnvironment_flawed hv hearly hflaw)
  · simp only [numbers, List.forall_mem_cons] at h
    obtain ⟨⟨id, hid⟩, ⟨seed, hseed⟩, ⟨size, hsize⟩, -⟩ := h
    exact ⟨_, ofEnvironment_numbers (env.says_text? _) hid hseed hsize⟩
  · obtain ⟨early, v, bound, late, flaw, hv, hearly, hflaw⟩ := exists_first_flawed h
    have hmem : (v, bound) ∈ numbers := hv ▸ List.mem_append_right early List.mem_cons_self
    refine ⟨early, v, bound, late, flaw, _, v.name, flaw.message, hv, hearly, hflaw,
      ofEnvironment_flawed hv hearly hflaw, ?_, ?_, rfl⟩
    · cases v with
      | bindAddress => simp [numbers] at hmem
      | firstClientId | handshakeSeed | maxBodySize => decide
    · cases flaw <;> decide

/-- An empty address, the largest id with a sign and leading zeros, a seed that is no text, and no
size; then a size with a letter after too many digits. -/
theorem ofEnvironment_exact_plus :
    let env : Environment := fun
      | .bindAddress => some "".toUTF8
      | .firstClientId => some "+0004294967295".toUTF8
      | .handshakeSeed => some ⟨#[0x31, 0xff]⟩
      | .maxBodySize => none
    let crowded : Environment := fun
      | .maxBodySize => some "18446744073709551616x".toUTF8
      | v => env v
    ofEnvironment env = .ok (overridden (some "") (some 4294967295) none none) ∧
      crowded.Flawed .maxBodySize (2 ^ 64 - 1) .tooLarge ∧ ∃ p, ofEnvironment crowded = .error p ∧
        p.fault = .config
          "Invalid FRAMED_NET_MAX_BODY_SIZE: number too large to fit in target type" := by
  intro env crowded
  have hid : Denotes (2 ^ 32 - 1) "+0004294967295".toList 4294967295 :=
    ⟨['+'], "0004294967295".toList, rfl, .inr rfl, by decide, List.all_eq_true.mp (by decide),
      by decide +kernel, by decide⟩
  have hseed : env.IsUnset .handshakeSeed := by
    intro text h
    have hbytes : (⟨#[0x31, 0xff]⟩ : ByteArray) = text.toByteArray := Option.some.inj h
    exact absurd (hbytes ▸ text.isValidUTF8) (by decide)
  have hsize : env.IsUnset .maxBodySize := nofun
  have hlarge : crowded.Flawed .maxBodySize (2 ^ 64 - 1) .tooLarge :=
    ⟨_, rfl, Numeral.parse_eq_error_iff.mp rfl⟩
  refine ⟨(ofEnvironment_exact env).2.1 _ _ _ _ (.text rfl) (.numeral rfl hid) (.nothing hseed)
    (.nothing hsize), hlarge, ?_⟩
  obtain ⟨-, -, -, -, -, p, -, -, -, -, -, hp, -⟩ := (ofEnvironment_exact crowded).2.2 fun hall => by
    obtain ⟨n, hn⟩ := hall (.maxBodySize, 2 ^ 64 - 1) (by decide)
    cases (override_number reads64 hn 0).symm.trans (override_flawed reads64 hlarge 0)
  have hearly : ∀ e ∈ [(Variable.firstClientId, 2 ^ 32 - 1), (.handshakeSeed, 2 ^ 64 - 1)],
      ∃ n, crowded.Number e.1 e.2 n :=
    List.forall_mem_cons.mpr ⟨⟨_, .numeral rfl hid⟩, List.forall_mem_singleton.mpr ⟨_, .nothing hseed⟩⟩
  cases hp.symm.trans (ofEnvironment_flawed rfl hearly hlarge)
  exact ⟨_, hp, rfl⟩

end Parley.Settings
