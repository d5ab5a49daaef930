import Parley.Proofs.Numeral
import Parley.Proofs.Settings.Saving

/-!
# Parley.Proofs.Settings.Setting — settings one by one

Each of the eleven settings has a key in one of the four sections, and takes values of one of five forms
(`Setting`, `Form`).  What is written for a value of a form is read as that value, and the other values
of a document are refused (`Form.read_value`, `Form.read_refused`).  So reading a section sets a setting
that its entries name, skips a key that it does not know, and fails at a value of another form
(`Section.read_cons`, `Section.read_skip`, `Section.read_cons_refused`).
-/

namespace Parley

/-! ### Names of levels -/

namespace Level

/-- A text names a level by its number, or by its name in any mixture of cases. -/
def Named (text : String) (level : Level) : Prop :=
  (∃ n, Numeral.Denotes (2 ^ 64 - 1) text.toList n ∧ ofNumber? n = some level) ∨
    text.toList.map Char.toLower = level.keyword.toList

theorem number_eq_some_iff {text : String} {level : Level} :
    (Numeral.parse64 text).toOption.bind (ofNumber? ·.toNat) = some level ↔
      ∃ n, Numeral.Denotes (2 ^ 64 - 1) text.toList n ∧ ofNumber? n = some level := by
  rw [Option.bind_eq_some_iff]
  constructor
  · rintro ⟨x, hx, hlevel⟩
    cases hparse : Numeral.parse64 text with
    | error flaw =>
      rw [hparse] at hx
      cases hx
    | ok y =>
      rw [hparse] at hx
      cases hx
      exact ⟨_, Numeral.parse64_eq_ok_iff.mp hparse, hlevel⟩
  · rintro ⟨n, hn, hlevel⟩
    have hlt : n < UInt64.size := Nat.lt_of_le_of_lt hn.le (by decide)
    have hword : (UInt64.ofNat n).toNat = n := UInt64.toNat_ofNat_of_lt' hlt
    have hparse : Numeral.parse64 text = .ok (UInt64.ofNat n) :=
      Numeral.parse64_eq_ok_iff.mpr (by rw [hword]; exact hn)
    exact ⟨UInt64.ofNat n, by rw [hparse]; rfl, by rw [hword]; exact hlevel⟩

/-- A text that names no level is read as none. -/
theorem parse?_eq_none_iff {text : String} : parse? text = none ↔ ∀ level, ¬ Named text level := by
  have hname : (all.find? fun level => text.toList.map Char.toLower == level.keyword.toList) = none ↔
      ∀ level : Level, text.toList.map Char.toLower ≠ level.keyword.toList := by
    have hall : ∀ level, level ∈ all := by
      intro level
      cases level <;> decide
    simp only [List.find?_eq_none, beq_iff_eq, hall, true_imp_iff, ne_eq]
  rw [parse?]
  constructor
  · intro h level hlevel
    split at h
    · cases h
    · next hnone =>
      rcases hlevel with hlevel | hlevel
      · rw [number_eq_some_iff.mpr hlevel] at hnone
        cases hnone
      · exact hname.mp h level hlevel
  · intro h
    have hnone : (Numeral.parse64 text).toOption.bind (ofNumber? ·.toNat) = none := by
      by_contra hsome
      obtain ⟨level, hlevel⟩ := Option.ne_none_iff_exists'.mp hsome
      exact h level (.inl (number_eq_some_iff.mp hlevel))
    rw [hnone]
    exact hname.mpr fun level hlevel => h level (.inr hlevel)

end Level

namespace Settings

open Toml Toml.Document

/-! ### Forms of values -/

/-- The forms of values that settings take. -/
inductive Form where
  | text | word32 | word64 | truth | level
  deriving DecidableEq

namespace Form

/-- The values of a form. -/
abbrev Carrier : Form → Type
  | text => String
  | word32 => UInt32
  | word64 => UInt64
  | truth => Bool
  | level => Level

/-- A value as it is written. -/
def write : (form : Form) → form.Carrier → Written
  | text, s => Written.ofText s
  | word32, n => Written.ofNat n.toNat
  | word64, n => Written.ofNat n.toNat
  | truth, b => Written.ofBool b
  | level, l => Written.ofText l.keyword

/-- A value as it stands in a document. -/
def value : (form : Form) → form.Carrier → Value
  | text, s => .string s
  | word32, n => .integer n.toNat
  | word64, n => .integer n.toNat
  | truth, b => .boolean b
  | level, l => .string l.keyword

/-- A document has room for a value: its integers have 64 bits, one of them for the sign. -/
def Fits : (form : Form) → form.Carrier → Prop
  | word64, n => n.toNat ≤ 2 ^ 63 - 1
  | _, _ => True

/-- The values in documents that stand for a value of a form. -/
def Takes : Form → Value → Prop
  | text, .string _ => True
  | word32, .integer n => 0 ≤ n ∧ n < 2 ^ 32
  | word64, .integer n => 0 ≤ n ∧ n < 2 ^ 64
  | truth, .boolean _ => True
  | level, .string s => ∃ l, Level.Named s l
  | _, _ => False

/-- Read a value of a form. -/
def read : (form : Form) → Value → Except Problem form.Carrier
  | text => readText
  | word32 => readWord32
  | word64 => readWord64
  | truth => readBool
  | level => readLevel

theorem spells_write {form : Form} {x : form.Carrier} (h : form.Fits x) :
    Spells (form.write x) (form.value x) := by
  cases form with
  | text => exact spells_text x
  | word32 => exact spells_nat (Nat.lt_trans (UInt32.toNat_lt x) (by decide))
  | word64 => exact spells_nat (Nat.lt_of_le_of_lt h (by decide))
  | truth => exact spells_bool x
  | level => exact spells_text _

theorem read_value (form : Form) (x : form.Carrier) : form.read (form.value x) = .ok x := by
  cases form with
  | text => rfl
  | word32 => exact readWord32_toNat x
  | word64 => exact readWord64_toNat x
  | truth => rfl
  | level => exact readLevel_keyword x

theorem readBelow_refused {bound : Nat} {v : Value}
    (h : ∀ n : Int, v = .integer n → ¬ (0 ≤ n ∧ n < bound)) : readBelow bound v = .error .malformed := by
  cases v with
  | integer n => exact if_neg (h n rfl)
  | _ => rfl

theorem read_refused {form : Form} {v : Value} (h : ¬ form.Takes v) : ∃ p, form.read v = .error p := by
  cases form with
  | text =>
    cases v with
    | string s => exact (h trivial).elim
    | _ => exact ⟨_, rfl⟩
  | word32 =>
    refine ⟨.malformed, ?_⟩
    have hbelow : readBelow UInt32.size v = .error .malformed := by
      refine readBelow_refused ?_
      rintro n rfl hn
      exact h hn
    rw [read, readWord32, hbelow]
    rfl
  | word64 =>
    refine ⟨.malformed, ?_⟩
    have hbelow : readBelow UInt64.size v = .error .malformed := by
      refine readBelow_refused ?_
      rintro n rfl hn
      exact h hn
    rw [read, readWord64, hbelow]
    rfl
  | truth =>
    cases v with
    | boolean b => exact absurd trivial h
    | _ => exact ⟨_, rfl⟩
  | level =>
    cases v with
    | string s =>
      have hnone : Level.parse? s = none := Level.parse?_eq_none_iff.mpr fun level hl => h ⟨level, hl⟩
      refine ⟨.unknownLevel s, ?_⟩
      simp [read, readLevel, readText, hnone]
    | _ => exact ⟨_, rfl⟩

end Form

/-! ### Sections and settings -/

/-- The sections of settings. -/
inductive Section where
  | server | client | transport | logging
  deriving DecidableEq

/-- The settings. -/
inductive Setting where
  | bindAddress | firstClientId | handshakeSeed | serverThreadName
  | clientThreadName
  | maxBodySize | noDelay
  | appName | level | toConsole | jsonFormat
  deriving DecidableEq

namespace Section

def name : Section → String
  | server => "server"
  | client => "client"
  | transport => "transport"
  | logging => "logging"

theorem name_injective {c d : Section} (h : c.name = d.name) : c = d := by
  cases c <;> cases d <;> first | rfl | exact absurd h (by decide)

/-- Read the entries of a section. -/
def read : Section → Entries → Settings → Except Problem Settings
  | server, es, s => (readEntries serverFields es s.server).map fun x => { s with server := x }
  | client, es, s => (readEntries clientFields es s.client).map fun x => { s with client := x }
  | transport, es, s =>
    (readEntries transportFields es s.transport).map fun x => { s with transport := x }
  | logging, es, s => (readEntries loggingFields es s.logging).map fun x => { s with logging := x }

end Section

namespace Setting

/-- The section of a setting. -/
def home : Setting → Section
  | bindAddress | firstClientId | handshakeSeed | serverThreadName => .server
  | clientThreadName => .client
  | maxBodySize | noDelay => .transport
  | appName | level | toConsole | jsonFormat => .logging

def key : Setting → String
  | bindAddress => "bind_address"
  | firstClientId => "first_client_id"
  | handshakeSeed => "handshake_seed"
  | serverThreadName | clientThreadName => "thread_name"
  | maxBodySize => "max_body_size"
  | noDelay => "nodelay"
  | appName => "app_name"
  | level => "log_level"
  | toConsole => "log_to_console"
  | jsonFormat => "json_format"

abbrev form : Setting → Form
  | bindAddress | serverThreadName | clientThreadName | appName => .text
  | firstClientId => .word32
  | handshakeSeed | maxBodySize => .word64
  | noDelay | toConsole | jsonFormat => .truth
  | level => .level

/-- What is set; a seed may not be. -/
def get : (f : Setting) → Settings → Option f.form.Carrier
  | bindAddress, s => some s.server.bindAddress
  | firstClientId, s => some s.server.firstClientId
  | handshakeSeed, s => s.server.handshakeSeed
  | serverThreadName, s => some s.server.threadName
  | clientThreadName, s => some s.client.threadName
  | maxBodySize, s => some s.transport.maxBodySize
  | noDelay, s => some s.transport.noDelay
  | appName, s => some s.logging.appName
  | level, s => some s.logging.level
  | toConsole, s => some s.logging.toConsole
  | jsonFormat, s => some s.logging.jsonFormat

def put : (f : Setting) → f.form.Carrier → Settings → Settings
  | bindAddress, x, s => { s with server := { s.server with bindAddress := x } }
  | firstClientId, x, s => { s with server := { s.server with firstClientId := x } }
  | handshakeSeed, x, s => { s with server := { s.server with handshakeSeed := some x } }
  | serverThreadName, x, s => { s with server := { s.server with threadName := x } }
  | clientThreadName, x, s => { s with client := { s.client with threadName := x } }
  | maxBodySize, x, s => { s with transport := { s.transport with maxBodySize := x } }
  | noDelay, x, s => { s with transport := { s.transport with noDelay := x } }
  | appName, x, s => { s with logging := { s.logging with appName := x } }
  | level, x, s => { s with logging := { s.logging with level := x } }
  | toConsole, x, s => { s with logging := { s.logging with toConsole := x } }
  | jsonFormat, x, s => { s with logging := { s.logging with jsonFormat := x } }

theorem get_put_self (f : Setting) (x : f.form.Carrier) (s : Settings) : f.get (f.put x s) = some x := by
  cases f <;> rfl

theorem get_put_ne {f g : Setting} (h : g ≠ f) (x : f.form.Carrier) (s : Settings) :
    g.get (f.put x s) = g.get s := by
  cases f <;> cases g <;> first | rfl | exact absurd rfl h

/-- Settings are the same if all of them are. -/
theorem ext {s t : Settings} (h : ∀ f : Setting, f.get s = f.get t) : s = t := by
  obtain ⟨⟨_, _, _, _⟩, ⟨_⟩, ⟨_, _⟩, ⟨_, _, _, _⟩⟩ := s
  obtain ⟨⟨_, _, _, _⟩, ⟨_⟩, ⟨_, _⟩, ⟨_, _, _, _⟩⟩ := t
  have h1 := h .bindAddress
  have h2 := h .firstClientId
  have h3 := h .handshakeSeed
  have h4 := h .serverThreadName
  have h5 := h .clientThreadName
  have h6 := h .maxBodySize
  have h7 := h .noDelay
  have h8 := h .appName
  have h9 := h .level
  have h10 := h .toConsole
  have h11 := h .jsonFormat
  simp only [get, Option.some.injEq] at h1 h2 h3 h4 h5 h6 h7 h8 h9 h10 h11
  subst_vars
  rfl

theorem bare_key (f : Setting) : Bare f.key := by cases f <;> decide

end Setting

/-! ### Reading entries -/

theorem map_error {α β : Type} {e : Except Problem α} {p : Problem} (h : e = .error p) (f : α → β) :
    e.map f = .error p := by
  rw [h]
  rfl

/-- What a field refuses is an error, whatever comes after it. -/
theorem readEntries_cons_error {σ : Type} {fields : Fields σ} {key : String} {v : Value} {f : Field σ}
    (hl : fields.lookup key = some f) {s : σ} {p : Problem} (hf : f v s = .error p) {rest : Entries} :
    readEntries fields ((key, v) :: rest) s = .error p := by
  rw [readEntries, hl]
  dsimp only
  rw [hf]

theorem readEntries_skip {σ : Type} {fields : Fields σ} {key : String} (hl : fields.lookup key = none)
    (v : Value) (rest : Entries) (s : σ) :
    readEntries fields ((key, v) :: rest) s = readEntries fields rest s := by
  rw [readEntries, hl]

namespace Section

theorem read_nil (c : Section) (s : Settings) : c.read [] s = .ok s := by cases c <;> rfl

/-- An entry that names a setting sets it. -/
theorem read_cons {f : Setting} {v : Value} {x : f.form.Carrier} (h : f.form.read v = .ok x)
    (es : Entries) (s : Settings) :
    f.home.read ((f.key, v) :: es) s = f.home.read es (f.put x s) := by
  cases f <;> exact congrArg (Except.map _) (readEntries_cons rfl (map_ok h rfl) rfl)

/-- A value of another form is an error, whatever comes after it. -/
theorem read_cons_refused {f : Setting} {v : Value} {p : Problem} (h : f.form.read v = .error p)
    (es : Entries) (s : Settings) : f.home.read ((f.key, v) :: es) s = .error p := by
  cases f <;> exact congrArg (Except.map _) (readEntries_cons_error rfl (map_error h _))

/-- A key that no setting of the section has is skipped. -/
theorem read_skip {c : Section} {key : String} (h : ∀ f : Setting, f.home = c → f.key ≠ key) (v : Value)
    (es : Entries) (s : Settings) : c.read ((key, v) :: es) s = c.read es s := by
  have hne : ∀ f : Setting, f.home = c → (key != f.key) = true := fun f hf =>
    bne_iff_ne.mpr (h f hf).symm
  -- The fields of a section are the settings at home there, one after the other.
  cases c with
  | server =>
    refine congrArg (Except.map _) (readEntries_skip (List.lookup_eq_none_iff.mpr ?_) v es _)
    exact List.forall_mem_cons.mpr ⟨hne .bindAddress rfl, List.forall_mem_cons.mpr
      ⟨hne .firstClientId rfl, List.forall_mem_cons.mpr
        ⟨hne .handshakeSeed rfl, List.forall_mem_singleton.mpr (hne .serverThreadName rfl)⟩⟩⟩
  | client =>
    refine congrArg (Except.map _) (readEntries_skip (List.lookup_eq_none_iff.mpr ?_) v es _)
    exact List.forall_mem_singleton.mpr (hne .clientThreadName rfl)
  | transport =>
    refine congrArg (Except.map _) (readEntries_skip (List.lookup_eq_none_iff.mpr ?_) v es _)
    exact List.forall_mem_cons.mpr
      ⟨hne .maxBodySize rfl, List.forall_mem_singleton.mpr (hne .noDelay rfl)⟩
  | logging =>
    refine congrArg (Except.map _) (readEntries_skip (List.lookup_eq_none_iff.mpr ?_) v es _)
    exact List.forall_mem_cons.mpr ⟨hne .appName rfl, List.forall_mem_cons.mpr
      ⟨hne .level rfl, List.forall_mem_cons.mpr
        ⟨hne .toConsole rfl, List.forall_mem_singleton.mpr (hne .jsonFormat rfl)⟩⟩⟩

end Section

/-! ### Reading sections -/

theorem readEntries_section (c : Section) (origin : Origin) (es rest : Entries) (s : Settings) :
    readEntries sections ((c.name, .table origin es) :: rest) s =
      (c.read es s).bind (readEntries sections rest) := by
  cases hread : c.read es s with
  | error p => cases c <;> exact readEntries_cons_error rfl hread
  | ok t => cases c <;> exact readEntries_cons rfl hread rfl

theorem readEntries_append_skip {σ : Type} {fields : Fields σ} {es : Entries}
    (h : ∀ e ∈ es, fields.lookup e.1 = none) (rest : Entries) (s : σ) :
    readEntries fields (es ++ rest) s = readEntries fields rest s := by
  induction es with
  | nil => rfl
  | cons e es ih =>
    obtain ⟨he, hes⟩ := List.forall_mem_cons.mp h
    exact (readEntries_skip he e.2 _ s).trans (ih hes)

/-- A name that no section has. -/
theorem lookup_sections_eq_none {name : String} (h : ∀ c : Section, c.name ≠ name) :
    sections.lookup name = none := by
  have hne : ∀ c : Section, (name != c.name) = true := fun c => bne_iff_ne.mpr (h c).symm
  refine List.lookup_eq_none_iff.mpr ?_
  exact List.forall_mem_cons.mpr ⟨hne .server, List.forall_mem_cons.mpr ⟨hne .client,
    List.forall_mem_cons.mpr ⟨hne .transport, List.forall_mem_singleton.mpr (hne .logging)⟩⟩⟩

end Settings
end Parley
