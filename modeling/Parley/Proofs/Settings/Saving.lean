import Parley.Proofs.Toml.Document
import Parley.Settings.Document

/-!
# Parley.Proofs.Settings.Saving — saved settings are loaded as they were

Settings are written as four sections, and each section is read back as the record it was made of
(`tells_server` and `readSection_server`, and so on for the others).  With the round trip of
documents this gives `load_save`: settings with numbers that fit are saved, and loading what was
saved gives the same settings; others are refused before the path matters at all.
-/

namespace Parley.Settings

open Toml Toml.Document

/-- A number of the settings is too large for a TOML document. -/
def Oversized (s : Settings) : Prop :=
  (∃ seed, s.server.handshakeSeed = some seed ∧ 2 ^ 63 - 1 < seed.toNat) ∨
    2 ^ 63 - 1 < s.transport.maxBodySize.toNat

theorem fits_iff (s : Settings) : s.fits = true ↔ ¬ s.Oversized := by
  have hmax : integerMax = 2 ^ 63 - 1 := by decide
  rw [fits, Oversized, hmax]
  cases s.server.handshakeSeed <;> simp

/-! ### The sections as they are written -/

def serverLines (s : ServerSettings) : List (String × Written) :=
  [("bind_address", Written.ofText s.bindAddress),
    ("first_client_id", Written.ofNat s.firstClientId.toNat)]
  ++ (match s.handshakeSeed with
    | some seed => [("handshake_seed", Written.ofNat seed.toNat)]
    | none => [])
  ++ [("thread_name", Written.ofText s.threadName)]

def clientLines (s : ClientSettings) : List (String × Written) :=
  [("thread_name", Written.ofText s.threadName)]

def transportLines (s : TransportSettings) : List (String × Written) :=
  [("max_body_size", Written.ofNat s.maxBodySize.toNat), ("nodelay", Written.ofBool s.noDelay)]

def loggingLines (s : LoggingSettings) : List (String × Written) :=
  [("app_name", Written.ofText s.appName), ("log_level", Written.ofText s.level.keyword),
    ("log_to_console", Written.ofBool s.toConsole), ("json_format", Written.ofBool s.jsonFormat)]

theorem document_eq (s : Settings) :
    s.document = String.ofList (Written.document
      ([("server", serverLines s.server), ("client", clientLines s.client),
        ("transport", transportLines s.transport), ("logging", loggingLines s.logging)].map
          fun section_ => Written.section section_.1 section_.2)) := rfl

/-! ### The sections as they are read -/

def serverEntries (s : ServerSettings) : Entries :=
  [("bind_address", .string s.bindAddress), ("first_client_id", .integer s.firstClientId.toNat)]
  ++ (match s.handshakeSeed with
    | some seed => [("handshake_seed", .integer seed.toNat)]
    | none => [])
  ++ [("thread_name", .string s.threadName)]

def clientEntries (s : ClientSettings) : Entries := [("thread_name", .string s.threadName)]

def transportEntries (s : TransportSettings) : Entries :=
  [("max_body_size", .integer s.maxBodySize.toNat), ("nodelay", .boolean s.noDelay)]

def loggingEntries (s : LoggingSettings) : Entries :=
  [("app_name", .string s.appName), ("log_level", .string s.level.keyword),
    ("log_to_console", .boolean s.toConsole), ("json_format", .boolean s.jsonFormat)]

theorem tells_text {k : String} (h : Bare k) (s : String) :
    Tells (k, Written.ofText s) (k, .string s) :=
  ⟨h.spellsKey, spells_text s⟩

theorem tells_nat {k : String} (h : Bare k) {n : Nat} (hn : n < 2 ^ 63) :
    Tells (k, Written.ofNat n) (k, .integer n) :=
  ⟨h.spellsKey, spells_nat hn⟩

theorem tells_bool {k : String} (h : Bare k) (b : Bool) :
    Tells (k, Written.ofBool b) (k, .boolean b) :=
  ⟨h.spellsKey, spells_bool b⟩

theorem tells_server {s : ServerSettings} (h : ∀ seed, s.handshakeSeed = some seed →
    seed.toNat < 2 ^ 63) : TellsSection ("server", serverLines s) ("server", serverEntries s) := by
  have hid : s.firstClientId.toNat < 2 ^ 63 := s.firstClientId.toNat_lt.trans (by decide)
  refine ⟨(show Bare "server" by decide).spellsKey, ?_, ?_⟩
  · cases hs : s.handshakeSeed with
    | none =>
      simp only [serverLines, serverEntries, hs, List.append_nil]
      exact .cons (tells_text (by decide) _) (.cons (tells_nat (by decide) hid)
        (.cons (tells_text (by decide) _) .nil))
    | some seed =>
      simp only [serverLines, serverEntries, hs]
      exact .cons (tells_text (by decide) _) (.cons (tells_nat (by decide) hid)
        (.cons (tells_nat (by decide) (h seed hs)) (.cons (tells_text (by decide) _) .nil)))
  · cases hs : s.handshakeSeed <;> simp [serverEntries, Entries.keys, hs]

theorem tells_client (s : ClientSettings) :
    TellsSection ("client", clientLines s) ("client", clientEntries s) :=
  ⟨(show Bare "client" by decide).spellsKey, .cons (tells_text (by decide) _) .nil,
    by simp [clientEntries, Entries.keys]⟩

theorem tells_transport {s : TransportSettings} (h : s.maxBodySize.toNat < 2 ^ 63) :
    TellsSection ("transport", transportLines s) ("transport", transportEntries s) :=
  ⟨(show Bare "transport" by decide).spellsKey,
    .cons (tells_nat (by decide) h) (.cons (tells_bool (by decide) _) .nil),
    by simp [transportEntries, Entries.keys]⟩

theorem tells_logging (s : LoggingSettings) :
    TellsSection ("logging", loggingLines s) ("logging", loggingEntries s) :=
  ⟨(show Bare "logging" by decide).spellsKey,
    .cons (tells_text (by decide) _) (.cons (tells_text (by decide) _)
      (.cons (tells_bool (by decide) _) (.cons (tells_bool (by decide) _) .nil))),
    by simp [loggingEntries, Entries.keys]⟩

/-! ### The records that sections are read as -/

theorem readBelow_natCast {bound n : Nat} (h : n < bound) :
    readBelow bound (.integer n) = .ok n := by
  have hn : 0 ≤ (n : Int) ∧ (n : Int) < bound := by omega
  rw [readBelow, if_pos hn, Int.toNat_natCast]

theorem readWord32_toNat (x : UInt32) : readWord32 (.integer x.toNat) = .ok x := by
  rw [readWord32, readBelow_natCast x.toNat_lt]
  simp [Except.map]

theorem readWord64_toNat (x : UInt64) : readWord64 (.integer x.toNat) = .ok x := by
  rw [readWord64, readBelow_natCast x.toNat_lt]
  simp [Except.map]

/-- Every level is read back from its keyword. -/
theorem readLevel_keyword (level : Level) : readLevel (.string level.keyword) = .ok level := by
  cases level <;> rfl

theorem map_ok {α β : Type} {e : Except Problem α} {a : α} (h : e = .ok a) {f : α → β} {b : β}
    (hb : f a = b) : e.map f = .ok b := by
  rw [h, ← hb]
  rfl

/-- A key that is known is read by its field, then the entries after it. -/
theorem readEntries_cons {σ : Type} {fields : Fields σ} {key : String} {v : Value} {f : Field σ}
    (hl : fields.lookup key = some f) {s t : σ} (hf : f v s = .ok t) {rest : Entries}
    {r : Except Problem σ} (hr : readEntries fields rest t = r) :
    readEntries fields ((key, v) :: rest) s = r := by
  rw [readEntries, hl]
  dsimp only
  rw [hf]
  exact hr

-- Below, an entry is read (`by exact`) once its field is known, after its key was looked up.

/-- An unset seed is not written, so it has to be unset where reading starts. -/
theorem readSection_server (s : ServerSettings) {start : ServerSettings}
    (h : start.handshakeSeed = none) :
    readSection serverFields (.table .header (serverEntries s)) start = .ok s := by
  obtain ⟨address, id, seed, name⟩ := s
  obtain ⟨_, _, _, _⟩ := start
  obtain rfl := h
  rw [readSection, serverEntries]
  refine readEntries_cons rfl rfl ?_
  refine readEntries_cons rfl (by exact map_ok (readWord32_toNat id) rfl) ?_
  cases seed with
  | none => rfl
  | some seed => exact readEntries_cons rfl (by exact map_ok (readWord64_toNat seed) rfl) rfl

theorem readSection_client (s start : ClientSettings) :
    readSection clientFields (.table .header (clientEntries s)) start = .ok s := rfl

theorem readSection_transport (s start : TransportSettings) :
    readSection transportFields (.table .header (transportEntries s)) start = .ok s := by
  rw [readSection, transportEntries]
  refine readEntries_cons rfl (by exact map_ok (readWord64_toNat s.maxBodySize) rfl) ?_
  rfl

theorem readSection_logging (s start : LoggingSettings) :
    readSection loggingFields (.table .header (loggingEntries s)) start = .ok s := by
  rw [readSection, loggingEntries]
  refine readEntries_cons rfl rfl ?_
  refine readEntries_cons rfl (by exact map_ok (readLevel_keyword s.level) rfl) ?_
  rfl

theorem readEntries_sections (s : Settings) {start : Settings}
    (h : start.server.handshakeSeed = none) :
    readEntries sections (tables [("server", serverEntries s.server),
      ("client", clientEntries s.client), ("transport", transportEntries s.transport),
      ("logging", loggingEntries s.logging)]) start = .ok s := by
  simp only [tables, List.map_cons, List.map_nil]
  refine readEntries_cons rfl (by exact map_ok (readSection_server s.server h) rfl) ?_
  refine readEntries_cons rfl (by exact map_ok (readSection_client s.client _) rfl) ?_
  refine readEntries_cons rfl (by exact map_ok (readSection_transport s.transport _) rfl) ?_
  refine readEntries_cons rfl (by exact map_ok (readSection_logging s.logging _) rfl) ?_
  rfl

/-- Settings whose numbers fit are read back from their document. -/
theorem ofToml_document {s : Settings} (h : ¬ s.Oversized) : ofToml s.document = .ok s := by
  have hseed : ∀ seed, s.server.handshakeSeed = some seed → seed.toNat < 2 ^ 63 := by
    intro seed hs
    by_contra hlt
    exact h (.inl ⟨seed, hs, by omega⟩)
  have hsize : s.transport.maxBodySize.toNat < 2 ^ 63 := by
    by_contra hlt
    exact h (.inr (by omega))
  have hparse := parse?_document .nil (.cons (tells_server hseed) (.cons (tells_client s.client)
    (.cons (tells_transport hsize) (.cons (tells_logging s.logging) .nil)))) (by simp [tables])
  rw [List.flatMap_nil, List.nil_append] at hparse
  rw [document_eq, ofToml, hparse]
  exact readEntries_sections s rfl

/-! ### Files -/

/-- A file can be written where nothing or a file stands. -/
def Place.IsWritable : Place → Prop
  | .missing | .file _ => True
  | .directory | .nowhere => False

theorem fromUTF8?_toUTF8 (text : String) : String.fromUTF8? text.toUTF8 = some text := by
  simp only [String.fromUTF8?, String.toUTF8_eq_toByteArray, dif_pos text.isValidUTF8]
  rfl

/-- Settings with a number that is too large are refused whatever stands at the path, with a problem
that names no path; all others are saved wherever a file can be written, and loading what then
stands there gives the same settings. -/
theorem load_save (s : Settings) :
    (s.Oversized → ∀ place, s.save place = .error .unserializable) ∧
      (¬ s.Oversized → ∀ place : Place, place.IsWritable →
        ∃ saved, s.save place = .ok saved ∧ load saved = .ok s) := by
  constructor
  · intro h place
    have hfits : ¬ s.fits = true := by rwa [fits_iff, not_not]
    simp [save, toToml, hfits]
  · intro h place hplace
    have hfits : s.fits = true := (fits_iff s).mpr h
    refine ⟨.file s.document.toUTF8, ?_, ?_⟩
    · cases place with
      | missing | file => simp [save, toToml, hfits]
      | directory | nowhere => exact hplace.elim
    · rw [load, fromUTF8?_toUTF8]
      exact ofToml_document h

/-- Quotes of both kinds, a backslash and control characters, and the largest seed that fits. -/
theorem load_save_quotes :
    let s : Settings := { server := {
      bindAddress := "'''\"\"\"\\\n\r\t\x00", handshakeSeed := some 9223372036854775807,
      threadName := "" } }
    ¬ s.Oversized ∧ Place.missing.IsWritable ∧
      ∃ saved, s.save .missing = .ok saved ∧ load saved = .ok s := by
  intro s
  have hfits : ¬ s.Oversized := (fits_iff s).mp (by decide +kernel)
  exact ⟨hfits, trivial, (load_save s).2 hfits .missing trivial⟩

end Parley.Settings
