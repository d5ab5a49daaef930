import Parley.Proofs.Server.Starting

/-!
# Parley.Proofs.Settings.Validation — valid settings

There are six conditions that settings have to meet (`Condition`).  What is wrong with settings is one
complaint for each condition that is not met, section by section and in a text of its own (`validate_eq`,
`messages_eq`), and strict validation says all of them in one text (`check_spec`).  Settings with which
nothing is wrong serve: a server made with them can listen on their address, gives no connection the id
zero, and sends and takes no body that is too long for its frame (`Serves`, `validate_exact`).
-/

namespace Parley.Settings

open Server (Event Action registrations)

/-! ### Conditions -/

/-- What settings have to fulfil, section by section. -/
inductive Condition where
  | bindAddress | firstClientId | serverThreadName | clientThreadName | maxBodySize | appName
  deriving DecidableEq, Repr

namespace Condition

def all : List Condition :=
  [bindAddress, firstClientId, serverThreadName, clientThreadName, maxBodySize, appName]

/-- The settings meet a condition. -/
def Holds (s : Settings) : Condition → Prop
  | bindAddress => ∃ address, Address.Spells s.server.bindAddress.toList address
  | firstClientId => s.server.firstClientId ≠ 0
  | serverThreadName => s.server.threadName ≠ ""
  | clientThreadName => s.client.threadName ≠ ""
  | maxBodySize => 1 ≤ s.transport.maxBodySize.toNat ∧ s.transport.maxBodySize.toNat ≤ 2 ^ 32 - 1
  | appName => 1 ≤ s.logging.appName.utf8ByteSize ∧ s.logging.appName.utf8ByteSize ≤ 64

/-- What is said of settings that do not meet a condition. -/
def complaint (s : Settings) : Condition → Violation
  | bindAddress =>
    if s.server.bindAddress = "" then .bindAddressEmpty else .bindAddressInvalid s.server.bindAddress
  | firstClientId => .firstClientIdZero
  | serverThreadName => .serverThreadNameEmpty
  | clientThreadName => .clientThreadNameEmpty
  | maxBodySize =>
    if s.transport.maxBodySize = 0 then .maxBodySizeZero else .maxBodySizeTooLarge s.transport.maxBodySize
  | appName =>
    if s.logging.appName = "" then .appNameEmpty else .appNameTooLong s.logging.appName.utf8ByteSize

/-- The text in which it is said. -/
def text (s : Settings) : Condition → String
  | bindAddress =>
    if s.server.bindAddress = "" then "Server bind address cannot be empty"
    else "Invalid server bind address: '" ++ s.server.bindAddress
      ++ "' (expected an IP such as '0.0.0.0')"
  | firstClientId => "First client id must be greater than 0 (0 marks unassigned)"
  | serverThreadName => "Server thread name cannot be empty"
  | clientThreadName => "Client thread name cannot be empty"
  | maxBodySize =>
    if s.transport.maxBodySize = 0 then "Max body size cannot be 0"
    else "Max body size too large: " ++ toString s.transport.maxBodySize.toNat
      ++ " bytes (the length field is 32 bits)"
  | appName =>
    if s.logging.appName = "" then "Application name cannot be empty"
    else "Application name too long: " ++ toString s.logging.appName.utf8ByteSize
      ++ " characters (maximum: 64)"

theorem message_complaint (s : Settings) (c : Condition) : (c.complaint s).message = c.text s := by
  cases c with
  | firstClientId | serverThreadName | clientThreadName => rfl
  | bindAddress | maxBodySize | appName =>
    rw [complaint, text, apply_ite Violation.message]
    rfl

theorem isSome_parse?_iff {text : String} :
    (Address.parse? text).isSome = true ↔ ∃ address, Address.Spells text.toList address := by
  simp only [Option.isSome_iff_exists, Address.parse?_eq_some_iff]

instance (s : Settings) : DecidablePred (Holds s)
  | bindAddress => decidable_of_iff _ isSome_parse?_iff
  | firstClientId => inferInstanceAs (Decidable (_ ≠ _))
  | serverThreadName => inferInstanceAs (Decidable (_ ≠ _))
  | clientThreadName => inferInstanceAs (Decidable (_ ≠ _))
  | maxBodySize => inferInstanceAs (Decidable (_ ∧ _))
  | appName => inferInstanceAs (Decidable (_ ∧ _))

/-- What checking one condition finds. -/
def found (s : Settings) (c : Condition) : List Violation := if c.Holds s then [] else [c.complaint s]

end Condition

/-! ### Validation -/

variable (s : Settings)

/-- A condition with one complaint. -/
theorem when_eq {condition : Bool} {c : Condition} (h : condition = true ↔ ¬ c.Holds s) :
    Violation.when condition (c.complaint s) = c.found s := by
  rw [Violation.when, Condition.found]
  by_cases hc : c.Holds s
  · rw [if_pos hc, if_neg fun hcond => h.mp hcond hc]
  · rw [if_neg hc, if_pos (h.mpr hc)]

/-- A condition with two complaints, one of which is about settings that were left empty. -/
theorem empty_when_eq {P : Prop} [Decidable P] {condition : Bool} {c : Condition} {v w : Violation}
    (hcomplaint : c.complaint s = if P then v else w) (hempty : P → ¬ c.Holds s)
    (hother : ¬ P → (condition = true ↔ ¬ c.Holds s)) :
    (if P then [v] else Violation.when condition w) = c.found s := by
  rw [Condition.found]
  by_cases hP : P
  · rw [if_pos hP, if_neg (hempty hP), hcomplaint, if_pos hP]
  · have hw : c.complaint s = w := hcomplaint.trans (if_neg hP)
    rw [if_neg hP, ← hw]
    exact when_eq s (hother hP)

theorem validate_server : s.server.validate =
    Condition.bindAddress.found s ++ Condition.firstClientId.found s
      ++ Condition.serverThreadName.found s := by
  have haddress : (if s.server.bindAddress.isEmpty then [.bindAddressEmpty]
      else Violation.when (Address.parse? s.server.bindAddress).isNone
        (.bindAddressInvalid s.server.bindAddress)) = Condition.bindAddress.found s := by
    simp only [String.isEmpty_iff]
    refine empty_when_eq s rfl (fun hempty => ?_) fun _ => ?_
    · rw [Condition.Holds, ← Condition.isSome_parse?_iff, hempty]
      decide
    · rw [Condition.Holds, ← Condition.isSome_parse?_iff]
      cases Address.parse? s.server.bindAddress <;> simp
  have hid : Violation.when (s.server.firstClientId == 0) .firstClientIdZero =
      Condition.firstClientId.found s := when_eq s (c := .firstClientId) (by simp [Condition.Holds])
  have hname : Violation.when s.server.threadName.isEmpty .serverThreadNameEmpty =
      Condition.serverThreadName.found s := when_eq s (c := .serverThreadName) (by simp [Condition.Holds])
  rw [ServerSettings.validate, haddress, hid, hname]

theorem validate_client : s.client.validate = Condition.clientThreadName.found s :=
  when_eq s (c := .clientThreadName) (by simp [Condition.Holds])

theorem validate_transport : s.transport.validate = Condition.maxBodySize.found s := by
  have hpos : s.transport.maxBodySize = 0 ↔ s.transport.maxBodySize.toNat = 0 := by
    rw [← UInt64.toNat_inj, UInt64.toNat_zero]
  refine empty_when_eq s rfl (fun hzero => ?_) fun hzero => ?_
  · rw [hpos] at hzero
    rw [Condition.Holds]
    omega
  · rw [hpos] at hzero
    rw [Condition.Holds, decide_eq_true_iff, UInt32.size]
    omega

theorem validate_logging : s.logging.validate = Condition.appName.found s := by
  have hpos : s.logging.appName = "" ↔ s.logging.appName.utf8ByteSize = 0 :=
    String.utf8ByteSize_eq_zero_iff.symm
  rw [LoggingSettings.validate]
  simp only [String.isEmpty_iff]
  refine empty_when_eq s rfl (fun hempty => ?_) fun hempty => ?_
  · rw [hpos] at hempty
    rw [Condition.Holds]
    omega
  · rw [hpos] at hempty
    rw [Condition.Holds, decide_eq_true_iff]
    omega

/-- What is wrong with settings is one complaint for each condition that is not met. -/
theorem validate_eq :
    s.validate = (Condition.all.filter fun c => ¬ c.Holds s).map (Condition.complaint s) := by
  have hall : ∀ cs : List Condition,
      (cs.filter fun c => ¬ c.Holds s).map (Condition.complaint s) = cs.flatMap (Condition.found s) := by
    intro cs
    induction cs with
    | nil => rfl
    | cons c cs ih =>
      rw [List.flatMap_cons, ← ih, Condition.found]
      by_cases hc : c.Holds s <;> simp [hc]
  rw [hall, validate, validate_server, validate_client, validate_transport, validate_logging]
  simp [Condition.all]

/-- Each complaint is said in the text of its condition. -/
theorem messages_eq : s.validate.map Violation.message =
    (Condition.all.filter fun c => ¬ c.Holds s).map (Condition.text s) := by
  rw [validate_eq, List.map_map]
  exact List.map_congr_left fun c _ => c.message_complaint s

example :
    let s : Settings := {
      server := { bindAddress := "01.2.3.4", firstClientId := 0 }
      logging := { appName := "" } }
    s.validate = [.bindAddressInvalid "01.2.3.4", .firstClientIdZero, .appNameEmpty] := by decide +kernel

/-! ### Strict validation -/

/-- Texts stand in a text one after the other. -/
def InOrder : List String → String → Prop
  | [], _ => True
  | e :: es, text => ∃ before after, text = before ++ e ++ after ∧ InOrder es after

theorem InOrder.append_left {es : List String} {text : String} (h : InOrder es text) (before : String) :
    InOrder es (before ++ text) := by
  cases es with
  | nil => trivial
  | cons e es =>
    obtain ⟨before', after, rfl, hes⟩ := h
    exact ⟨before ++ before', after, by simp only [String.append_assoc], hes⟩

theorem inOrder_intercalate (before sep : String) (es : List String) :
    InOrder es (before ++ sep.intercalate es) := by
  induction es generalizing before with
  | nil => trivial
  | cons e es ih =>
    match es, ih with
    | [], _ =>
      refine ⟨before, "", ?_, trivial⟩
      rw [String.intercalate_singleton, String.append_empty]
    | e' :: es, ih =>
      refine ⟨before, sep ++ sep.intercalate (e' :: es), ?_, ih sep⟩
      simp only [String.intercalate_cons_cons, String.append_assoc]

/-- Strict validation accepts settings with which nothing is wrong, and says everything that is wrong
with others. -/
theorem check_spec : (s.check = .ok () ↔ s.validate = []) ∧
    ∀ p, s.check = .error p → InOrder (s.validate.map Violation.message) p.fault.message := by
  rw [check]
  constructor
  · split_ifs with h <;> simp [h]
  · intro p hp
    split_ifs at hp with h
    cases hp
    exact (inOrder_intercalate _ _ _).append_left _

/-! ### Servers with valid settings -/

/-- A server serves as its settings say. -/
structure Serves {κ : Type} (server : Server κ) (es : List (Event κ)) : Prop where
  /-- The text of the address spells one, and that is the one listened on, unless the machine refuses
  it. -/
  starts : ∃ address, Address.Spells s.server.bindAddress.toList address ∧
    ∀ host portNumber,
      (∀ e, server.start host portNumber = .error e →
        server.attended = true ∧ e = .setup Fault.alreadyRunning ∨
        ∃ reason, host.bindFailure? address = some reason ∧
          e = .setup ("Failed to bind " ++ address.text ++ ":" ++ toString portNumber.toNat
            ++ ": " ++ reason)) ∧
      (server.attended = false → host.bindFailure? address = none → ∃ server',
        server.start host portNumber = .ok server' ∧ server'.attended = true ∧
          server'.localAddress = some address)
  /-- No connection was given the id zero, nor is one registered under it: before that, all numbers of
  64 bits would have to be used. -/
  ids : ∀ n, (0, n) ∈ registrations es ∨ (0, n) ∈ server.registry.entries →
    2 ^ 64 ≤ s.server.firstClientId.toNat + n
  /-- The lengths of the bodies its connections send and take fit the field for the length. -/
  limits : ∀ c ∈ server.connections, c.limit = s.transport.maxBodySize.toNat ∧ c.limit < 2 ^ 32

variable {s} {κ : Type} [Kind κ]

theorem holds_of_validate_eq_nil (h : s.validate = []) (c : Condition) : c.Holds s := by
  rw [validate_eq, List.map_eq_nil_iff, List.filter_eq_nil_iff] at h
  have hmem : c ∈ Condition.all := by cases c <;> decide
  simpa using h c hmem

theorem serves_run (h : s.validate = []) {entropy : Source} {as : List (Action κ)} {server : Server κ}
    {es : List (Event κ)}
    (hrun : (Server.create s.server s.transport entropy).run as = some (server, es)) :
    Serves s server es where
  starts := by
    obtain ⟨address, haddress⟩ := holds_of_validate_eq_nil h .bindAddress
    have hsettings : server.settings = s.server := congrArg Prod.fst (Server.fixed_run hrun)
    refine ⟨address, haddress, fun host portNumber => ?_⟩
    obtain ⟨hfails, hworks⟩ := Server.start_of_spells (hsettings ▸ haddress) host portNumber
    exact ⟨hfails, fun hattended hbind => ⟨_, hworks hattended hbind, rfl, rfl⟩⟩
  ids n hn := by
    have hfirst : s.server.firstClientId.toNat ≠ 0 := by
      have hne := holds_of_validate_eq_nil h .firstClientId
      rwa [Condition.Holds, ne_eq, ← UInt32.toNat_inj] at hne
    have hgiven : (0, n) ∈ registrations es := hn.elim id (Server.registered_of_entry hrun)
    exact (Server.numbering_run hrun).le_of_zero hfirst hgiven
  limits c hc := by
    have hlimit := Server.limit_eq_of_mem hrun hc
    have hsize : s.transport.maxBodySize.toNat ≤ 2 ^ 32 - 1 :=
      (holds_of_validate_eq_nil h .maxBodySize).2
    exact ⟨hlimit, by omega⟩

/-- **Validation is exact, and valid settings serve.**  What is wrong with settings is one complaint for
each condition they do not meet, section by section, each with its own text; strict validation accepts
those with which nothing is wrong and says everything in order of others; and every server that is made
with settings with which nothing is wrong serves as they say, whatever was done to it. -/
theorem validate_exact (s : Settings) :
    s.validate = (Condition.all.filter fun c => ¬ c.Holds s).map (Condition.complaint s) ∧
    s.validate.map Violation.message =
      (Condition.all.filter fun c => ¬ c.Holds s).map (Condition.text s) ∧
    (s.check = .ok () ↔ s.validate = []) ∧
    (∀ p, s.check = .error p → InOrder (s.validate.map Violation.message) p.fault.message) ∧
    (s.validate = [] → ∀ entropy (as : List (Action κ)) server es,
      (Server.create s.server s.transport entropy).run as = some (server, es) → Serves s server es) :=
  ⟨validate_eq s, messages_eq s, (check_spec s).1, (check_spec s).2,
    fun h _ _ _ _ hrun => serves_run h hrun⟩

/-- A server on the loopback address takes a connection, is stopped and started again. -/
theorem validate_exact_loopback :
    let s : Settings := { server := { bindAddress := "0:0::0.0.0.1" } }
    let as : List (Action GameTag) := [.start .loopback 0, .accept [] true, .stop, .start .loopback 0]
    s.validate = [] ∧ ∃ server es, (Server.create s.server s.transport fun _ => 0).run as =
      some (server, es) ∧ registrations es = [(10000, 0)] ∧ Serves s server es := by
  intro s as
  have hvalid : s.validate = [] := by decide +kernel
  have hany : ((Server.create s.server s.transport fun _ => 0).run as).any
      (fun o => registrations o.2 == [(10000, 0)]) = true := by decide +kernel
  obtain ⟨⟨server, es⟩, hrun, hregs⟩ := (Option.any_eq_true _ _).mp hany
  exact ⟨hvalid, server, es, hrun, beq_iff_eq.mp hregs,
    (validate_exact s).2.2.2.2 hvalid _ as server es hrun⟩

end Parley.Settings
