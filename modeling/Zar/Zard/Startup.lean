import Zar.Lib.System
import Zar.Logging.Logger
import Zar.Zard.Options
/-!
# The start of the server

`tconfiguration` and `main`: the options name a file, the file and the machine give the
configuration, and the lobby serves with it. The file system, the translators of the property
tree and the machine are an argument.
-/

namespace Zar

/-- What `read_ini` found at the top of a file: the keys with their data. A section has none. -/
abbrev Ini := List (Bytes × Bytes)

/-- An `ini_parser_error`. The line is 0 where the file cannot be opened. -/
structure IniError where
  filename : Bytes
  line : Nat
  message : Bytes
  deriving DecidableEq, Repr

structure Environment where
  readIni : Bytes → Except IniError Ini
  toUnsigned : Bytes → Option UInt32
  toUnsignedShort : Bytes → Option UInt16
  hardwareConcurrency : UInt32
  /-- Whether the acceptor gets the port. -/
  bind : UInt16 → Bool

/-- `ini.get(path, default_value)`. -/
def Ini.get {α : Type} (ini : Ini) (path : Bytes) (defaultValue : α) (translate : Bytes → Option α) : α :=
  ((ini.lookup path).bind translate).getD defaultValue

/-- `ini.get` of the level, with a convertor that throws. -/
def Ini.logLevel (ini : Ini) : Level × Option Thrown :=
  match ini.lookup (text "log_level/global") with
  | none => (.trace, none)
  | some value => Level.enumList.readString value .trace

structure Configuration where
  threads : UInt32 := 0
  port : UInt16 := 2048
  reapInterval : UInt32 := 30
  deriving DecidableEq, Repr

namespace Configuration

def validate (c : Configuration) (env : Environment) : Configuration × Option Thrown :=
  let c :=
    if c.threads = 0 then { c with threads := if env.hardwareConcurrency = 0 then 1 else env.hardwareConcurrency } else c
  if c.port = 0 then (c, some (.texception .invalid_value (text "Port »0« is not a valid port number")))
  else if c.reapInterval = 0 then ({ c with reapInterval := 1 }, none)
  else (c, none)

/-- The statics of `toptions`, of `create` and of `configuration`. -/
structure Statics where
  options : Options.Singleton := {}
  result : Configuration := {}
  /-- Whether the reference of `configuration` is there. -/
  created : Bool := false
  /-- The last `set_threshold_level`. -/
  threshold : Option Level := none
  deriving DecidableEq, Repr

def getConfigurationFilename (options : Options) : Bytes :=
  if options.configurationFile.isEmpty then text "/etc/zardrc" else options.configurationFile

/-- What `create` takes from a file. -/
def readValues (s : Statics) (env : Environment) (ini : Ini) : Statics × Option Thrown :=
  let result : Configuration := {
    threads := ini.get (text "threads") s.result.threads env.toUnsigned
    port := ini.get (text "port") s.result.port env.toUnsignedShort
    reapInterval := ini.get (text "reap_interval") s.result.reapInterval env.toUnsigned }
  match ini.logLevel with
  | (_, some t) => ({ s with result := result }, some t)
  | (level, none) => ({ s with result := result, threshold := some level }, none)

def iniFailure (e : IniError) : Thrown :=
  .texception .invalid_value (text "Ini parser error: file »" ++ e.filename ++ text ":" ++ text (toString e.line) ++
    text "« message »" ++ e.message ++ text "«")

/-- The `try` block of `create`. -/
def readFile (s : Statics) (env : Environment) (filename : Bytes) : Statics × Option Thrown :=
  match env.readIni filename with
  | .ok ini => readValues s env ini
  | .error e => (s, if e.line = 0 then none else some (iniFailure e))

def create (s : Statics) (env : Environment) : Statics × Option Thrown :=
  match s.options.get true with
  | .error t => (s, some t)
  | .ok options =>
    match readFile { s with options := options } env (getConfigurationFilename options.result) with
    | (s, some t) => (s, some t)
    | (s, none) => ({ s with result := (s.result.validate env).1 }, (s.result.validate env).2)

/-- `configuration`. A `create` that throws is tried again at the next call, with the values as they are. -/
def configuration (s : Statics) (env : Environment) : Statics × Except Thrown Configuration :=
  if s.created then (s, .ok s.result)
  else
    match create s env with
    | (s, some t) => (s, .error t)
    | (s, none) => ({ s with created := true }, .ok s.result)

end Configuration

/-- What became of the server. -/
inductive Ended where
  | exited (status : Int)
  /-- The lobby runs, with this configuration. -/
  | serving (configuration : Configuration)
  deriving DecidableEq, Repr

def main (env : Environment) (argv : List Bytes) : Ended :=
  match Options.parse {} argv with
  | (_, _, some (.texit status)) => .exited status
  | (_, _, some (.thrown _)) => .exited EXIT_FAILURE
  | (options, _, none) =>
    match Configuration.configuration { options := options } env with
    | (_, .error _) => .exited EXIT_FAILURE
    | (_, .ok configuration) => if env.bind configuration.port then .serving configuration else .exited EXIT_FAILURE

namespace Configuration
variable {c : Configuration} {s : Statics} {env : Environment}

/-! ## The values -/

/-- What `validate` promises. -/
structure Valid (c : Configuration) : Prop where
  threads : c.threads ≠ 0
  port : c.port ≠ 0
  reapInterval : c.reapInterval ≠ 0

/-- The first of the three that is not 0. -/
def threadsOf (threads hardware : UInt32) : UInt32 := if threads ≠ 0 then threads else if hardware ≠ 0 then hardware else 1

theorem validate_port (c : Configuration) (env : Environment) : (c.validate env).2 = none ↔ c.port ≠ 0 := by
  unfold validate
  split <;> (dsimp only; split) <;> simp_all <;> split <;> rfl

theorem validate_values (h : c.port ≠ 0) (env : Environment) :
    (c.validate env).1 = ⟨threadsOf c.threads env.hardwareConcurrency, c.port, if c.reapInterval = 0 then 1 else c.reapInterval⟩ := by
  obtain ⟨threads, port, reapInterval⟩ := c
  unfold validate threadsOf
  dsimp only at h ⊢
  by_cases ht : threads = 0 <;> by_cases hr : reapInterval = 0 <;> by_cases hh : env.hardwareConcurrency = 0 <;>
    simp [ht, hr, hh, h]

theorem validate_valid (h : (c.validate env).2 = none) : Valid (c.validate env).1 := by
  have hport := (validate_port c env).1 h
  rw [validate_values hport]
  refine ⟨?_, hport, ?_⟩
  · unfold threadsOf
    dsimp only
    split
    · assumption
    · split
      · assumption
      · decide
  · dsimp only
    split
    · decide
    · assumption

/-- What is read of a file. One that cannot be opened counts as an empty one. -/
def Reads (env : Environment) (filename : Bytes) (ini : Ini) : Prop :=
  env.readIni filename = .ok ini ∨ ∃ e, env.readIni filename = .error e ∧ e.line = 0 ∧ ini = []

/-- The values of a file in place of those that are there. -/
def valuesOf (c : Configuration) (env : Environment) (ini : Ini) : Configuration where
  threads := ini.get (text "threads") c.threads env.toUnsigned
  port := ini.get (text "port") c.port env.toUnsignedShort
  reapInterval := ini.get (text "reap_interval") c.reapInterval env.toUnsigned

/-- The level of a file has one of the names, if it is there. -/
def LevelKnown (ini : Ini) : Prop := ∀ value ∈ ini.lookup (text "log_level/global"), value ∈ Level.enumList.strings

theorem logLevel_known (ini : Ini) : ini.logLevel.2 = none ↔ LevelKnown ini := by
  unfold Ini.logLevel LevelKnown
  cases h : ini.lookup (text "log_level/global") with
  | none => simp
  | some value =>
    have hthrows : (Level.enumList.readString value .trace).2.isSome ↔ value ∉ Level.enumList.strings :=
      EnumList.readString_throws_iff _
    simp only [Option.mem_some_iff, forall_eq']
    rw [← not_iff_not, ← hthrows, Option.isSome_iff_ne_none]

theorem valuesOf_nil (c : Configuration) (env : Environment) : valuesOf c env [] = c := rfl

/-- The outcome of reading a file, as one case. -/
theorem reads_cases (env : Environment) (filename : Bytes) :
    (∃ ini, Reads env filename ini ∧ ∀ ini', Reads env filename ini' → ini' = ini) ∨
      (∀ ini, ¬ Reads env filename ini) ∧ ∃ e, env.readIni filename = .error e ∧ e.line ≠ 0 := by
  unfold Reads
  cases hr : env.readIni filename with
  | ok ini =>
    left
    refine ⟨ini, .inl rfl, ?_⟩
    rintro ini' (h | ⟨e, h, -⟩)
    · exact (Except.ok.inj h).symm
    · cases h
  | error e =>
    by_cases hline : e.line = 0
    · left
      refine ⟨[], .inr ⟨e, rfl, hline, rfl⟩, ?_⟩
      rintro ini' (h | ⟨e', -, -, rfl⟩)
      · cases h
      · rfl
    · right
      refine ⟨?_, e, rfl, hline⟩
      rintro ini (h | ⟨e', h, hline', -⟩)
      · cases h
      · obtain rfl := Except.error.inj h
        exact hline hline'

theorem create_of_reads (h : s.options.initialized = true) {ini : Ini}
    (hr : Reads env (getConfigurationFilename s.options.result) ini) :
    ((create s env).2 = none ↔ LevelKnown ini ∧ (valuesOf s.result env ini).port ≠ 0) ∧
      ((create s env).2 = none → (create s env).1.result = ((valuesOf s.result env ini).validate env).1) := by
  obtain ⟨options, result, created, threshold⟩ := s
  obtain ⟨initialized, options⟩ := options
  obtain rfl : initialized = true := h
  unfold create readFile Options.Singleton.get
  simp only [if_true]
  rcases hr with hr | ⟨e, hr, hline, rfl⟩
  · have hlevel := logLevel_known ini
    dsimp only at hr
    rw [hr]
    unfold readValues
    rw [← validate_port _ env, ← hlevel]
    cases hl : ini.logLevel with
    | mk level thrown =>
      cases thrown with
      | some t => simp [hl]
      | none => simp [hl, valuesOf]
  · dsimp only at hr
    rw [hr, valuesOf_nil, ← validate_port _ env]
    simp [hline, LevelKnown]

theorem create_of_not_reads (h : s.options.initialized = true)
    (hr : ∀ ini, ¬ Reads env (getConfigurationFilename s.options.result) ini) : (create s env).2 ≠ none := by
  obtain ⟨options, result, created, threshold⟩ := s
  obtain ⟨initialized, options⟩ := options
  obtain rfl : initialized = true := h
  unfold create readFile Options.Singleton.get
  simp only [if_true]
  rcases reads_cases env (getConfigurationFilename options) with ⟨ini, hini, -⟩ | ⟨-, e, he, hline⟩
  · exact absurd hini (hr ini)
  · rw [he]
    simp [hline]

/-- `create` succeeds with the values of what it reads, made valid. -/
theorem create_iff (h : s.options.initialized = true) (c : Configuration) :
    ((create s env).2 = none ∧ (create s env).1.result = c) ↔
      ∃ ini, Reads env (getConfigurationFilename s.options.result) ini ∧ LevelKnown ini ∧
        (valuesOf s.result env ini).port ≠ 0 ∧ c = ((valuesOf s.result env ini).validate env).1 := by
  constructor
  · rintro ⟨hnone, rfl⟩
    rcases reads_cases env (getConfigurationFilename s.options.result) with ⟨ini, hini, -⟩ | ⟨hno, -⟩
    · obtain ⟨hiff, hvalue⟩ := create_of_reads h hini
      exact ⟨ini, hini, (hiff.1 hnone).1, (hiff.1 hnone).2, hvalue hnone⟩
    · exact absurd hnone (create_of_not_reads h hno)
  · rintro ⟨ini, hini, hlevel, hport, rfl⟩
    obtain ⟨hiff, hvalue⟩ := create_of_reads h hini
    have hnone := hiff.2 ⟨hlevel, hport⟩
    exact ⟨hnone, hvalue hnone⟩

/-! ## The end of `main` -/

open Options

/-- The file that the command line names. -/
def file (argv : List Bytes) : Bytes := getConfigurationFilename (requested argv.tail)

/-- The configuration of a file, with the next value that will do for each one that will not. -/
def configurationOf (env : Environment) (ini : Ini) : Configuration where
  threads := threadsOf (ini.get (text "threads") 0 env.toUnsigned) env.hardwareConcurrency
  port := ini.get (text "port") 2048 env.toUnsignedShort
  reapInterval := if ini.get (text "reap_interval") 30 env.toUnsigned = 0 then 1 else ini.get (text "reap_interval") 30 env.toUnsigned

/-- The first `create` of the program. -/
theorem create_first (env : Environment) (argv : List Bytes) (c : Configuration) :
    ((create { options := ⟨true, requested argv.tail⟩ } env).2 = none ∧
      (create { options := ⟨true, requested argv.tail⟩ } env).1.result = c) ↔
      ∃ ini, Reads env (file argv) ini ∧ LevelKnown ini ∧ c = configurationOf env ini ∧ c.port ≠ 0 := by
  rw [create_iff rfl]
  apply exists_congr
  intro ini
  refine and_congr_right fun _ => and_congr_right fun _ => ?_
  constructor
  · rintro ⟨hport, rfl⟩
    rw [validate_values hport]
    exact ⟨rfl, hport⟩
  · rintro ⟨rfl, hport⟩
    have hport' : (valuesOf {} env ini).port ≠ 0 := hport
    exact ⟨hport', (validate_values hport' env).symm⟩

/-- The arguments are those of a server: `main` goes on to the configuration. -/
theorem main_of_options (env : Environment) {argv : List Bytes} (hrec : Recognised argv.tail) (hhelp : argv.tail.any isHelp = false) :
    (∀ c, main env argv = .serving c ↔
      ∃ ini, Reads env (file argv) ini ∧ LevelKnown ini ∧ c = configurationOf env ini ∧ c.port ≠ 0 ∧ env.bind c.port = true) ∧
    ((∃ c, main env argv = .serving c) ∨ main env argv = .exited EXIT_FAILURE) := by
  have hfirst := create_first env argv
  unfold main
  rw [(parse_eq argv).1 hrec hhelp]
  unfold configuration
  simp only [Bool.false_eq_true, if_false]
  cases hc : create { options := ⟨true, requested argv.tail⟩ } env with
  | mk s thrown =>
    rw [hc] at hfirst
    cases thrown with
    | some t =>
      refine ⟨fun c => ⟨nofun, ?_⟩, .inr rfl⟩
      rintro ⟨ini, hreads, hlevel, hvalue, hport, -⟩
      exact absurd ((hfirst c).2 ⟨ini, hreads, hlevel, hvalue, hport⟩).1 nofun
    | none =>
      obtain ⟨ini, hreads, hlevel, hvalue, hport⟩ := (hfirst s.result).1 ⟨rfl, rfl⟩
      dsimp only
      by_cases hbind : env.bind s.result.port = true
      · rw [if_pos hbind]
        refine ⟨fun c => ⟨?_, ?_⟩, .inl ⟨_, rfl⟩⟩
        · intro h
          obtain rfl := Ended.serving.inj h
          exact ⟨ini, hreads, hlevel, hvalue, hport, hbind⟩
        · rintro ⟨ini', hreads', hlevel', hvalue', hport', -⟩
          rw [((hfirst c).2 ⟨ini', hreads', hlevel', hvalue', hport'⟩).2]
      · rw [if_neg hbind]
        refine ⟨fun c => ⟨nofun, ?_⟩, .inr rfl⟩
        rintro ⟨ini', hreads', hlevel', hvalue', hport', hbind'⟩
        rw [← ((hfirst c).2 ⟨ini', hreads', hlevel', hvalue', hport'⟩).2] at hbind'
        exact absurd hbind' hbind

/-- The statics, and what the calls of `configuration` returned. -/
structure Calls where
  statics : Statics
  returned : List Configuration := []

/-- A call, with the files as they are then. -/
def Calls.step (s : Calls) (env : Environment) : Option Calls :=
  match configuration s.statics env with
  | (statics, .error _) => some { s with statics := statics }
  | (statics, .ok c) => some { statics := statics, returned := s.returned ++ [c] }

def calls (statics : Statics) : System Calls Environment := ⟨{ statics := statics }, Calls.step⟩

/-- What was returned is there, and valid. -/
def Settled (s : Calls) : Prop :=
  (∀ c ∈ s.returned, c = s.statics.result ∧ s.statics.created = true) ∧ (s.statics.created = true → s.statics.result.Valid)

theorem create_valid (h : (create s env).2 = none) : (create s env).1.result.Valid := by
  unfold create at h ⊢
  cases hget : s.options.get true with
  | error t =>
    rw [hget] at h
    cases h
  | ok options =>
    rw [hget] at h
    dsimp only at h ⊢
    cases hread : readFile { s with options := options } env (getConfigurationFilename options.result) with
    | mk s' thrown =>
      rw [hread] at h
      cases thrown with
      | some t => cases h
      | none => exact validate_valid h

theorem readFile_created (s : Statics) (env : Environment) (filename : Bytes) :
    (readFile s env filename).1.created = s.created := by
  unfold readFile readValues
  cases env.readIni filename with
  | error e => rfl
  | ok ini =>
    dsimp only
    split <;> rfl

theorem create_created (s : Statics) (env : Environment) : (create s env).1.created = s.created := by
  unfold create
  cases s.options.get true with
  | error t => rfl
  | ok options =>
    have hread := readFile_created { s with options := options } env (getConfigurationFilename options.result)
    dsimp only at hread ⊢
    cases hr : readFile { s with options := options } env (getConfigurationFilename options.result) with
    | mk s' thrown =>
      rw [hr] at hread
      cases thrown <;> exact hread

theorem Settled.step {s s' : Calls} (h : Settled s) (hs : s.step env = some s') : Settled s' := by
  obtain ⟨hreturned, hvalid⟩ := h
  unfold Calls.step configuration at hs
  cases hc : s.statics.created with
  | true =>
    rw [hc, if_pos rfl] at hs
    obtain rfl := Option.some.inj hs
    refine ⟨fun c hmem => ?_, hvalid⟩
    rcases List.mem_append.1 hmem with hmem | hmem
    · exact hreturned c hmem
    · exact ⟨List.mem_singleton.1 hmem, hc⟩
  | false =>
    -- Nothing was returned so far.
    have hnil : s.returned = [] := by
      apply List.eq_nil_iff_forall_not_mem.2
      intro c hmem
      rw [(hreturned c hmem).2] at hc
      cases hc
    have hcreated := create_created s.statics env
    have hnew : (create s.statics env).2 = none → (create s.statics env).1.result.Valid := create_valid
    rw [hc, if_neg (by decide)] at hs
    cases hcreate : create s.statics env with
    | mk statics thrown =>
      rw [hcreate] at hs hcreated hnew
      cases thrown with
      | some t =>
        obtain rfl := Option.some.inj hs
        refine ⟨fun c hmem => ?_, fun htrue => ?_⟩
        · rw [hnil] at hmem
          cases hmem
        · rw [show statics.created = true from htrue, hc] at hcreated
          cases hcreated
      | none =>
        obtain rfl := Option.some.inj hs
        refine ⟨fun c hmem => ?_, fun _ => hnew rfl⟩
        rw [hnil] at hmem
        exact ⟨List.mem_singleton.1 hmem, rfl⟩

/-- However often `configuration` is called and whatever the files hold then, every call that returns
returns the same valid values. A call that throws may change the values, but never behind one that returned. -/
theorem configuration_settled {statics : Statics} {envs : List Environment} {s : Calls} (hfresh : statics.created = false)
    (h : (calls statics).Run envs s) : ∀ c ∈ s.returned, c = s.statics.result ∧ c.Valid := by
  have hsettled : Settled s := by
    refine System.RunIf.inv Settled h ⟨nofun, ?_⟩ fun s e s' hi _ hs => hi.step hs
    intro hcreated
    rw [show statics.created = true from hcreated] at hfresh
    cases hfresh
  intro c hmem
  obtain ⟨rfl, hcreated⟩ := hsettled.1 c hmem
  exact ⟨rfl, hsettled.2 hcreated⟩

/-- The first file has a port that will not do. Its number of threads stays. -/
theorem configuration_settled_retried : ∃ envs s, (calls { options := ⟨true, {}⟩ }).Run envs s ∧
    s.returned = [⟨4, 80, 30⟩] ∧ ∀ c ∈ s.returned, c = s.statics.result ∧ c.Valid := by
  let env (ini : Ini) : Environment := {
    readIni := fun _ => .ok ini
    toUnsigned := fun value => if value = text "4" then some 4 else none
    toUnsignedShort := fun value => if value = text "0" then some 0 else if value = text "80" then some 80 else none
    hardwareConcurrency := 2
    bind := fun _ => true }
  obtain ⟨s, hrun, hreturned⟩ := System.Run.exists_of_exec (calls { options := ⟨true, {}⟩ })
    [env [(text "threads", text "4"), (text "port", text "0")], env [(text "port", text "80")]]
    (fun s => s.returned = [⟨4, 80, 30⟩]) (by decide +kernel)
  exact ⟨_, s, hrun, hreturned, configuration_settled rfl hrun⟩

end Configuration
end Zar
