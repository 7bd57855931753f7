import Zar.Exception
/-!
# The command line of the server

`toptions`: the first argument that is no option is the configuration file, a second one is
not recognised.
-/

namespace Zar

/-- What ends a function early: an exception, or `lib::texit`. -/
inductive Stop where
  | thrown (t : Thrown)
  | texit (status : Int)
  deriving DecidableEq, Repr

def EXIT_SUCCESS : Int := 0

def EXIT_FAILURE : Int := 1

structure Options where
  foreground : Bool := false
  configurationFile : Bytes := []
  deriving DecidableEq, Repr

namespace Options

/-- The statics of `singleton`. -/
structure Singleton where
  initialized : Bool := false
  result : Options := {}
  deriving DecidableEq, Repr

def Singleton.get (s : Singleton) (isInitialized : Bool) : Except Thrown Singleton :=
  if s.initialized = isInitialized then .ok { s with initialized := true }
  else .error (.texception .internal_failure (text "Conditional failure 'initialized == is_initialized'"))

/-- What `print_help` writes to the standard output. -/
def printHelp : Bytes := text "Usage zard [OPTION...] [FILE]
Starts the zard server programme.

The FILE is the name of the configuration file.

Miscellaneous:
-f, --foreground  Run the programme in the foreground. If this option is
                  not supplied the programme will run as daemon.
-h, --help        Prints this help message and exists.
"

def isHelp (option : Bytes) : Bool := option = text "-h" ∨ option = text "--help"

def isForeground (option : Bytes) : Bool := option = text "-f" ∨ option = text "--foreground"

/-- The loop of `parse`: the options and `help` behind it, or none at an argument that is not
recognised. -/
def parseLoop (result : Options) (help : Bool) : List Bytes → Options × Option Bool
  | [] => (result, some help)
  | option :: options =>
    if isHelp option then parseLoop result true options
    else if isForeground option then parseLoop { result with foreground := true } help options
    else if result.configurationFile.isEmpty then parseLoop { result with configurationFile := option } help options
    else (result, none)

/-- `parse`: the statics behind it, what it wrote to the standard output, and how it ended. -/
def parse (s : Singleton) (argv : List Bytes) : Singleton × Bytes × Option Stop :=
  match s.get false with
  | .error t => (s, [], some (.thrown t))
  | .ok s =>
    match parseLoop s.result false argv.tail with
    | (result, none) => ({ s with result := result }, printHelp, some (.texit EXIT_FAILURE))
    | (result, some true) => ({ s with result := result }, printHelp, some (.texit EXIT_SUCCESS))
    | (result, some false) => ({ s with result := result }, [], none)

/-! ## The arguments as a whole -/

/-- The arguments that are no options. -/
def files (options : List Bytes) : List Bytes := options.filter fun option => !isHelp option && !isForeground option

/-- Empty arguments in front leave the file empty, so they do not count. -/
def named (options : List Bytes) : List Bytes := (files options).dropWhile (·.isEmpty)

/-- One file at most. -/
def Recognised (options : List Bytes) : Prop := (named options).length ≤ 1

instance (options : List Bytes) : Decidable (Recognised options) := inferInstanceAs (Decidable (_ ≤ _))

/-- The options that are asked for. -/
def requested (options : List Bytes) : Options := ⟨options.any isForeground, (named options).headD []⟩

theorem isForeground_of_isHelp {option : Bytes} (h : isHelp option = true) : isForeground option = false := by
  unfold isHelp at h
  rcases of_decide_eq_true h with rfl | rfl <;> decide

/-- A file that was found stays, and there may be no other. -/
theorem parseLoop_named {result : Options} (h : result.configurationFile ≠ []) (help : Bool) (options : List Bytes) :
    (files options = [] →
      parseLoop result help options = (⟨result.foreground || options.any isForeground, result.configurationFile⟩,
        some (help || options.any isHelp))) ∧
    (files options ≠ [] → (parseLoop result help options).2 = none) := by
  induction options generalizing result help with
  | nil => exact ⟨fun _ => by simp [parseLoop], fun hne => absurd rfl hne⟩
  | cons option options ih =>
    by_cases hhelp : isHelp option = true
    · have hfore := isForeground_of_isHelp hhelp
      have hfiles : files (option :: options) = files options := by simp [files, hhelp]
      rw [hfiles, parseLoop, if_pos hhelp]
      obtain ⟨hnil, hcons⟩ := ih h true
      refine ⟨fun hn => ?_, hcons⟩
      rw [hnil hn]
      simp [hhelp, hfore]
    · by_cases hfore : isForeground option = true
      · have hfiles : files (option :: options) = files options := by simp [files, hfore]
        rw [hfiles, parseLoop, if_neg hhelp, if_pos hfore]
        obtain ⟨hnil, hcons⟩ := @ih { result with foreground := true } h help
        refine ⟨fun hn => ?_, hcons⟩
        rw [hnil hn]
        simp [hhelp, hfore]
      · have hfiles : files (option :: options) = option :: files options := by simp [files, hhelp, hfore]
        rw [hfiles, parseLoop, if_neg hhelp, if_neg hfore, if_neg (by simpa using h)]
        exact ⟨nofun, fun _ => rfl⟩

/-- What the loop finds, from the start. -/
theorem parseLoop_eq (foreground help : Bool) (options : List Bytes) :
    (Recognised options →
      parseLoop ⟨foreground, []⟩ help options =
        (⟨foreground || options.any isForeground, (named options).headD []⟩, some (help || options.any isHelp))) ∧
    (¬ Recognised options → (parseLoop ⟨foreground, []⟩ help options).2 = none) := by
  induction options generalizing foreground help with
  | nil => exact ⟨fun _ => by simp [parseLoop, named, files], fun hne => absurd (by decide) hne⟩
  | cons option options ih =>
    by_cases hhelp : isHelp option = true
    · have hfore := isForeground_of_isHelp hhelp
      have hnamed : named (option :: options) = named options := by simp [named, files, hhelp]
      rw [Recognised, hnamed, parseLoop, if_pos hhelp]
      obtain ⟨hrec, hnot⟩ := ih foreground true
      refine ⟨fun hr => ?_, hnot⟩
      rw [hrec hr]
      simp [hhelp, hfore]
    · by_cases hfore : isForeground option = true
      · have hnamed : named (option :: options) = named options := by simp [named, files, hfore]
        rw [Recognised, hnamed, parseLoop, if_neg hhelp, if_pos hfore]
        obtain ⟨hrec, hnot⟩ := ih true help
        refine ⟨fun hr => ?_, hnot⟩
        rw [hrec hr]
        simp [hhelp, hfore]
      · have hfiles : files (option :: options) = option :: files options := by simp [files, hhelp, hfore]
        rw [parseLoop, if_neg hhelp, if_neg hfore, if_pos (by rfl)]
        by_cases hempty : option = []
        · subst hempty
          have hnamed : named ([] :: options) = named options := by simp [named, hfiles]
          rw [Recognised, hnamed]
          obtain ⟨hrec, hnot⟩ := ih foreground help
          refine ⟨fun hr => ?_, hnot⟩
          rw [hrec hr]
          simp [hhelp, hfore]
        · have hnamed : named (option :: options) = option :: files options := by
            rw [named, hfiles, List.dropWhile_cons_of_neg (by simpa using hempty)]
          obtain ⟨hnil, hcons⟩ := @parseLoop_named ⟨foreground, option⟩ hempty help options
          rw [Recognised, hnamed, List.length_cons]
          constructor
          · intro hr
            rw [hnil (List.length_eq_zero_iff.1 (by omega))]
            simp [hhelp, hfore]
          · intro hr
            refine hcons fun hn => ?_
            rw [hn] at hr
            exact hr (Nat.le_refl 1)

/-- How `parse` ends, at the first call. -/
theorem parse_eq (argv : List Bytes) :
    (Recognised argv.tail → argv.tail.any isHelp = false →
      parse {} argv = (⟨true, requested argv.tail⟩, [], none)) ∧
    (Recognised argv.tail → argv.tail.any isHelp = true →
      parse {} argv = (⟨true, requested argv.tail⟩, printHelp, some (.texit EXIT_SUCCESS))) ∧
    (¬ Recognised argv.tail → ∃ s, parse {} argv = (s, printHelp, some (.texit EXIT_FAILURE))) := by
  obtain ⟨hrec, hnot⟩ := parseLoop_eq false false argv.tail
  unfold parse Singleton.get
  refine ⟨fun hr hhelp => ?_, fun hr hhelp => ?_, fun hr => ?_⟩
  · simp only [if_true, hrec hr, hhelp, Bool.or_false, Bool.false_or]
    rfl
  · simp only [if_true, hrec hr, hhelp, Bool.or_true, Bool.false_or]
    rfl
  · have hnone := hnot hr
    simp only [if_true]
    split
    · exact ⟨_, rfl⟩
    · rename_i heq
      rw [show (parseLoop ({} : Options) false argv.tail) = _ from heq] at hnone
      cases hnone
    · rename_i heq
      rw [show (parseLoop ({} : Options) false argv.tail) = _ from heq] at hnone
      cases hnone

end Options
end Zar
