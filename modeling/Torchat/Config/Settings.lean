import Torchat.Config.Argparse
import Torchat.Config.ConfigFile
import Torchat.Config.Overruns

/-!
Contract: the settings that `settings.c` reads from a config file.

The vector of `parse_config` starts with an option, where `argparse_parse` expects the
name of the program. Owns the table of the options, the fields, and which files have
all of their values in them.

Does not own what the settings are used for.
-/

set_option autoImplicit false

namespace Torchat.Config

open Torchat.Foundation
open Torchat.Daemon (Fault bind_eq_ok)

/-- `struct settings_t`; `sockBufSize` is a `size_t`. -/
structure Settings where
  maxconnections : Int
  maxevents : Int
  epollTimeout : Int
  host : Option CString
  torPort : Int
  daemonPort : Int
  logInfo : Option CString
  logDebug : Option CString
  logError : Option CString
  sockBufSize : Nat
  interface : Option CString
deriving DecidableEq

/-- The static variable `settings`. -/
def Settings.start : Settings where
  maxconnections := 0
  maxevents := 0
  epollTimeout := 0
  host := none
  torPort := 0
  daemonPort := 0
  logInfo := none
  logDebug := none
  logError := none
  sockBufSize := 0
  interface := none

/-- An `int` that is written to the place of a `size_t` replaces its low four bytes. -/
def writeInt (value : Int) (size : Nat) : Nat := size / 2 ^ 32 * 2 ^ 32 + (value % 2 ^ 32).toNat

/-- The options that `settings.c` knows. -/
inductive Setting where
  | maxconnections
  | maxevents
  | epolltimeout
  | host
  | torport
  | daemonport
  | loginfo
  | logdebug
  | logerror
  | sockbufsize
  | interface
deriving DecidableEq

namespace Setting

def name : Setting → CString
  | maxconnections => CString.literal "maxconnections"
  | maxevents => CString.literal "maxevents"
  | epolltimeout => CString.literal "epolltimeout"
  | host => CString.literal "host"
  | torport => CString.literal "torport"
  | daemonport => CString.literal "daemonport"
  | loginfo => CString.literal "loginfo"
  | logdebug => CString.literal "logdebug"
  | logerror => CString.literal "logerror"
  | sockbufsize => CString.literal "sockbufsize"
  | interface => CString.literal "interface"

/-- The type of the option and the field that its `value` points to. -/
def target : Setting → Target Settings
  | maxconnections => .integer fun value settings => { settings with maxconnections := value }
  | maxevents => .integer fun value settings => { settings with maxevents := value }
  | epolltimeout => .long fun value settings => { settings with epollTimeout := value }
  | host => .string fun value settings => { settings with host := some value }
  | torport => .integer fun value settings => { settings with torPort := value }
  | daemonport => .integer fun value settings => { settings with daemonPort := value }
  | loginfo => .string fun value settings => { settings with logInfo := some value }
  | logdebug => .string fun value settings => { settings with logDebug := some value }
  | logerror => .string fun value settings => { settings with logError := some value }
  | sockbufsize => .integer fun value settings =>
      { settings with sockBufSize := writeInt value settings.sockBufSize }
  | interface => .string fun value settings => { settings with interface := some value }

def all : List Setting :=
  [maxconnections, maxevents, epolltimeout, host, torport, daemonport, loginfo, logdebug, logerror,
    sockbufsize, interface]

end Setting

/-- The table `options` of `settings.c`; its options have no short names. -/
def options : List (ArgparseOption Settings) :=
  { shortName := 0, longName := none, target := .group } ::
    Setting.all.map fun setting =>
      { shortName := 0, longName := some setting.name, target := setting.target }

/-- `main` of `settings.c`; no settings are read where it exits. -/
def readTorchatConfigs (file : Except Int Bytes) : Except Fault (Option Settings) := do
  let returned ← parseConfig file
  if returned.rc = -1 then .ok none
  else
    match returned.returnOpts with
    | none => .error .nullDereference
    | some fileArgv =>
        -- argparse reads `2 * fileArgc` arguments of the vector
        match (fileArgv.take (2 * returned.rc).toNat).mapM id with
        | none => .error .nullDereference
        | some argv => .ok (some (argparseParse options argv Settings.start).values)

/-! ## Fields -/

/-- What a field holds. -/
inductive FieldValue where
  | number (value : Int)
  | text (value : Option CString)
deriving DecidableEq

namespace Setting

/-- The field of a setting. -/
def field (settings : Settings) : Setting → FieldValue
  | maxconnections => .number settings.maxconnections
  | maxevents => .number settings.maxevents
  | epolltimeout => .number settings.epollTimeout
  | host => .text settings.host
  | torport => .number settings.torPort
  | daemonport => .number settings.daemonPort
  | loginfo => .text settings.logInfo
  | logdebug => .text settings.logDebug
  | logerror => .text settings.logError
  | sockbufsize => .number settings.sockBufSize
  | interface => .text settings.interface

def isNumeric (setting : Setting) : Bool :=
  match setting.target with
  | .integer _ => true
  | .long _ => true
  | _ => false

theorem mem_all (setting : Setting) : setting ∈ all := by cases setting <;> decide

theorem nodup_all : all.Nodup := by decide

end Setting

/-- A line of the file gives a value to a setting: a decimal `int` without a zero in
front to a numeric one, and a text that does not start with a dash to another. -/
inductive Gives (setting : Setting) (line : OptionLine) : FieldValue → Prop where
  | number (numeric : setting.isNumeric = true) (value : Nat) (small : value < 2 ^ 31)
      (name : line.name.text = setting.name) (digits : line.value.text.bytes = decimal value) :
      Gives setting line (.number value)
  | text (textual : setting.isNumeric = false) (name : line.name.text = setting.name)
      (noDash : line.value.text.bytes.head? ≠ some 0x2D) :
      Gives setting line (.text (some line.value.text))

/-! ## One option -/

theorem writeInt_of_small {value size : Nat} (small : value < 2 ^ 31) (low : size < 2 ^ 32) :
    writeInt value size = value := by
  rw [writeInt]
  omega

/-- The table has each setting under its name. -/
theorem longOpt_name (setting : Setting) (next : Option CString) (self : Argparse Settings) :
    longOpt next setting.name.bytes self options = getvalue setting.target next self := by
  cases setting <;> rfl

/-- A setting has been written and the others have been left alone. -/
structure Wrote (setting : Setting) (value : FieldValue) (before after : Settings) : Prop where
  own : setting.field after = value
  others : ∀ other, other ≠ setting → other.field after = other.field before
  low : after.sockBufSize < 2 ^ 32

section Option

variable {setting : Setting} {self : Argparse Settings} {text : CString}

private theorem number_stored (numeric : setting.isNumeric = true) {value : Nat}
    (small : value < 2 ^ 31) (read : strtol text.bytes = ((value : Int), []))
    (none_ : self.optvalue = none) (low : self.values.sockBufSize < 2 ^ 32) :
    ∃ after, getvalue setting.target (some text) self =
        (.stored, { self with taken := true, values := after }) ∧
      Wrote setting (.number value) self.values after := by
  have int : toInt value = value := toInt_of_small small
  cases setting
  case host | loginfo | logdebug | logerror | interface =>
    exact absurd numeric Bool.false_ne_true
  case sockbufsize =>
    have size : writeInt value self.values.sockBufSize = value := writeInt_of_small small low
    refine ⟨_, getvalue_integer none_ read int _, ?_, ?_, ?_⟩
    · show FieldValue.number (writeInt value self.values.sockBufSize) = _
      rw [size]
    · intro other different
      cases other <;> first | rfl | exact absurd rfl different
    · show writeInt value self.values.sockBufSize < 2 ^ 32
      omega
  case epolltimeout =>
    refine ⟨_, getvalue_long none_ read _, rfl, ?_, low⟩
    intro other different
    cases other <;> first | rfl | exact absurd rfl different
  all_goals
    refine ⟨_, getvalue_integer none_ read int _, rfl, ?_, low⟩
    intro other different
    cases other <;> first | rfl | exact absurd rfl different

private theorem text_stored (textual : setting.isNumeric = false) (none_ : self.optvalue = none)
    (low : self.values.sockBufSize < 2 ^ 32) :
    ∃ after, getvalue setting.target (some text) self =
        (.stored, { self with taken := true, values := after }) ∧
      Wrote setting (.text (some text)) self.values after := by
  cases setting
  case host | loginfo | logdebug | logerror | interface =>
    refine ⟨_, getvalue_string none_ _, rfl, ?_, low⟩
    intro other different
    cases other <;> first | rfl | exact absurd rfl different
  all_goals contradiction

/-- An option of the table stores the value that its line gives. -/
private theorem value_stored {line : OptionLine} {value : FieldValue}
    (gives : Gives setting line value) (none_ : self.optvalue = none)
    (low : self.values.sockBufSize < 2 ^ 32) :
    ∃ after, longOpt (some line.value.text) setting.name.bytes self options =
        (.stored, { self with taken := true, values := after }) ∧
      Wrote setting value self.values after := by
  rw [longOpt_name]
  cases gives with
  | number numeric value small name digits =>
      have read : strtol line.value.text.bytes = ((value : Int), []) := by
        rw [digits]
        exact strtol_decimal (Nat.lt_trans small (by decide))
      exact number_stored numeric small read none_ low
  | text textual name noDash => exact text_stored textual none_ low

end Option

/-! ## The vector -/

theorem Gives.name_eq {setting : Setting} {line : OptionLine} {value : FieldValue}
    (gives : Gives setting line value) : line.name.text = setting.name := by
  cases gives with
  | number numeric value small name digits => exact name
  | text textual name noDash => exact name

theorem Gives.value_noDash {setting : Setting} {line : OptionLine} {value : FieldValue}
    (gives : Gives setting line value) : line.value.text.bytes.head? ≠ some 0x2D := by
  cases gives with
  | number numeric value small name digits =>
      obtain ⟨digit, rest, shape, lessTen, _⟩ := decimal_eq_cons value
      rw [digits, shape, List.head?_cons]
      intro dash
      have isNumber := isDigit_digitByte lessTen
      rw [Option.some.inj dash] at isNumber
      contradiction
  | text textual name noDash => exact noDash

theorem prefixed_bytes (name : CString) : (prefixed name).bytes = 0x2D :: 0x2D :: name.bytes :=
  CString.ofBytes_eq_of_noNul (noNul_prefixed name.noNul)

/-- The arguments of some options. -/
def argumentsOf (options : List (CString × CString)) : List CString :=
  options.flatMap fun option => [option.1, option.2]

/-- The vector holds its arguments in front of the NULL. -/
private theorem optsVector_arguments (options : List (CString × CString)) :
    ((optsVector options).take (2 * options.length)).mapM id = some (argumentsOf options) := by
  have vector : optsVector options = (argumentsOf options).map some ++ [none] := by
    rw [optsVector, argumentsOf, List.map_flatMap]
    rfl
  have length : ((argumentsOf options).map some).length = 2 * options.length := by
    rw [List.length_map, argumentsOf, List.length_flatMap]
    simp [Nat.mul_comm]
  have whole : (argumentsOf options).mapM some = some ((argumentsOf options).map id) :=
    List.mapM_pure
  rw [vector, ← length, List.take_left, List.mapM_map]
  exact whole.trans (congrArg some (List.map_id _))

section Run

variable {given : Setting → OptionLine} {value : Setting → FieldValue}

/-- The entries of the lines of some settings, as arguments. -/
private def settingArguments (given : Setting → OptionLine) (order : List Setting) : List CString :=
  argumentsOf ((order.map given).map OptionLine.entry)

/-- The loop of `argparse_parse` over options and their values: each field of an option
holds the value of its line, and the others hold what they held. -/
theorem parseArgs_settings (gives : ∀ setting, Gives setting (given setting) (value setting))
    (order : List Setting) (nodup : order.Nodup) {self : Argparse Settings}
    (idle : self.taken = false) (none_ : self.optvalue = none)
    (low : self.values.sockBufSize < 2 ^ 32) :
    ∃ after, (parseArgs options (settingArguments given order) self).values = after ∧
      (∀ setting ∈ order, setting.field after = value setting) ∧
      ∀ setting, setting ∉ order → setting.field after = setting.field self.values := by
  induction order generalizing self with
  | nil => exact ⟨_, rfl, nofun, fun _ _ => rfl⟩
  | cons setting rest inductionHypothesis =>
      rw [List.nodup_cons] at nodup
      obtain ⟨next_, stores, wrote⟩ := value_stored (gives setting) none_ low
      have dashes : (prefixed (given setting).name.text).bytes =
          0x2D :: 0x2D :: setting.name.bytes := by
        rw [prefixed_bytes, (gives setting).name_eq]
      have nonempty : setting.name.bytes ≠ [] := by
        rw [← (gives setting).name_eq]
        exact (given setting).name.nonempty
      obtain ⟨after, parsed, held, kept⟩ :=
        @inductionHypothesis nodup.2 { self with values := next_ } idle none_ wrote.low
      have step := parseArgs_of_option idle dashes nonempty stores (settingArguments given rest)
      refine ⟨after, (congrArg Parsed.values step).trans parsed, ?_, ?_⟩
      · intro other member
        rcases List.mem_cons.mp member with rfl | later
        · rw [kept other nodup.1]
          exact wrote.own
        · exact held other later
      · intro other absent
        rw [List.mem_cons, not_or] at absent
        rw [kept other absent.2]
        exact wrote.others other absent.1

/-- `argparse_parse` takes the first option for the name of the program, and its value
for an argument that is no option. -/
theorem argparseParse_settings (gives : ∀ setting, Gives setting (given setting) (value setting))
    {first : Setting} {rest : List Setting} (nodup : (first :: rest).Nodup) :
    ∃ after,
      (argparseParse options (settingArguments given (first :: rest)) Settings.start).values =
        after ∧
      first.field after = first.field Settings.start ∧
      ∀ setting ∈ rest, setting.field after = value setting := by
  rw [List.nodup_cons] at nodup
  have copied := @parseArgs_of_value _ options
    { optvalue := none, taken := false, out := [], values := Settings.start } rfl _
    (gives first).value_noDash (settingArguments given rest)
  obtain ⟨after, parsed, held, kept⟩ := @parseArgs_settings given value gives rest nodup.2
    { optvalue := none
      taken := false
      out := [] ++ [(given first).value.text]
      values := Settings.start } rfl rfl (show 0 < 2 ^ 32 by decide)
  exact ⟨after, (congrArg Parsed.values copied).trans parsed, kept first nodup.1, held⟩

end Run

/-! ## A file -/

section File

variable {content : Bytes} {given : Setting → OptionLine} {value : Setting → FieldValue}

/-- The lines of a file fit where `parse_config` returns. -/
private theorem fits_of_returned {options : List OptionLine} (lists : Lists (lines content) options)
    (all : options.length = nOpts) {returned : Returned}
    (result : parseConfig (.ok content) = .ok returned) : ∀ option ∈ options, option.Fits := by
  have safe := safe_of_returned result
  rw [← result] at safe
  have bounded := (safe_run_iff (lines content) Parser.start_ready (Nat.zero_le _)).mp safe
  rw [considered_lists lists] at bounded
  have allOptions : ∀ line ∈
      (options.filter fun option => isConsidered option.line).map OptionLine.line,
      isOption line = true := by
    intro line member
    obtain ⟨option, _, rfl⟩ := List.mem_map.mp member
    exact option.isOption_line
  have taken := List.takeWhile_eq_self_iff.mpr allOptions
  have dropped := List.dropWhile_eq_nil_iff.mpr allOptions
  obtain ⟨fit, _, ends⟩ := bounded
  rw [taken] at fit
  rw [taken, dropped, List.length_map, ← all] at ends
  have count : (options.filter fun option => isConsidered option.line).length = options.length :=
    (Nat.zero_add _).symm.trans ends
  have looked := List.length_filter_eq_length_iff.mp count
  intro option member
  have inFilter : option ∈ options.filter fun option => isConsidered option.line :=
    List.mem_filter.mpr ⟨member, looked option member⟩
  have ⟨readable, name⟩ := fit option.line (List.mem_map_of_mem inFilter)
  rw [option.optionName_line] at name
  have body := option.isConsidered_line.mp (looked option member)
  exact ⟨name, (option.readable_line.mp readable).2, body⟩

/-- All settings of a file but its first are read. -/
private theorem read_of_fits {first : Setting} {rest : List Setting}
    (all : (first :: rest).Perm Setting.all)
    (lists : Lists (lines content) ((first :: rest).map given))
    (gives : ∀ setting, Gives setting (given setting) (value setting))
    (fit : ∀ setting, (given setting).Fits) :
    ∃ settings, readTorchatConfigs (.ok content) = .ok (some settings) ∧
      first.field settings = first.field Settings.start ∧
      ∀ setting, setting ≠ first → setting.field settings = value setting := by
  have nodup : (first :: rest).Nodup := all.nodup_iff.mpr Setting.nodup_all
  have count : ((first :: rest).map given).length = nOpts := by
    rw [List.length_map, all.length_eq]
    rfl
  have fitAll : ∀ option ∈ (first :: rest).map given, option.Fits := by
    intro option member
    obtain ⟨setting, _, rfl⟩ := List.mem_map.mp member
    exact fit setting
  have parsed := parseConfig_lists lists fitAll count
  have arguments := optsVector_arguments (((first :: rest).map given).map OptionLine.entry)
  rw [List.length_map, count] at arguments
  obtain ⟨after, stored, lost, held⟩ := argparseParse_settings gives nodup
  refine ⟨after, ?_, lost, ?_⟩
  · have positive : ¬ (nOpts : Int) = -1 := by decide
    have length : (2 * (nOpts : Int)).toNat = 2 * nOpts := by decide
    simp only [readTorchatConfigs, parsed, if_neg positive, length, arguments, bind, Except.bind]
    exact congrArg (fun settings => Except.ok (some settings)) stored
  · intro setting different
    have member : setting ∈ first :: rest := all.mem_iff.mpr setting.mem_all
    exact held setting ((List.mem_cons.mp member).resolve_left different)

/-- A field that has not been written. -/
theorem Setting.field_start (setting : Setting) :
    setting.field Settings.start = if setting.isNumeric then .number 0 else .text none := by
  cases setting <;> rfl

/-- A field that has not been written holds what its line gives when that is 0. -/
private theorem start_holds_iff {setting : Setting} {line : OptionLine} {value : FieldValue}
    (gives : Gives setting line value) :
    setting.field Settings.start = value ↔ value = .number 0 := by
  rw [setting.field_start]
  cases gives with
  | number numeric value small name digits =>
      rw [if_pos numeric]
      exact eq_comm
  | text textual name noDash =>
      rw [if_neg (by rw [textual]; exact Bool.false_ne_true)]
      exact iff_of_false nofun nofun

/-- For a file with each option once, whose lines give the values, all fields hold the
values exactly when its lines fit the buffers and the first of them gives the number 0,
which is what the field of the first option is left at. -/
theorem settings_hold_file_iff (content : Bytes) (order : List Setting)
    (given : Setting → OptionLine) (value : Setting → FieldValue)
    (all : order.Perm Setting.all) (lists : Lists (lines content) (order.map given))
    (gives : ∀ setting, Gives setting (given setting) (value setting)) :
    (∃ settings, readTorchatConfigs (.ok content) = .ok (some settings) ∧
        ∀ setting, setting.field settings = value setting) ↔
      (∀ setting, (given setting).Fits) ∧ order.head?.map value = some (.number 0) := by
  cases order with
  | nil => exact absurd all.length_eq (by decide)
  | cons first rest =>
      have firstZero : (first :: rest).head?.map value = some (.number 0) ↔
          first.field Settings.start = value first := by
        rw [start_holds_iff (gives first)]
        exact Option.some_inj
      rw [firstZero]
      constructor
      · rintro ⟨settings, read, holds⟩
        have fit : ∀ setting, (given setting).Fits := by
          obtain ⟨returned, result, _⟩ := bind_eq_ok read
          have count : ((first :: rest).map given).length = nOpts := by
            rw [List.length_map, all.length_eq]
            rfl
          intro setting
          exact fits_of_returned lists count result _
            (List.mem_map_of_mem (all.mem_iff.mpr setting.mem_all))
        obtain ⟨others, readAgain, lost, _⟩ := read_of_fits all lists gives fit
        rw [read] at readAgain
        cases readAgain
        exact ⟨fit, lost.symm.trans (holds first)⟩
      · rintro ⟨fit, zero⟩
        obtain ⟨settings, read, lost, held⟩ := read_of_fits all lists gives fit
        refine ⟨settings, read, ?_⟩
        intro setting
        by_cases same : setting = first
        · rw [same]
          exact lost.trans zero
        · exact held setting same

end File

/-- The values of `torchat.conf`, or the value 0 for the first of them. -/
private def sampleValue (zero : Bool) : Setting → CString
  | .maxconnections => if zero then CString.literal "0" else CString.literal "16"
  | .maxevents => CString.literal "64"
  | .epolltimeout => CString.literal "120000"
  | .host => CString.literal "localhost"
  | .torport => CString.literal "9250"
  | .daemonport => CString.literal "8000"
  | .loginfo => CString.literal "info.log"
  | .logdebug => CString.literal "debug.log"
  | .logerror => CString.literal "error.log"
  | .sockbufsize => CString.literal "512"
  | .interface => CString.literal "INADDR_ANY"

private def sampleField (zero : Bool) : Setting → FieldValue
  | .maxconnections => .number (if zero then 0 else 16 : Nat)
  | .maxevents => .number (64 : Nat)
  | .epolltimeout => .number (120000 : Nat)
  | .torport => .number (9250 : Nat)
  | .daemonport => .number (8000 : Nat)
  | .sockbufsize => .number (512 : Nat)
  | setting => .text (some (sampleValue zero setting))

private theorem name_word (setting : Setting) : setting.name.bytes ≠ [] ∧
    (setting.name.bytes.all fun byte => !isWhite byte) = true ∧
    commentChar ∉ setting.name.bytes ∧ separator ∉ setting.name.bytes := by
  cases setting <;> decide

private theorem sampleValue_word (zero : Bool) (setting : Setting) :
    (sampleValue zero setting).bytes ≠ [] ∧
      ((sampleValue zero setting).bytes.all fun byte => !isWhite byte) = true ∧
      commentChar ∉ (sampleValue zero setting).bytes := by
  cases zero <;> cases setting <;> decide

private def settingLine (zero : Bool) (setting : Setting) : OptionLine where
  name := ⟨setting.name, (name_word setting).1, solid_of_all (name_word setting).2.1,
    (name_word setting).2.2.1⟩
  value := ⟨sampleValue zero setting, (sampleValue_word zero setting).1,
    solid_of_all (sampleValue_word zero setting).2.1, (sampleValue_word zero setting).2.2⟩
  blanks := [0x20]
  white := [newline]
  comment := []
  unseparated := (name_word setting).2.2.2
  blanksNonempty := List.cons_ne_nil _ _
  blanksWhite := List.all_eq_true.mp (by decide)
  whiteWhite := List.all_eq_true.mp (by decide)
  commentStarts := Or.inl rfl

private theorem settingLine_gives (zero : Bool) (setting : Setting) :
    Gives setting (settingLine zero setting) (sampleField zero setting) := by
  cases setting
  case host | loginfo | logdebug | logerror | interface =>
    exact .text rfl rfl (by cases zero <;> decide)
  case maxconnections =>
    cases zero with
    | false => exact .number rfl 16 (by decide) rfl (by decide)
    | true => exact .number rfl 0 (by decide) rfl (by decide)
  all_goals exact .number rfl _ (by decide) rfl (by cases zero <;> decide)

private def settingFile (zero : Bool) : Bytes := Setting.all.flatMap fun setting =>
  (settingLine zero setting).line

private theorem settingFile_lists (zero : Bool) :
    Lists (lines (settingFile zero)) (Setting.all.map (settingLine zero)) := by
  have split : lines (settingFile zero) =
      (Setting.all.map (settingLine zero)).map OptionLine.line := by
    cases zero <;> decide +kernel
  rw [split]
  exact lists_of_options _

theorem settings_hold_file_iff_zero :
    (∃ settings, readTorchatConfigs (.ok (settingFile true)) = .ok (some settings) ∧
        ∀ setting, setting.field settings = sampleField true setting) ↔
      (∀ setting, (settingLine true setting).Fits) ∧
        Setting.all.head?.map (sampleField true) = some (.number 0) :=
  settings_hold_file_iff (settingFile true) Setting.all (settingLine true) (sampleField true)
    (List.Perm.refl _) (settingFile_lists true) (settingLine_gives true)

/-- With the values of `torchat.conf` the first option, `maxconnections: 16`, is not
read. -/
theorem first_setting_not_read :
    Lists (lines (settingFile false)) (Setting.all.map (settingLine false)) ∧
      (∀ setting, Gives setting (settingLine false setting) (sampleField false setting)) ∧
      (∃ settings, readTorchatConfigs (.ok (settingFile false)) = .ok (some settings) ∧
        Setting.maxconnections.field settings = .number 0) ∧
      ¬ ∃ settings, readTorchatConfigs (.ok (settingFile false)) = .ok (some settings) ∧
        ∀ setting, setting.field settings = sampleField false setting := by
  let settings : Settings :=
    { maxconnections := 0
      maxevents := 64
      epollTimeout := 120000
      host := some (CString.literal "localhost")
      torPort := 9250
      daemonPort := 8000
      logInfo := some (CString.literal "info.log")
      logDebug := some (CString.literal "debug.log")
      logError := some (CString.literal "error.log")
      sockBufSize := 512
      interface := some (CString.literal "INADDR_ANY") }
  have read : readTorchatConfigs (.ok (settingFile false)) = .ok (some settings) := by
    decide +kernel
  refine ⟨settingFile_lists false, settingLine_gives false, ⟨settings, read, rfl⟩, ?_⟩
  rintro ⟨others, readAgain, holds⟩
  rw [read] at readAgain
  cases readAgain
  exact absurd (holds .maxconnections) (by decide)

end Torchat.Config
