import VisualMemory.CommandLine.Session
import VisualMemory.Proofs.Boot

/-!
# How sessions end

A session runs to its end if nothing keeps it from its run: the arguments, the files, the images, or
the journal file. The first of these decides the exit code.

* `Useless`, `Unreadable`, `Refused`: what is wrong with arguments, with files and with images.
* `Decided`: the exit code that follows from it; `decided_run`: that of a session.
* `World.Panics`: what a process does whose journal file cannot be opened.
* `start_up_decision`: sessions, with and without a journal file, and the machines that they run.
-/

namespace VisualMemory.CommandLine

/-! ## What is wrong -/

/-- The bytes that a file name stands for; without a name there are none. -/
def image (files : Files) : Option String → Except LoadError (Array UInt8)
  | none => .ok #[]
  | some name => files name

namespace Arguments

/-- The name of the firmware file; a single dash is no name. -/
def firmware (a : Arguments) : Option String :=
  if a.bios = some "-" then none else a.bios

/-- A machine that starts in its firmware needs one. -/
def LacksFirmware (a : Arguments) : Prop :=
  a.config.direct = false ∧ a.firmware = none

/-- A file that is named cannot be loaded. -/
def LacksFile (a : Arguments) (files : Files) : Prop :=
  (∃ e, image files a.firmware = .error e) ∨ ∃ e, image files a.flash = .error e

/-- The files hold images that make no machine. -/
def HasBadImages (a : Arguments) (files : Files) : Prop :=
  ∃ bios flash, image files a.firmware = .ok bios ∧ image files a.flash = .ok flash ∧
    ∃ e : BootError, e.Applies a.config bios flash

end Arguments

/-- The arguments are wrong, or leave out the firmware. -/
def Useless (args : List String) : Prop :=
  (∃ e, Arguments.parse args = .error e) ∨ ∃ a, Arguments.parse args = .ok a ∧ a.LacksFirmware

/-- The arguments name a file that cannot be loaded. -/
def Unreadable (args : List String) (files : Files) : Prop :=
  ∃ a, Arguments.parse args = .ok a ∧ a.LacksFile files

/-- The arguments name files from which no machine can be assembled. -/
def Refused (args : List String) (files : Files) : Prop :=
  ∃ a, Arguments.parse args = .ok a ∧ a.HasBadImages files

/-- The exit code that follows from arguments and files. -/
structure Decided (args : List String) (files : Files) (code : Nat) : Prop where
  usage : code = 1 ↔ Useless args
  unreadable : code = 2 ↔ ¬ Useless args ∧ Unreadable args files
  refused : code = 3 ↔ ¬ Useless args ∧ ¬ Unreadable args files ∧ Refused args files
  finished : code = 0 ↔ ¬ Useless args ∧ ¬ Unreadable args files ∧ ¬ Refused args files

/-! ## The stages -/

section Stages

variable {a : Arguments} {files : Files}

theorem filter_bios (a : Arguments) : a.bios.filter (· != "-") = a.firmware := by
  rw [Arguments.firmware]
  cases a.bios with
  | none => rfl
  | some name => by_cases h : name = "-" <;> simp [h]

theorem firmware?_of_lacks (h : a.LacksFirmware) : firmware? a = none := by
  rw [firmware?, filter_bios, h.1, h.2]
  rfl

theorem firmware?_of_not_lacks (h : ¬ a.LacksFirmware) : firmware? a = some a.firmware := by
  rw [firmware?, filter_bios]
  cases hname : a.firmware with
  | some name => rfl
  | none =>
    have hdirect : a.config.direct = true :=
      Bool.of_not_eq_false fun hdirect => h ⟨hdirect, hname⟩
    rw [hdirect]
    rfl

theorem load_eq (files : Files) (j : Journal) (name : Option String) :
    ∃ j', load files j name = (j', (image files name).toOption) := by
  cases name with
  | none => exact ⟨_, rfl⟩
  | some name =>
    dsimp only [load, image]
    cases files name <;> exact ⟨_, rfl⟩

/-- How the stages end for accepted arguments. -/
def Ending.Fits (a : Arguments) (files : Files) : Ending → Prop
  | .usage => a.LacksFirmware
  | .unreadable => ¬ a.LacksFirmware ∧ a.LacksFile files
  | .refused => ¬ a.LacksFirmware ∧ ¬ a.LacksFile files ∧ a.HasBadImages files
  | .finished => ¬ a.LacksFirmware ∧ ¬ a.LacksFile files ∧ ¬ a.HasBadImages files

theorem fits_perform (a : Arguments) (files : Files) (j : Journal) :
    (Session.perform a files j).1.Fits a files := by
  -- One stage after the other: each ends the session, or hands on what it has loaded.
  unfold Session.perform start
  by_cases hlacks : a.LacksFirmware
  · rw [firmware?_of_lacks hlacks]
    exact hlacks
  rw [firmware?_of_not_lacks hlacks]
  dsimp only
  obtain ⟨j, hbios⟩ := load_eq files j a.firmware
  rw [hbios]
  cases hb : image files a.firmware with
  | error e => exact ⟨hlacks, .inl ⟨e, hb⟩⟩
  | ok bios =>
  dsimp only [Except.toOption]
  obtain ⟨j, hflash⟩ := load_eq files j a.flash
  rw [hflash]
  cases hf : image files a.flash with
  | error e => exact ⟨hlacks, .inr ⟨e, hf⟩⟩
  | ok flash =>
  dsimp only [Except.toOption]
  have hfiles : ¬ a.LacksFile files := by
    rintro (⟨e, he⟩ | ⟨e, he⟩)
    · cases he.symm.trans hb
    · cases he.symm.trans hf
  cases hboot : Machine.boot bios flash a.config j with
  | error e =>
    have hfirst := Machine.boot_eq_error_iff.mp hboot
    exact ⟨hlacks, hfiles, bios, flash, hb, hf, e, hfirst.applies⟩
  | ok m =>
    refine ⟨hlacks, hfiles, ?_⟩
    rintro ⟨bios', flash', hb', hf', e, he⟩
    cases hb.symm.trans hb'
    cases hf.symm.trans hf'
    exact Machine.exists_boot_iff.mp ⟨m, hboot⟩ e he

end Stages

/-! ## Sessions -/

/-- What decides a session that has read its arguments. -/
theorem decided_of_fits {args : List String} {a : Arguments} {files : Files} {ending : Ending}
    (ha : Arguments.parse args = .ok a) (h : ending.Fits a files) :
    Decided args files ending.code := by
  have huseless : Useless args ↔ a.LacksFirmware := by simp [Useless, ha]
  have hunreadable : Unreadable args files ↔ a.LacksFile files := by simp [Unreadable, ha]
  have hrefused : Refused args files ↔ a.HasBadImages files := by simp [Refused, ha]
  -- What an ending asks for is its own code's condition and against those of the others.
  cases ending <;> constructor <;> simp_all [Ending.Fits, Ending.code]

theorem decided_run (args : List String) (files : Files) (threshold : Option Severity)
    (logPath : String) : Decided args files (Session.run args files threshold logPath).exitCode := by
  unfold Session.run
  cases ha : Arguments.parse args with
  | error e =>
    have huseless : Useless args := .inl ⟨e, ha⟩
    constructor <;> simp [huseless, Ending.code]
  | ok a =>
    have hfits := fits_perform a files { threshold }
    dsimp only
    split <;> exact decided_of_fits ha hfits

/-! ## Journal files -/

/-- The arguments are accepted and ask for a journal file. -/
def LogsToFile (args : List String) : Prop :=
  ∃ a, Arguments.parse args = .ok a ∧ a.log = .file

theorem logTarget_eq_file_iff {args : List String} : logTarget args = .file ↔ LogsToFile args := by
  unfold logTarget LogsToFile
  cases Arguments.parse args with
  | ok a => simp
  | error e => simp

theorem logTarget_eq_console {args : List String} (h : ¬ LogsToFile args) :
    logTarget args = .console := by
  cases htarget : logTarget args with
  | console => rfl
  | file => exact absurd (logTarget_eq_file_iff.mp htarget) h

/-- The process panics if its journal file cannot be opened. -/
def World.Panics {σ : Type} (world : World (StateM σ)) : Prop :=
  ∀ w code w', world.openLog.run w = (.error code, w') → code = panicCode

section Worlds

variable {σ : Type} {world : World (StateM σ)} {args : List String} (threshold : Option Severity)
  (logPath : String) {w w' : σ}

theorem exitCode_runIn_console (h : ¬ LogsToFile args) :
    ((Session.runIn world args threshold logPath).run w).1.exitCode =
      (Session.run args ((world.files (fileNames args)).run w).1 threshold logPath).exitCode := by
  rw [Session.runIn, logTarget_eq_console h]
  rfl

theorem exitCode_runIn_file (h : LogsToFile args) (hopen : world.openLog.run w = (.ok (), w')) :
    ((Session.runIn world args threshold logPath).run w).1.exitCode =
      (Session.run args ((world.files (fileNames args)).run w').1 threshold logPath).exitCode := by
  rw [Session.runIn, logTarget_eq_file_iff.mpr h, StateT.run_bind, hopen]
  rfl

theorem runIn_of_unopened {code : Nat} (h : LogsToFile args)
    (hopen : world.openLog.run w = (.error code, w')) :
    (Session.runIn world args threshold logPath).run w = (Session.unlogged code, w') := by
  rw [Session.runIn, logTarget_eq_file_iff.mpr h, StateT.run_bind, hopen]
  rfl

end Worlds

/-- **How sessions start and end.** Arguments, files and images decide the exit code, in this order.
In any world that is so for the files as they are once the journal file has been opened; accepted
arguments that ask for a journal file which cannot be opened end the session before anything else.
There is no machine exactly if something is wrong with the images, and what is wrong first is
reported; otherwise the machine is in its cold reset state, with the images in its memories. -/
theorem start_up_decision :
    (∀ args files threshold logPath,
      Decided args files (Session.run args files threshold logPath).exitCode) ∧
    (∀ (σ : Type) (world : World (StateM σ)) args threshold logPath w,
      let outcome := (Session.runIn world args threshold logPath).run w
      (¬ LogsToFile args →
        Decided args ((world.files (fileNames args)).run w).1 outcome.1.exitCode) ∧
      (LogsToFile args → ∀ w', world.openLog.run w = (.ok (), w') →
        Decided args ((world.files (fileNames args)).run w').1 outcome.1.exitCode) ∧
      (LogsToFile args → ∀ code w', world.openLog.run w = (.error code, w') →
        outcome = (Session.unlogged code, w') ∧ outcome.1.exitCode = code ∧
          (world.Panics → outcome.1.exitCode = 101))) ∧
    ∀ bios flash config journal,
      (∀ e, Machine.boot bios flash config journal = .error e ↔ e.IsFirst config bios flash) ∧
      ((∃ m, Machine.boot bios flash config journal = .ok m) ↔
        ∀ e : BootError, ¬ e.Applies config bios flash) ∧
      (Region.rom.capacity = 65536 ∧ Region.flash.capacity = 131072) ∧
      ∀ m, Machine.boot bios flash config journal = .ok m → m.JustBooted config bios flash := by
  refine ⟨decided_run, fun σ world args threshold logPath w => ⟨fun h => ?_, fun h w' hopen => ?_,
    fun h code w' hopen => ?_⟩, fun bios flash config journal => ⟨fun e => Machine.boot_eq_error_iff,
    Machine.exists_boot_iff, ⟨rfl, rfl⟩, fun m hm => Machine.justBooted_of_boot hm⟩⟩
  · rw [exitCode_runIn_console threshold logPath h]
    exact decided_run ..
  · rw [exitCode_runIn_file threshold logPath h hopen]
    exact decided_run ..
  · rw [runIn_of_unopened threshold logPath h hopen]
    exact ⟨rfl, rfl, fun hpanics => hpanics w code w' hopen⟩

/-! ### A folder in the place of the journal file -/

/-- A disk with a folder in the place of the journal file. -/
def logTaken : Disk :=
  { entries := [(["vmu.log"], .folder)] }

theorem logsToFile_alone : LogsToFile ["--log-file"] :=
  ⟨_, rfl, rfl⟩

theorem useless_alone : Useless ["--log-file"] :=
  .inr ⟨_, rfl, rfl, rfl⟩

/-- On a disk the process panics if there is no way to open its journal file. -/
theorem panics_ofDisk (log : Path) : (World.ofDisk log).Panics := by
  intro d code d' hopen
  simp only [World.ofDisk, StateT.run_bind, StateT.run_get, pure_bind] at hopen
  split at hopen
  · cases hopen
  · cases hopen
    rfl

/-- A session that asks for a journal file and for nothing else, with a folder in its place and on an
empty disk; a session without arguments; and a machine with one byte of firmware. -/
theorem start_up_decision_alone :
    (Session.runOn ["--log-file"] logTaken none ["vmu.log"] "vmu.log").1.exitCode = 101 ∧
    Decided ["--log-file"] { entries := [(["vmu.log"], .file #[])] : Disk }.read
      (Session.runOn ["--log-file"] {} none ["vmu.log"] "vmu.log").1.exitCode ∧
    Decided [] ({} : Disk).read (Session.runOn [] {} none ["vmu.log"] "vmu.log").1.exitCode ∧
    Machine.idling.JustBooted {} #[0] #[] := by
  have hconsole : ¬ LogsToFile [] := by
    rintro ⟨a, ha, hlog⟩
    cases ha
    cases hlog
  have hsessions := start_up_decision.2.1 Disk (World.ofDisk ["vmu.log"])
  refine ⟨((hsessions _ none "vmu.log" logTaken).2.2 logsToFile_alone panicCode _ rfl).2.2
      (panics_ofDisk _),
    (hsessions _ none "vmu.log" {}).2.1 logsToFile_alone _ rfl,
    (hsessions _ none "vmu.log" {}).1 hconsole,
    (start_up_decision.2.2 #[0] #[] {} {}).2.2.2 _
      (Machine.boot_firmware rfl (by decide) (by decide) (Nat.zero_le _))⟩

/-- A session with useless arguments that cannot open its journal file does not end as others with
useless arguments do. -/
theorem log_folder_ends_session :
    Useless ["--log-file"] ∧
      ¬ Decided ["--log-file"] logTaken.read
        (Session.runOn ["--log-file"] logTaken (some .info) ["vmu.log"] "vmu.log").1.exitCode := by
  refine ⟨useless_alone, fun h => ?_⟩
  have hopen : (World.ofDisk ["vmu.log"]).openLog.run logTaken = (.error panicCode, logTaken) := rfl
  have hrun := runIn_of_unopened (some .info) "vmu.log" logsToFile_alone hopen
  have hcode : (Session.runOn ["--log-file"] logTaken (some .info) ["vmu.log"] "vmu.log").1.exitCode =
      panicCode := congrArg (·.1.exitCode) hrun
  have husage := h.usage.mpr useless_alone
  rw [hcode] at husage
  cases husage

end VisualMemory.CommandLine
