import Mathlib.Data.List.Induction
import VisualMemory.Proofs.CommandLine.Items
import VisualMemory.Proofs.CommandLine.Number

/-!
# The grammar of the command line

What makes an item wrong, and what a sequence of items asks for, without the reading; and the
reading compared with that.

* `Setting.Means`, `Item.Valid`, `Item.Fault`: the value of a setting, and what is wrong with an item.
* `Arguments.Says`: what a sequence of items asks for.
* `foldlM_take_eq_ok_iff`, `foldlM_take_eq_error_iff`: items taken one after the other.
* `Arguments.parse_move`: an option in front of files or behind them.
* `argument_grammar`: the arguments of a session.
-/

namespace VisualMemory.CommandLine

/-! ## Values -/

namespace Setting

def base : Setting → Nat
  | steps => 10
  | entry => 16

/-- What a setting's value has to stay below. -/
def limit : Setting → Nat
  | steps => 2 ^ 64
  | entry => 2 ^ 16

/-- The part of a setting's value that is the number: all of it, or what stands behind all marks. -/
def Shows (option : Setting) (value : String) (cs : List Char) : Prop :=
  match option with
  | steps => value.toList = cs
  | entry =>
    ∃ marks, value.toList = (List.replicate marks ['0', 'x']).flatten ++ cs ∧ ¬ ['0', 'x'] <+: cs

/-- A setting's value stands for a number. -/
def Means (option : Setting) (value : String) (n : Nat) : Prop :=
  ∃ cs, option.Shows value cs ∧ IsNumber option.base option.limit cs n

/-- A setting's value is no number that the setting can take, and why. -/
def Refuses (option : Setting) (value : String) (e : NumberError) : Prop :=
  ∃ cs, option.Shows value cs ∧ e.Of option.base option.limit cs

variable {option : Setting} {value : String}

theorem limit_pos (option : Setting) : 0 < option.limit := by
  cases option <;> decide

theorem exists_shows (option : Setting) (value : String) : ∃ cs, option.Shows value cs := by
  cases option with
  | steps => exact ⟨_, rfl⟩
  | entry => exact ⟨_, dropMarks_eq_iff.mp rfl⟩

theorem read_eq {cs : List Char} (h : option.Shows value cs) :
    option.read value = readNumber option.base option.limit cs := by
  cases option with
  | steps =>
    obtain rfl : value.toList = cs := h
    rfl
  | entry =>
    obtain rfl := dropMarks_eq_iff.mpr h
    rfl

theorem read_eq_ok_iff {n : Nat} : option.read value = .ok n ↔ option.Means value n := by
  constructor
  · intro h
    obtain ⟨cs, hcs⟩ := option.exists_shows value
    rw [read_eq hcs] at h
    exact ⟨cs, hcs, (readNumber_eq_ok_iff option.limit_pos).mp h⟩
  · rintro ⟨cs, hcs, h⟩
    rw [read_eq hcs]
    exact readNumber_of_isNumber h

theorem read_eq_error_iff {e : NumberError} :
    option.read value = .error e ↔ option.Refuses value e := by
  constructor
  · intro h
    obtain ⟨cs, hcs⟩ := option.exists_shows value
    rw [read_eq hcs] at h
    exact ⟨cs, hcs, (readNumber_eq_error_iff option.limit_pos).mp h⟩
  · rintro ⟨cs, hcs, h⟩
    rw [read_eq hcs]
    exact readNumber_of_error option.limit_pos h

theorem Means.unique {n n' : Nat} (h : option.Means value n) (h' : option.Means value n') :
    n = n' :=
  Except.ok.inj ((read_eq_ok_iff.mpr h).symm.trans (read_eq_ok_iff.mpr h'))

theorem Means.lt_limit {n : Nat} (h : option.Means value n) : n < option.limit := by
  obtain ⟨_, -, _, -, -, -, hn⟩ := h
  exact hn

end Setting

/-! ## What is wrong with an item -/

/-- Nothing is wrong with an item: a setting has a value that stands for a number, and an option is
one of the program's. -/
def Item.Valid : Item → Prop
  | .switch _ | .file _ => True
  | .setting option (some value) => ∃ n, option.Means value n
  | .setting _ none | .unknown _ => False

/-- What is wrong with an item. -/
inductive Item.Fault : Item → ArgumentError → Prop
  | missingValue (option : Setting) : Fault (.setting option none) (.missingValue option)
  | invalidNumber {option : Setting} {value : String} {e : NumberError}
    (h : option.Refuses value e) : Fault (.setting option (some value)) (.invalidNumber option e)
  | unknownOption (arg : String) : Fault (.unknown arg) (.unknownOption arg)

namespace Arguments

section Take

variable {i : Item} {e : ArgumentError}

theorem take_of_valid (h : i.Valid) (a : Arguments) : ∃ b, a.take i = .ok b := by
  match i with
  | .switch _ | .file _ => exact ⟨_, rfl⟩
  | .setting option (some value) =>
    obtain ⟨n, hn⟩ := h
    exact ⟨a.takeSetting option n, by rw [take, Setting.read_eq_ok_iff.mpr hn]⟩

theorem take_of_fault (h : i.Fault e) (a : Arguments) : a.take i = .error e := by
  cases h with
  | missingValue | unknownOption => rfl
  | invalidNumber h => rw [take, Setting.read_eq_error_iff.mpr h]

theorem valid_or_fault (i : Item) : i.Valid ∨ ∃ e, i.Fault e := by
  match i with
  | .switch _ | .file _ => exact .inl trivial
  | .setting option none => exact .inr ⟨_, .missingValue option⟩
  | .unknown arg => exact .inr ⟨_, .unknownOption arg⟩
  | .setting option (some value) =>
    cases h : option.read value with
    | ok n => exact .inl ⟨n, Setting.read_eq_ok_iff.mp h⟩
    | error e => exact .inr ⟨_, .invalidNumber (Setting.read_eq_error_iff.mp h)⟩

end Take

/-! ## Items one after the other -/

theorem foldlM_take_of_valid {is : List Item} (h : ∀ i ∈ is, i.Valid) (a : Arguments) :
    ∃ b, is.foldlM take a = .ok b := by
  induction is generalizing a with
  | nil => exact ⟨a, rfl⟩
  | cons i is ih =>
    obtain ⟨hi, his⟩ := List.forall_mem_cons.mp h
    obtain ⟨b, hb⟩ := take_of_valid hi a
    rw [List.foldlM_cons, hb]
    exact ih his b

theorem foldlM_take_of_fault {before after : List Item} {i : Item} {e : ArgumentError}
    (h : ∀ j ∈ before, j.Valid) (hi : i.Fault e) (a : Arguments) :
    (before ++ i :: after).foldlM take a = .error e := by
  obtain ⟨b, hb⟩ := foldlM_take_of_valid h a
  rw [List.foldlM_append, hb]
  change (i :: after).foldlM take b = .error e
  rw [List.foldlM_cons, take_of_fault hi]
  rfl

/-- Either nothing is wrong with any item, or there is a first item at fault. -/
theorem valid_or_first_fault (is : List Item) :
    (∀ i ∈ is, i.Valid) ∨
      ∃ before i after e, is = before ++ i :: after ∧ (∀ j ∈ before, j.Valid) ∧ i.Fault e := by
  induction is with
  | nil => exact .inl (List.forall_mem_nil _)
  | cons i is ih =>
    obtain hi | ⟨e, hi⟩ := valid_or_fault i
    · obtain his | ⟨before, j, after, e, rfl, hbefore, hj⟩ := ih
      · exact .inl (List.forall_mem_cons.mpr ⟨hi, his⟩)
      · exact .inr ⟨i :: before, j, after, e, rfl, List.forall_mem_cons.mpr ⟨hi, hbefore⟩, hj⟩
    · exact .inr ⟨[], i, is, e, rfl, List.forall_mem_nil _, hi⟩

theorem exists_foldlM_take_iff {is : List Item} {a : Arguments} :
    (∃ b, is.foldlM take a = .ok b) ↔ ∀ i ∈ is, i.Valid := by
  refine ⟨?_, fun h => foldlM_take_of_valid h a⟩
  rintro ⟨b, hb⟩
  obtain h | ⟨before, i, after, e, rfl, hbefore, hi⟩ := valid_or_first_fault is
  · exact h
  · cases hb.symm.trans (foldlM_take_of_fault hbefore hi a)

theorem foldlM_take_eq_error_iff {is : List Item} {a : Arguments} {e : ArgumentError} :
    is.foldlM take a = .error e ↔
      ∃ before i after, is = before ++ i :: after ∧ (∀ j ∈ before, j.Valid) ∧ i.Fault e := by
  constructor
  · intro h
    obtain hvalid | ⟨before, i, after, e', rfl, hbefore, hi⟩ := valid_or_first_fault is
    · obtain ⟨b, hb⟩ := foldlM_take_of_valid hvalid a
      cases h.symm.trans hb
    · cases h.symm.trans (foldlM_take_of_fault hbefore hi a)
      exact ⟨before, i, after, rfl, hbefore, hi⟩
  · rintro ⟨before, i, after, rfl, hbefore, hi⟩
    exact foldlM_take_of_fault hbefore hi a

/-! ## What items ask for -/

def files (is : List Item) : List String :=
  is.filterMap fun
    | .file name => some name
    | _ => none

/-- The values that a setting has among items. -/
def values (option : Setting) (is : List Item) : List String :=
  is.filterMap fun
    | .setting option' value => if option' = option then value else none
    | _ => none

/-- The number that a setting has after items: that of its last value, or none without a value. -/
def Last (option : Setting) (is : List Item) (n : Option Nat) : Prop :=
  match (values option is).getLast? with
  | none => n = none
  | some value => ∃ k, n = some k ∧ option.Means value k

/-- What a sequence of items asks for: the first two files, the switches that occur, and each
setting as it occurs last. -/
structure Says (a : Arguments) (is : List Item) : Prop where
  bios : a.bios = (files is)[0]?
  flash : a.flash = (files is)[1]?
  direct : a.config.direct = true ↔ .switch .direct ∈ is
  debug : a.debug = true ↔ .switch .debug ∈ is
  log : a.log = .file ↔ .switch .logFile ∈ is
  steps : Last .steps is a.steps
  entry : ∃ n, Last .entry is n ∧ a.config.entry.toNat = n.getD 0
  frequency : a.config.frequency = ({} : Config).frequency

section Last

variable {option : Setting} {is : List Item} {n n' : Option Nat}

theorem values_append (option : Setting) (is js : List Item) :
    values option (is ++ js) = values option is ++ values option js :=
  List.filterMap_append

theorem Last.append (h : Last option is n) {js : List Item} (hjs : values option js = []) :
    Last option (is ++ js) n := by
  rwa [Last, values_append, hjs, List.append_nil]

theorem last_concat {value : String} {k : Nat} (hk : option.Means value k) (is : List Item) :
    Last option (is ++ [.setting option (some value)]) (some k) := by
  have hvalues : values option [.setting option (some value)] = [value] := by simp [values]
  rw [Last, values_append, hvalues, List.getLast?_concat]
  exact ⟨k, rfl, hk⟩

theorem Last.unique (h : Last option is n) (h' : Last option is n') : n = n' := by
  unfold Last at h h'
  cases hvalue : (values option is).getLast? with
  | none =>
    rw [hvalue] at h h'
    exact h.trans h'.symm
  | some value =>
    rw [hvalue] at h h'
    obtain ⟨k, rfl, hk⟩ := h
    obtain ⟨k', rfl, hk'⟩ := h'
    rw [hk.unique hk']

end Last

section Says

variable {a b : Arguments} {is : List Item}

@[simp] theorem files_append (is js : List Item) : files (is ++ js) = files is ++ files js :=
  List.filterMap_append

@[simp] theorem files_file (name : String) : files [.file name] = [name] := rfl

@[simp] theorem files_switch (option : Switch) : files [.switch option] = [] := rfl

@[simp] theorem files_setting (option : Setting) (value : Option String) :
    files [.setting option value] = [] := rfl

theorem says_nil : Says {} [] where
  bios := rfl
  flash := rfl
  direct := by simp
  debug := by simp
  log := by simp
  steps := rfl
  entry := ⟨none, rfl, rfl⟩
  frequency := rfl

theorem Says.switch (h : a.Says is) (option : Switch) :
    (a.takeSwitch option).Says (is ++ [.switch option]) where
  bios := by cases option <;> simpa [takeSwitch] using h.bios
  flash := by cases option <;> simpa [takeSwitch] using h.flash
  direct := by cases option <;> simp [takeSwitch, h.direct]
  debug := by cases option <;> simp [takeSwitch, h.debug]
  log := by cases option <;> simp [takeSwitch, h.log]
  steps := by cases option <;> exact h.steps.append rfl
  entry := by
    obtain ⟨n, hn, hentry⟩ := h.entry
    refine ⟨n, hn.append rfl, ?_⟩
    cases option <;> exact hentry
  frequency := by cases option <;> exact h.frequency

theorem Says.setting (h : a.Says is) {option : Setting} {value : String} {n : Nat}
    (hn : option.Means value n) :
    (a.takeSetting option n).Says (is ++ [.setting option (some value)]) where
  bios := by cases option <;> simpa [takeSetting] using h.bios
  flash := by cases option <;> simpa [takeSetting] using h.flash
  direct := by cases option <;> simp [takeSetting, h.direct]
  debug := by cases option <;> simp [takeSetting, h.debug]
  log := by cases option <;> simp [takeSetting, h.log]
  steps := by
    cases option with
    | steps => exact last_concat hn is
    | entry => exact h.steps.append rfl
  entry := by
    cases option with
    | steps =>
      obtain ⟨k, hk, hentry⟩ := h.entry
      exact ⟨k, hk.append rfl, hentry⟩
    | entry =>
      have hfits : (UInt16.ofNat n).toNat = n :=
        UInt16.toNat_ofNat_of_lt hn.lt_limit
      exact ⟨some n, last_concat hn is, hfits⟩
  frequency := by cases option <;> exact h.frequency

@[simp] theorem takeFile_config (a : Arguments) (name : String) :
    (a.takeFile name).config = a.config := by
  unfold takeFile
  split <;> rfl

@[simp] theorem takeFile_debug (a : Arguments) (name : String) :
    (a.takeFile name).debug = a.debug := by
  unfold takeFile
  split <;> rfl

@[simp] theorem takeFile_log (a : Arguments) (name : String) : (a.takeFile name).log = a.log := by
  unfold takeFile
  split <;> rfl

@[simp] theorem takeFile_steps (a : Arguments) (name : String) :
    (a.takeFile name).steps = a.steps := by
  unfold takeFile
  split <;> rfl

theorem takeFile_names {names : List String} (name : String) (hbios : a.bios = names[0]?)
    (hflash : a.flash = names[1]?) :
    (a.takeFile name).bios = (names ++ [name])[0]? ∧
      (a.takeFile name).flash = (names ++ [name])[1]? := by
  match names with
  | [] => simp_all [takeFile]
  | [_] => simp_all [takeFile]
  | _ :: _ :: _ => simp_all [takeFile]

theorem Says.file (h : a.Says is) (name : String) :
    (a.takeFile name).Says (is ++ [.file name]) where
  bios := by simpa using (takeFile_names name h.bios h.flash).1
  flash := by simpa using (takeFile_names name h.bios h.flash).2
  direct := by simp [h.direct]
  debug := by simp [h.debug]
  log := by simp [h.log]
  steps := by
    rw [takeFile_steps]
    exact h.steps.append rfl
  entry := by
    obtain ⟨n, hn, hentry⟩ := h.entry
    rw [takeFile_config]
    exact ⟨n, hn.append rfl, hentry⟩
  frequency := by
    rw [takeFile_config]
    exact h.frequency

/-- What is asked for grows with every item. -/
theorem Says.take {i : Item} (h : a.Says is) (hb : a.take i = .ok b) : b.Says (is ++ [i]) := by
  match i with
  | .switch option =>
    cases hb
    exact h.switch option
  | .file name =>
    cases hb
    exact h.file name
  | .setting option none | .unknown _ => cases hb
  | .setting option (some value) =>
    rw [Arguments.take] at hb
    split at hb
    next n hn =>
      cases hb
      exact h.setting (Setting.read_eq_ok_iff.mp hn)
    next => cases hb

theorem says_of_foldlM_take (h : is.foldlM Arguments.take {} = .ok a) : a.Says is := by
  -- From the end of the list: the last setting of a kind is the one that counts.
  induction is using List.reverseRecOn generalizing a with
  | nil =>
    cases h
    exact says_nil
  | append_singleton is i ih =>
    rw [List.foldlM_append] at h
    cases hb : is.foldlM Arguments.take {} with
    | error e =>
      rw [hb] at h
      cases h
    | ok b =>
      rw [hb] at h
      change (b.take i >>= pure) = .ok a at h
      rw [bind_pure] at h
      exact (ih hb).take h

theorem Says.unique (ha : a.Says is) (hb : b.Says is) : a = b := by
  have hbios := ha.bios.trans hb.bios.symm
  have hflash := ha.flash.trans hb.flash.symm
  have hsteps := ha.steps.unique hb.steps
  have hentry : a.config.entry = b.config.entry := by
    obtain ⟨n, hn, haentry⟩ := ha.entry
    obtain ⟨n', hn', hbentry⟩ := hb.entry
    rw [← UInt16.toNat_inj, haentry, hbentry, hn.unique hn']
  have hfrequency := ha.frequency.trans hb.frequency.symm
  have hdirect := Bool.eq_iff_iff.mpr (ha.direct.trans hb.direct.symm)
  have hdebug := Bool.eq_iff_iff.mpr (ha.debug.trans hb.debug.symm)
  have hlog : a.log = b.log := by
    have heq := ha.log.trans hb.log.symm
    revert heq
    cases a.log <;> cases b.log <;> decide
  obtain ⟨_, _, ⟨_, _, _⟩, _, _, _⟩ := a
  obtain ⟨_, _, ⟨_, _, _⟩, _, _, _⟩ := b
  simp_all only

theorem foldlM_take_eq_ok_iff :
    is.foldlM Arguments.take {} = .ok a ↔ (∀ i ∈ is, i.Valid) ∧ a.Says is := by
  constructor
  · intro h
    exact ⟨exists_foldlM_take_iff.mp ⟨a, h⟩, says_of_foldlM_take h⟩
  · rintro ⟨hvalid, ha⟩
    obtain ⟨b, hb⟩ := foldlM_take_of_valid hvalid {}
    rw [hb, (says_of_foldlM_take hb).unique ha]

end Says

end Arguments

/-! ## Options among files -/

namespace Arguments

theorem takeFile_takeSwitch (a : Arguments) (name : String) (option : Switch) :
    (a.takeFile name).takeSwitch option = (a.takeSwitch option).takeFile name := by
  obtain ⟨bios, flash, _, _, _, _⟩ := a
  cases bios <;> cases flash <;> cases option <;> rfl

theorem takeFile_takeSetting (a : Arguments) (name : String) (option : Setting) (n : Nat) :
    (a.takeFile name).takeSetting option n = (a.takeSetting option n).takeFile name := by
  obtain ⟨bios, flash, _, _, _, _⟩ := a
  cases bios <;> cases flash <;> cases option <;> rfl

/-- Options and files do not touch each other. -/
theorem take_takeFile {words : List String} {i : Item} (h : WholeOption words i) (a : Arguments)
    (name : String) : (a.takeFile name).take i = (a.take i).map (·.takeFile name) := by
  cases h with
  | switch option => exact congrArg Except.ok (a.takeFile_takeSwitch name option)
  | setting option value =>
    rw [take, take]
    cases option.read value with
    | ok n => exact congrArg Except.ok (a.takeFile_takeSetting name option n)
    | error e => rfl

theorem foldlM_take_files {words : List String} {i : Item} (h : WholeOption words i)
    (names : List String) (a : Arguments) :
    (names.map Item.file ++ [i]).foldlM take a = (i :: names.map Item.file).foldlM take a := by
  induction names generalizing a with
  | nil => rfl
  | cons name names ih =>
    calc (Item.file name :: (names.map Item.file ++ [i])).foldlM take a
      _ = (names.map Item.file ++ [i]).foldlM take (a.takeFile name) := rfl
      _ = (i :: names.map Item.file).foldlM take (a.takeFile name) := ih _
      _ = (a.take i).map (·.takeFile name) >>= (names.map Item.file).foldlM take := by
        rw [List.foldlM_cons, take_takeFile h]
      _ = (i :: Item.file name :: names.map Item.file).foldlM take a := by
        rw [List.foldlM_cons]
        cases a.take i <;> rfl

theorem parse_move {before option names after : List String} {i : Item}
    (hbefore : ∀ option, .setting option none ∉ items before) (hoption : WholeOption option i)
    (hnames : ∀ name ∈ names, ¬ ['-', '-'] <+: name.toList) :
    parse (before ++ option ++ names ++ after) = parse (before ++ names ++ option ++ after) := by
  have hfiles : ∀ option : Setting, .setting option none ∉ names.map Item.file := by simp
  have hfront : items (before ++ option ++ names ++ after) =
      items before ++ ((i :: names.map Item.file) ++ items after) := by
    rw [List.append_assoc, List.append_assoc]
    exact ((reads_items before).append hbefore (hoption.reads.append hoption.hasValue
      ((reads_files hnames).append hfiles (reads_items after)))).items_eq
  have hback : items (before ++ names ++ option ++ after) =
      items before ++ ((names.map Item.file ++ [i]) ++ items after) := by
    rw [List.append_assoc, List.append_assoc, List.append_assoc]
    exact ((reads_items before).append hbefore ((reads_files hnames).append hfiles
      (hoption.reads.append hoption.hasValue (reads_items after)))).items_eq
  have hmove : ∀ a, ((names.map Item.file ++ [i]) ++ items after).foldlM take a =
      ((i :: names.map Item.file) ++ items after).foldlM take a := by
    intro a
    rw [List.foldlM_append, foldlM_take_files hoption, ← List.foldlM_append]
  rw [parse, parse, hfront, hback, List.foldlM_append, List.foldlM_append]
  simp only [hmove]

end Arguments

/-- **The grammar of the command line.** Arguments can be read as items in one way. They are of use
exactly if nothing is wrong with any item, and then ask for what the items say; otherwise the error
is that of the first item at fault. A whole option can be moved past files. -/
theorem argument_grammar :
    (∀ args, ∃ is, (∀ is', Reads args is' ↔ is' = is) ∧
      ((∃ a, Arguments.parse args = .ok a) ↔ ∀ i ∈ is, i.Valid) ∧
      (∀ a, Arguments.parse args = .ok a ↔ (∀ i ∈ is, i.Valid) ∧ a.Says is) ∧
      ∀ e, Arguments.parse args = .error e ↔
        ∃ before i after, is = before ++ i :: after ∧ (∀ j ∈ before, j.Valid) ∧ i.Fault e) ∧
    ∀ before option names after i, (∀ option, .setting option none ∉ items before) →
      WholeOption option i → (∀ name ∈ names, ¬ ['-', '-'] <+: name.toList) →
      Arguments.parse (before ++ option ++ names ++ after) =
        Arguments.parse (before ++ names ++ option ++ after) := by
  refine ⟨fun args => ⟨items args, fun is' => reads_iff.trans eq_comm,
    Arguments.exists_foldlM_take_iff, fun a => Arguments.foldlM_take_eq_ok_iff,
    fun e => Arguments.foldlM_take_eq_error_iff⟩, ?_⟩
  intro before option names after i hbefore hoption hnames
  exact Arguments.parse_move hbefore hoption hnames

/-- Where the program starts can be said in front of the files or behind them. -/
theorem argument_grammar_entry :
    Arguments.parse ["--steps", "+5", "--entry", "0x0x1F", "-", "card.bin", "--hle"] =
      Arguments.parse ["--steps", "+5", "-", "card.bin", "--entry", "0x0x1F", "--hle"] :=
  argument_grammar.2 ["--steps", "+5"] ["--entry", "0x0x1F"] ["-", "card.bin"] ["--hle"]
    (.setting .entry (some "0x0x1F")) (by rintro (_ | _) <;> decide +kernel) (.setting .entry _)
    (by decide +kernel)

end VisualMemory.CommandLine
