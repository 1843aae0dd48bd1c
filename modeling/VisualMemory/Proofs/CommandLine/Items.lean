import VisualMemory.CommandLine.Arguments

/-!
# The items of a command line

Arguments are read from left to right as items. Here that is a relation, without the reading: an
argument is an option or a file by its form, and a setting takes the argument behind it, whatever
that looks like.

* `Reads`: the items that arguments are; `reads_iff`: there is one way to read them.
* `Reads.append`: items behind items.
* `WholeOption`: the arguments that make up one option.
-/

namespace VisualMemory.CommandLine

/-! ## Items -/

/-- The arguments, from left to right, are these items. -/
inductive Reads : List String → List Item → Prop
  | nil : Reads [] []
  | switch {args is} (option : Switch) (rest : Reads args is) :
    Reads (option.text :: args) (.switch option :: is)
  | setting {args is} (option : Setting) (value : String) (rest : Reads args is) :
    Reads (option.text :: value :: args) (.setting option (some value) :: is)
  /-- A setting at the very end has no value. -/
  | missing (option : Setting) : Reads [option.text] [.setting option none]
  | unknown {args is} (arg : String) (dashes : ['-', '-'] <+: arg.toList)
    (noSwitch : ∀ option : Switch, arg ≠ option.text)
    (noSetting : ∀ option : Setting, arg ≠ option.text) (rest : Reads args is) :
    Reads (arg :: args) (.unknown arg :: is)
  | file {args is} (arg : String) (noDashes : ¬ ['-', '-'] <+: arg.toList) (rest : Reads args is) :
    Reads (arg :: args) (.file arg :: is)

section Items

variable {arg : String} {args : List String} {is : List Item}

theorem isOption_iff : isOption arg = true ↔ ['-', '-'] <+: arg.toList := by
  unfold isOption
  split
  next heq => simp [heq]
  next hne =>
    refine iff_of_false Bool.false_ne_true ?_
    rintro ⟨rest, hrest⟩
    exact hne rest hrest.symm

theorem switch?_text (option : Switch) : switch? option.text = some option := by
  cases option <;> rfl

theorem setting?_text (option : Setting) : setting? option.text = some option := by
  cases option <;> rfl

theorem switch?_setting_text (option : Setting) : switch? option.text = none := by
  cases option <;> rfl

theorem switch?_eq_some {option : Switch} (h : switch? arg = some option) :
    arg = option.text := by
  have := List.find?_some h
  exact (beq_iff_eq.mp this).symm

theorem setting?_eq_some {option : Setting} (h : setting? arg = some option) :
    arg = option.text := by
  have := List.find?_some h
  exact (beq_iff_eq.mp this).symm

theorem switch?_eq_none (h : ∀ option : Switch, arg ≠ option.text) : switch? arg = none :=
  List.find?_eq_none.mpr fun option _ heq => h option (beq_iff_eq.mp heq).symm

theorem setting?_eq_none (h : ∀ option : Setting, arg ≠ option.text) : setting? arg = none :=
  List.find?_eq_none.mpr fun option _ heq => h option (beq_iff_eq.mp heq).symm

theorem isOption_switch_text (option : Switch) : ['-', '-'] <+: option.text.toList := by
  cases option <;> decide

theorem isOption_setting_text (option : Setting) : ['-', '-'] <+: option.text.toList := by
  cases option <;> decide

theorem items_switch (option : Switch) (args : List String) :
    items (option.text :: args) = .switch option :: items args := by
  cases args with
  | nil => simp only [items, switch?_text]
  | cons next args => simp only [items, switch?_text]

theorem items_setting (option : Setting) (value : String) (args : List String) :
    items (option.text :: value :: args) = .setting option (some value) :: items args := by
  rw [items, switch?_setting_text, setting?_text]

theorem items_missing (option : Setting) : items [option.text] = [.setting option none] := by
  rw [items, switch?_setting_text, setting?_text]

theorem items_other (hswitch : switch? arg = none) (hsetting : setting? arg = none) :
    items (arg :: args) = (if isOption arg then .unknown arg else .file arg) :: items args := by
  cases args with
  | nil => simp only [items, hswitch, hsetting]
  | cons next args => simp only [items, hswitch, hsetting]

theorem reads_items (args : List String) : Reads args (items args) := by
  match args with
  | [] => exact .nil
  | arg :: args =>
    cases hswitch : switch? arg with
    | some option =>
      obtain rfl := switch?_eq_some hswitch
      rw [items_switch]
      exact .switch option (reads_items args)
    | none =>
    cases hsetting : setting? arg with
    | some option =>
      obtain rfl := setting?_eq_some hsetting
      match args with
      | [] =>
        rw [items_missing]
        exact .missing option
      | value :: args =>
        rw [items_setting]
        exact .setting option value (reads_items args)
    | none =>
      rw [items_other hswitch hsetting]
      have noSwitch : ∀ option : Switch, arg ≠ option.text := by
        rintro option rfl
        cases hswitch.symm.trans (switch?_text option)
      have noSetting : ∀ option : Setting, arg ≠ option.text := by
        rintro option rfl
        cases hsetting.symm.trans (setting?_text option)
      by_cases hdashes : isOption arg = true
      · rw [if_pos hdashes]
        exact .unknown arg (isOption_iff.mp hdashes) noSwitch noSetting (reads_items args)
      · rw [if_neg hdashes]
        exact .file arg (fun h => hdashes (isOption_iff.mpr h)) (reads_items args)

theorem Reads.items_eq (h : Reads args is) : items args = is := by
  induction h with
  | nil => rfl
  | switch option _ ih => rw [items_switch, ih]
  | setting option value _ ih => rw [items_setting, ih]
  | missing option => exact items_missing option
  | unknown arg dashes noSwitch noSetting _ ih =>
    rw [items_other (switch?_eq_none noSwitch) (setting?_eq_none noSetting),
      if_pos (isOption_iff.mpr dashes), ih]
  | file arg noDashes _ ih =>
    have noSwitch : ∀ option : Switch, arg ≠ option.text := by
      rintro option rfl
      exact noDashes (isOption_switch_text option)
    have noSetting : ∀ option : Setting, arg ≠ option.text := by
      rintro option rfl
      exact noDashes (isOption_setting_text option)
    rw [items_other (switch?_eq_none noSwitch) (setting?_eq_none noSetting),
      if_neg (mt isOption_iff.mp noDashes), ih]

/-- There is one way to read arguments. -/
theorem reads_iff : Reads args is ↔ items args = is := by
  refine ⟨Reads.items_eq, ?_⟩
  rintro rfl
  exact reads_items args

/-- Items behind items: a setting without a value can only be the last thing of all. -/
theorem Reads.append {args' : List String} {is' : List Item} (h : Reads args is)
    (hvalues : ∀ option, .setting option none ∉ is) (h' : Reads args' is') :
    Reads (args ++ args') (is ++ is') := by
  induction h with
  | nil => exact h'
  | switch option _ ih => exact .switch option (ih fun o ho => hvalues o (.tail _ ho))
  | setting option value _ ih => exact .setting option value (ih fun o ho => hvalues o (.tail _ ho))
  | missing option => exact absurd (.head _) (hvalues option)
  | unknown arg dashes noSwitch noSetting _ ih =>
    exact .unknown arg dashes noSwitch noSetting (ih fun o ho => hvalues o (.tail _ ho))
  | file arg noDashes _ ih => exact .file arg noDashes (ih fun o ho => hvalues o (.tail _ ho))

end Items

/-! ## Options and files -/

/-- Arguments that are one option with all that belongs to it. -/
inductive WholeOption : List String → Item → Prop
  | switch (option : Switch) : WholeOption [option.text] (.switch option)
  | setting (option : Setting) (value : String) :
    WholeOption [option.text, value] (.setting option (some value))

theorem WholeOption.reads {words : List String} {i : Item} (h : WholeOption words i) :
    Reads words [i] := by
  cases h with
  | switch option => exact .switch option .nil
  | setting option value => exact .setting option value .nil

theorem WholeOption.hasValue {words : List String} {i : Item} (h : WholeOption words i)
    (option : Setting) : .setting option none ∉ [i] := by
  cases h <;> simp

theorem reads_files {names : List String} (h : ∀ name ∈ names, ¬ ['-', '-'] <+: name.toList) :
    Reads names (names.map Item.file) := by
  induction names with
  | nil => exact .nil
  | cons name names ih =>
    obtain ⟨hname, hnames⟩ := List.forall_mem_cons.mp h
    exact .file name hname (ih hnames)

end VisualMemory.CommandLine
