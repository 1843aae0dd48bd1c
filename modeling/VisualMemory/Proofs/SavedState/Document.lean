import Mathlib.Data.List.Nodup
import VisualMemory.Document

/-!
# Laws of documents

What is written as a document is read from it as it was, if that is so for its parts. And the
members of a record are found by their names, so neither their order nor others beside them matter.

* `Document.Faithful`: a reader undoes a writer; for bytes, words, truth values, named values,
  optional values and vectors.
* `Document.members?_record`: the members of a record whose names differ.
* `Document.SeesOnly`: a reader that looks at some members of a record and at nothing else.
-/

namespace VisualMemory.Document

/-- What is written is read as what it was. -/
def Faithful {α : Type} (write : α → Document) (read : Document → Option α) : Prop :=
  ∀ v, read (write v) = some v

/-! ## Plain values -/

theorem natural?_integer (n : Nat) : natural? (integer n) = some n := by
  simp [natural?]

theorem byte?_ofByte : Faithful ofByte byte? := by
  intro b
  have hlt : b.toNat < 0x100 := b.toNat_lt
  simp [byte?, ofByte, natural?_integer, Option.filter, hlt]

theorem word?_ofWord : Faithful ofWord word? := by
  intro w
  have hlt : w.toNat < 0x10000 := w.toNat_lt
  simp [word?, ofWord, natural?_integer, Option.filter, hlt]

theorem boolean?_boolean : Faithful boolean boolean? :=
  fun _ => rfl

theorem oneOf?_text {α : Type} {values : List α} {name : α → String}
    (hnames : (values.map name).Nodup) {v : α} (hv : v ∈ values) :
    oneOf? values name (text (name v)) = some v := by
  change values.find? (fun w => name w == name v) = some v
  cases hfind : values.find? (fun w => name w == name v) with
  | none => exact absurd (beq_self_eq_true (name v)) (List.find?_eq_none.mp hfind v hv)
  | some w =>
    have hw : name w = name v := by simpa using List.find?_some hfind
    rw [List.inj_on_of_nodup_map hnames (List.mem_of_find?_eq_some hfind) hv hw]

/-! ## Values that may be missing, and lists -/

section Parts

variable {α : Type} {write : α → Document} {read : Document → Option α}

theorem optional?_of_some (h : Faithful write read) (v : α) (hv : write v ≠ null) :
    optional? read (write v) = some (some v) := by
  unfold optional?
  split
  next hnull => exact absurd hnull hv
  · rw [h v]
    rfl

/-- Nothing is told from every value that is not written as nothing. -/
theorem optional?_elim (h : Faithful write read) (hnull : ∀ v, write v ≠ null) :
    Faithful (fun o : Option α => o.elim null write) (optional? read) := by
  intro o
  cases o with
  | none => rfl
  | some v => exact optional?_of_some h v (hnull v)

theorem mapM_map (h : Faithful write read) (values : List α) :
    (values.map write).mapM read = some values := by
  induction values with
  | nil => rfl
  | cons v values ih => simp [List.mapM_cons, h v, ih]

theorem vector?_ofVector (h : Faithful write read) (n : Nat) :
    Faithful (ofVector write) (vector? n read) := by
  intro values
  have hlength : values.toList.length = n := values.length_toList
  rw [ofVector, vector?, mapM_map h, Option.bind_some, dif_pos hlength]
  exact congrArg some (Vector.toList_inj.mp (by simp))

end Parts

/-! ## Records -/

section Records

variable {members members' others : List (String × Document)} {name : String} {d : Document}

theorem filter_name_eq_nil (h : name ∉ members.map (·.1)) :
    members.filter (·.1 == name) = [] := by
  rw [List.filter_eq_nil_iff]
  intro member hmember heq
  exact h (List.mem_map.mpr ⟨member, hmember, beq_iff_eq.mp heq⟩)

theorem filter_name (hnames : (members.map (·.1)).Nodup) (h : (name, d) ∈ members) :
    members.filter (·.1 == name) = [(name, d)] := by
  induction members with
  | nil => cases h
  | cons member members ih =>
    obtain ⟨hfirst, hrest⟩ := List.nodup_cons.mp hnames
    cases h with
    | head => simp [filter_name_eq_nil hfirst]
    | tail _ hmem =>
      have hne : member.1 ≠ name := by
        rintro rfl
        exact hfirst (List.mem_map.mpr ⟨_, hmem, rfl⟩)
      simp [hne, ih hrest hmem]

theorem member?_of_mem (hnames : (members.map (·.1)).Nodup) (h : (name, d) ∈ members) :
    member? members name = some (some d) := by
  rw [member?, filter_name hnames h]

theorem members?_record {names : List String} (hnames : members.map (·.1) = names)
    (hnodup : names.Nodup) : (record members).members? names = some (members.map (some ·.2)) := by
  subst hnames
  -- The members that are looked for get fewer, and the record stays whole.
  suffices h : ∀ found : List (String × Document), found ⊆ members →
      (found.map (·.1)).mapM (member? members) = some (found.map (some ·.2)) from
    h members (List.Subset.refl _)
  intro found hsub
  induction found with
  | nil => rfl
  | cons member found ih =>
    obtain ⟨hmember, hfound⟩ := List.cons_subset.mp hsub
    simp [List.mapM_cons, member?_of_mem hnodup hmember, ih hfound]

theorem member?_perm (h : members'.Perm members) (name : String) :
    member? members' name = member? members name := by
  have hfilter := h.filter (·.1 == name)
  unfold member?
  generalize members'.filter (·.1 == name) = found' at hfilter
  generalize members.filter (·.1 == name) = found at hfilter
  -- No member and one member have one order only; of two or more neither record makes anything.
  match found with
  | [] => rw [hfilter.eq_nil]
  | [member] => rw [List.perm_singleton.mp hfilter]
  | _ :: _ :: _ =>
    match found', hfilter.length_eq with
    | _ :: _ :: _, _ => rfl

theorem member?_append_of_not_mem (h : name ∉ others.map (·.1)) :
    member? (members ++ others) name = member? members name := by
  rw [member?, member?, List.filter_append, filter_name_eq_nil h, List.append_nil]

theorem members?_perm {names : List String} (h : members'.Perm (members ++ others))
    (hothers : ∀ name ∈ names, name ∉ others.map (·.1)) :
    (record members').members? names = (record members).members? names := by
  change names.mapM (member? members') = names.mapM (member? members)
  induction names with
  | nil => rfl
  | cons name names ih =>
    obtain ⟨hname, hnames⟩ := List.forall_mem_cons.mp hothers
    have hmember : member? members' name = member? members name :=
      (member?_perm h name).trans (member?_append_of_not_mem hname)
    rw [List.mapM_cons, List.mapM_cons, hmember, ih hnames]

end Records

/-- A reader looks at the members of a record that have some names: neither their order nor other
members matter. -/
def SeesOnly {α : Type} (names : List String) (read : Document → Option α) : Prop :=
  ∀ members others members', List.Perm members' (members ++ others) →
    (∀ name ∈ names, name ∉ others.map (·.1)) → read (record members') = read (record members)

theorem seesOnly_of_members? {α : Type} {names : List String} {read : Document → Option α}
    (h : ∀ d d' : Document, d.members? names = d'.members? names → read d = read d') :
    SeesOnly names read :=
  fun _ _ _ hperm hothers => h _ _ (members?_perm hperm hothers)

end VisualMemory.Document
