import Mathlib.Data.Nat.Digits.Defs
import VisualMemory.CommandLine.Number

/-!
# What a number on the command line is

The reading of a number goes digit by digit. Here it is compared with what a number is: a row of
digits that has a value in its base.

* `IsDigit`: which characters are digits, and their values; `digit?_eq_some_iff`.
* `Numeral`: a row of digits with its value. `IsNumber`: the texts of the numbers below a limit.
* `NumberError.Of`: the first thing that is wrong with a text.
* `readNumber_eq_ok_iff`, `readNumber_eq_error_iff`: the reading finds exactly these.
* `dropMarks_eq_iff`: what is left without the marks.
-/

namespace VisualMemory.CommandLine

/-! ## Digits -/

/-- A character stands for a number below sixteen, as a small letter or as a capital one. -/
def IsDigit (c : Char) (d : Nat) : Prop :=
  "0123456789abcdef".toList[d]? = some c ∨ "0123456789ABCDEF".toList[d]? = some c

instance (c : Char) (d : Nat) : Decidable (IsDigit c d) :=
  inferInstanceAs (Decidable (_ ∨ _))

theorem hexDigit?_of_isDigit {c : Char} {d : Nat} (h : IsDigit c d) : hexDigit? c = some d := by
  have small : ∀ d, ∀ h : d < "0123456789abcdef".toList.length,
      hexDigit? ("0123456789abcdef".toList[d]) = some d := by decide
  have capital : ∀ d, ∀ h : d < "0123456789ABCDEF".toList.length,
      hexDigit? ("0123456789ABCDEF".toList[d]) = some d := by decide
  obtain h | h := h
  · obtain ⟨hd, rfl⟩ := List.getElem?_eq_some_iff.mp h
    exact small d hd
  · obtain ⟨hd, rfl⟩ := List.getElem?_eq_some_iff.mp h
    exact capital d hd

theorem isDigit_of_hexDigit? {c : Char} {d : Nat} (h : hexDigit? c = some d) : IsDigit c d := by
  have ascii : ∀ n < 128, ∀ d ∈ hexDigit? (Char.ofNat n), IsDigit (Char.ofNat n) d := by
    decide +kernel
  have hn : c.toNat < 128 := by
    unfold hexDigit? at h
    split at h
    next hc => exact Nat.lt_of_le_of_lt (UInt32.le_iff_toNat_le.mp hc.2) (by decide)
    split at h
    next hc => exact Nat.lt_of_le_of_lt (UInt32.le_iff_toNat_le.mp hc.2) (by decide)
    split at h
    next hc => exact Nat.lt_of_le_of_lt (UInt32.le_iff_toNat_le.mp hc.2) (by decide)
    cases h
  have := ascii c.toNat hn
  rw [Char.ofNat_toNat] at this
  exact this d h

theorem digit?_eq_some_iff {base d : Nat} {c : Char} :
    digit? base c = some d ↔ IsDigit c d ∧ d < base := by
  rw [digit?, Option.filter_eq_some_iff, decide_eq_true_iff]
  exact and_congr_left fun _ => ⟨isDigit_of_hexDigit?, hexDigit?_of_isDigit⟩

theorem digit?_eq_none_iff {base : Nat} {c : Char} :
    digit? base c = none ↔ ∀ d < base, ¬ IsDigit c d := by
  rw [Option.eq_none_iff_forall_ne_some]
  constructor
  · intro h d hd hc
    exact h d (digit?_eq_some_iff.mpr ⟨hc, hd⟩)
  · intro h d hc
    obtain ⟨hc, hd⟩ := digit?_eq_some_iff.mp hc
    exact h d hd hc

/-! ## Rows of digits -/

/-- A row of characters and the values that they have as digits of a base. -/
abbrev Digits (base : Nat) (cs : List Char) (ds : List Nat) : Prop :=
  List.Forall₂ (fun c d => IsDigit c d ∧ d < base) cs ds

/-- A row of digits of a base, and the number that it makes. -/
def Numeral (base : Nat) (cs : List Char) (n : Nat) : Prop :=
  ∃ ds, Digits base cs ds ∧ n = Nat.ofDigits base ds.reverse

/-- The number that digits make behind those that make `value`. -/
def extend (base value : Nat) (ds : List Nat) : Nat :=
  ds.foldl (fun value d => value * base + d) value

theorem extend_zero (base : Nat) (ds : List Nat) :
    extend base 0 ds = Nat.ofDigits base ds.reverse := by
  rw [extend, Nat.ofDigits_eq_foldr, List.foldr_reverse]
  congr 1
  funext value d
  rw [Nat.cast_id, Nat.mul_comm, Nat.add_comm]

theorem numeral_iff {base n : Nat} {cs : List Char} :
    Numeral base cs n ↔ ∃ ds, Digits base cs ds ∧ extend base 0 ds = n := by
  simp only [Numeral, extend_zero, eq_comm]

theorem Digits.le_extend {base : Nat} {cs : List Char} {ds : List Nat} (h : Digits base cs ds)
    (value : Nat) : value ≤ extend base value ds := by
  induction h generalizing value with
  | nil => exact le_rfl
  | cons hc _ ih =>
    have hbase : 0 < base := Nat.zero_lt_of_lt hc.2
    exact (Nat.le_mul_of_pos_right value hbase).trans
      ((Nat.le_add_right _ _).trans (ih _))

/-! ## The reading of digits -/

section Reading

variable {base limit value n : Nat} {cs front back : List Char} {ds : List Nat}

theorem readDigits_append (h : Digits base front ds) (hlimit : extend base value ds < limit) :
    readDigits base limit value (front ++ back) =
      readDigits base limit (extend base value ds) back := by
  induction h generalizing value with
  | nil => rfl
  | @cons c d front ds hc hfront ih =>
    have hnext : value * base + d < limit := (Digits.le_extend hfront _).trans_lt hlimit
    rw [List.cons_append, readDigits, digit?_eq_some_iff.mpr hc]
    simp only [hnext, if_true]
    exact ih hlimit

theorem readDigits_tooLarge (h : Digits base front ds) (hvalue : value < limit)
    (hlimit : limit ≤ extend base value ds) :
    readDigits base limit value (front ++ back) = .error .tooLarge := by
  induction h generalizing value with
  | nil => exact absurd hvalue (Nat.not_lt.mpr hlimit)
  | @cons c d front ds hc _ ih =>
    rw [List.cons_append, readDigits, digit?_eq_some_iff.mpr hc]
    by_cases hnext : value * base + d < limit
    · simp only [hnext, if_true]
      exact ih hnext hlimit
    · simp only [hnext, if_false]

/-- Every text is a row of digits that stays below the limit, or has one in front of something else,
or starts with one that reaches the limit. -/
theorem readDigits_cases (base limit value : Nat) (cs : List Char) :
    (∃ ds, Digits base cs ds ∧ extend base value ds < limit) ∨
      (∃ front c back ds, cs = front ++ c :: back ∧ Digits base front ds ∧
        extend base value ds < limit ∧ digit? base c = none) ∨
      ∃ front back ds, cs = front ++ back ∧ Digits base front ds ∧
        limit ≤ extend base value ds := by
  induction cs generalizing value with
  | nil =>
    by_cases hvalue : value < limit
    · exact .inl ⟨[], .nil, hvalue⟩
    · exact .inr (.inr ⟨[], [], [], rfl, .nil, Nat.le_of_not_lt hvalue⟩)
  | cons c cs ih =>
    by_cases hvalue : limit ≤ value
    · exact .inr (.inr ⟨[], c :: cs, [], rfl, .nil, hvalue⟩)
    cases hc : digit? base c with
    | none => exact .inr (.inl ⟨[], c, cs, [], rfl, .nil, Nat.lt_of_not_le hvalue, hc⟩)
    | some d =>
      have hc := digit?_eq_some_iff.mp hc
      obtain ⟨ds, hcs, h⟩ | ⟨front, c', back, ds, rfl, hfront, h, hc'⟩ |
        ⟨front, back, ds, rfl, hfront, h⟩ := ih (value * base + d)
      · exact .inl ⟨d :: ds, .cons hc hcs, h⟩
      · exact .inr (.inl ⟨c :: front, c', back, d :: ds, rfl, .cons hc hfront, h, hc'⟩)
      · exact .inr (.inr ⟨c :: front, back, d :: ds, rfl, .cons hc hfront, h⟩)

end Reading

/-! ## Numbers and errors -/

/-- A text of a number below a limit: one or more digits, with a plus sign in front if one likes. -/
def IsNumber (base limit : Nat) (cs : List Char) (n : Nat) : Prop :=
  ∃ digits, digits ≠ [] ∧ (cs = digits ∨ cs = '+' :: digits) ∧ Numeral base digits n ∧ n < limit

/-- A text without the plus sign in front of it. -/
def unsigned : List Char → List Char
  | '+' :: cs => cs
  | cs => cs

/-- The first thing that is wrong with a text, from the left. -/
def NumberError.Of (base limit : Nat) (cs : List Char) : NumberError → Prop
  | .empty => cs = []
  | .invalidDigit =>
    cs = ['+'] ∨ ∃ front c back n, unsigned cs = front ++ c :: back ∧ Numeral base front n ∧
      n < limit ∧ ∀ d < base, ¬ IsDigit c d
  | .tooLarge =>
    ∃ front back n, unsigned cs = front ++ back ∧ Numeral base front n ∧ limit ≤ n

section Numbers

variable {base limit n : Nat} {cs : List Char}

theorem eq_unsigned_or (cs : List Char) : cs = unsigned cs ∨ cs = '+' :: unsigned cs := by
  unfold unsigned
  split
  · exact .inr rfl
  · exact .inl rfl

theorem unsigned_of_digit {c : Char} {d : Nat} (h : IsDigit c d) (cs : List Char) :
    unsigned (c :: cs) = c :: cs := by
  unfold unsigned
  split
  next heq =>
    obtain ⟨rfl, -⟩ := List.cons.inj heq
    have hplus : hexDigit? '+' = none := by decide
    cases hplus.symm.trans (hexDigit?_of_isDigit h)
  · rfl

theorem isNumber_iff :
    IsNumber base limit cs n ↔ unsigned cs ≠ [] ∧ Numeral base (unsigned cs) n ∧ n < limit := by
  constructor
  · rintro ⟨digits, hne, rfl | rfl, hdigits, hn⟩
    · obtain ⟨ds, hds, -⟩ := id hdigits
      cases hds with
      | nil => exact absurd rfl hne
      | cons hc _ =>
        rw [unsigned_of_digit hc.1]
        exact ⟨hne, hdigits, hn⟩
    · exact ⟨hne, hdigits, hn⟩
  · rintro ⟨hne, hdigits, hn⟩
    exact ⟨_, hne, eq_unsigned_or cs, hdigits, hn⟩

theorem readNumber_eq_readDigits (h : unsigned cs ≠ []) :
    readNumber base limit cs = readDigits base limit 0 (unsigned cs) := by
  unfold readNumber
  split
  · exact absurd rfl h
  · exact absurd rfl h
  · rfl
  next hplus =>
    rw [unsigned]
    exact hplus

theorem readNumber_of_isNumber (h : IsNumber base limit cs n) :
    readNumber base limit cs = .ok n := by
  obtain ⟨hne, hdigits, hn⟩ := isNumber_iff.mp h
  obtain ⟨ds, hds, rfl⟩ := numeral_iff.mp hdigits
  have hread : readDigits base limit 0 (unsigned cs ++ []) = _ := readDigits_append hds hn
  rw [List.append_nil] at hread
  rw [readNumber_eq_readDigits hne, hread, readDigits]

theorem unsigned_eq_nil_iff : unsigned cs = [] ↔ cs = [] ∨ cs = ['+'] := by
  constructor
  · intro h
    have := eq_unsigned_or cs
    rwa [h] at this
  · rintro (rfl | rfl) <;> rfl

theorem readNumber_of_error {e : NumberError} (hlimit : 0 < limit) (h : e.Of base limit cs) :
    readNumber base limit cs = .error e := by
  cases e with
  | empty =>
    obtain rfl : cs = [] := h
    rfl
  | invalidDigit =>
    obtain rfl | ⟨front, c, back, n, hcs, hfront, hn, hc⟩ := h
    · rfl
    · obtain ⟨ds, hds, rfl⟩ := numeral_iff.mp hfront
      have hne : unsigned cs ≠ [] := by simp [hcs]
      rw [readNumber_eq_readDigits hne, hcs, readDigits_append hds hn, readDigits,
        digit?_eq_none_iff.mpr hc]
  | tooLarge =>
    obtain ⟨front, back, n, hcs, hfront, hn⟩ := h
    obtain ⟨ds, hds, rfl⟩ := numeral_iff.mp hfront
    have hne : unsigned cs ≠ [] := by
      intro hnil
      obtain ⟨rfl, -⟩ := List.append_eq_nil_iff.mp (hcs.symm.trans hnil)
      cases hds
      exact absurd hlimit (Nat.not_lt.mpr hn)
    rw [readNumber_eq_readDigits hne, hcs, readDigits_tooLarge hds hlimit hn]

theorem isNumber_or_error (base limit : Nat) (cs : List Char) :
    (∃ n, IsNumber base limit cs n) ∨ ∃ e : NumberError, e.Of base limit cs := by
  by_cases hne : unsigned cs = []
  · obtain rfl | rfl := unsigned_eq_nil_iff.mp hne
    · exact .inr ⟨.empty, rfl⟩
    · exact .inr ⟨.invalidDigit, .inl rfl⟩
  obtain ⟨ds, hds, hn⟩ | ⟨front, c, back, ds, hcs, hds, hn, hc⟩ | ⟨front, back, ds, hcs, hds, hn⟩ :=
    readDigits_cases base limit 0 (unsigned cs)
  · exact .inl ⟨_, isNumber_iff.mpr ⟨hne, numeral_iff.mpr ⟨ds, hds, rfl⟩, hn⟩⟩
  · exact .inr ⟨.invalidDigit, .inr ⟨front, c, back, _, hcs, numeral_iff.mpr ⟨ds, hds, rfl⟩, hn,
      digit?_eq_none_iff.mp hc⟩⟩
  · exact .inr ⟨.tooLarge, front, back, _, hcs, numeral_iff.mpr ⟨ds, hds, rfl⟩, hn⟩

theorem readNumber_eq_ok_iff (hlimit : 0 < limit) :
    readNumber base limit cs = .ok n ↔ IsNumber base limit cs n := by
  refine ⟨fun h => ?_, readNumber_of_isNumber⟩
  obtain ⟨n', hn⟩ | ⟨e, he⟩ := isNumber_or_error base limit cs
  · cases h.symm.trans (readNumber_of_isNumber hn)
    exact hn
  · cases h.symm.trans (readNumber_of_error hlimit he)

theorem readNumber_eq_error_iff {e : NumberError} (hlimit : 0 < limit) :
    readNumber base limit cs = .error e ↔ e.Of base limit cs := by
  refine ⟨fun h => ?_, readNumber_of_error hlimit⟩
  obtain ⟨n, hn⟩ | ⟨e', he⟩ := isNumber_or_error base limit cs
  · cases h.symm.trans (readNumber_of_isNumber hn)
  · cases h.symm.trans (readNumber_of_error hlimit he)
    exact he

end Numbers

/-! ## Marks -/

theorem dropMarks_eq_iff {cs rest : List Char} :
    dropMarks cs = rest ↔
      ∃ marks, cs = (List.replicate marks ['0', 'x']).flatten ++ rest ∧ ¬ ['0', 'x'] <+: rest := by
  constructor
  · rintro rfl
    fun_induction dropMarks cs with
    | case1 cs ih =>
      obtain ⟨marks, hcs, hrest⟩ := ih
      refine ⟨marks + 1, ?_, hrest⟩
      rw [List.replicate_succ, List.flatten_cons, List.append_assoc, ← hcs]
      rfl
    | case2 cs hmark =>
      refine ⟨0, rfl, ?_⟩
      rintro ⟨tail, rfl⟩
      exact hmark tail rfl
  · rintro ⟨marks, rfl, hrest⟩
    induction marks with
    | zero =>
      rw [List.replicate_zero, List.flatten_nil, List.nil_append]
      unfold dropMarks
      split
      · exact absurd ⟨_, rfl⟩ hrest
      · rfl
    | succ marks ih => exact ih

end VisualMemory.CommandLine
