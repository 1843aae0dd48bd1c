import Mathlib.Algebra.Order.Floor.Div
import VisualMemory.Byte

/-!
# Countdowns

Counters go up to their last value and start again. What is left until then goes down by one at each
step, and that is the same law for every counter, whatever it counts by.

* `CountsDown`: the law, with the value from which a count starts again. `CountsDown.ends_again_iff`:
  the time from the end of a count to the next.
* `CountsDown.ends_iff_exists`, `CountsDown.ends_iff_dvd`: all ends, if the counts after the first
  start from the same value.
* `chainLeft`: what is left of two counters of which one counts the ends of the other;
  `chainLeft_step`: together they are one counter.
* `UInt16.room`: what is left of a counter of one byte. `UInt16.pairs`: the same, if it counts by two.
* `UInt16.counts_up`: a counter of one byte that always restarts from the same value.
-/

namespace VisualMemory

/-- What is left goes down by one at each step. When one is left the step ends the count, and the
next count starts from a reload value. -/
def CountsDown (left reload : Nat → Nat) : Prop :=
  ∀ k, left (k + 1) = if left k = 1 then reload k else left k - 1

namespace CountsDown

section

variable {left reload : Nat → Nat} (h : CountsDown left reload)

include h

theorem eq_sub {k j : Nat} (hj : j < left k) : left (k + j) = left k - j := by
  induction j with
  | zero => rfl
  | succ j ih =>
    have hprev : left (k + j) = left k - j := ih (Nat.lt_of_succ_lt hj)
    have hne : left (k + j) ≠ 1 := by omega
    rw [← Nat.add_assoc, h, if_neg hne, hprev]
    omega

theorem ends_iff {k j : Nat} (hj : j < left k) : left (k + j) = 1 ↔ j + 1 = left k := by
  rw [h.eq_sub hj]
  omega

/-- From the end of a count to the next it takes as many steps as the reload value says. -/
theorem ends_again_iff {k j : Nat} (hk : left k = 1) (hkj : k < j) (hj : j ≤ k + reload k) :
    left j = 1 ↔ j = k + reload k := by
  obtain ⟨i, rfl⟩ := Nat.exists_eq_add_of_lt hkj
  have hstart : left (k + 1) = reload k := by rw [h, if_pos hk]
  have hi : i < left (k + 1) := by omega
  rw [show k + i + 1 = k + 1 + i by omega, h.ends_iff hi]
  omega

end

/-! ## Periods -/

section

variable {left : Nat → Nat} {period : Nat} (h : CountsDown left fun _ => period)
  (hperiod : 0 < period)

include h hperiod

theorem exists_end (hfirst : 0 < left 0) (k : Nat) :
    0 < left k ∧ ∃ m, k + left k = left 0 + m * period ∧ (m = 0 ∨ left k ≤ period) := by
  induction k with
  | zero => exact ⟨hfirst, 0, by omega, .inl rfl⟩
  | succ k ih =>
    obtain ⟨hpos, m, hm, hle⟩ := ih
    have hnext : left (k + 1) = if left k = 1 then period else left k - 1 := h k
    by_cases hend : left k = 1
    · rw [hnext, if_pos hend]
      exact ⟨hperiod, m + 1, by rw [Nat.add_one_mul]; omega, .inr (Nat.le_refl _)⟩
    · rw [hnext, if_neg hend]
      exact ⟨by omega, m, by omega, by omega⟩

/-- A count ends at the first end, and then once in every period. -/
theorem ends_iff_exists (hfirst : 0 < left 0) (k : Nat) :
    left k = 1 ↔ ∃ m, k + 1 = left 0 + m * period := by
  obtain ⟨hpos, m, hm, hle⟩ := h.exists_end hperiod hfirst k
  constructor
  · intro hend
    exact ⟨m, by omega⟩
  · rintro ⟨n, hn⟩
    -- another end than the next one is a whole period away from it
    rcases Nat.lt_trichotomy n m with hlt | rfl | hlt
    · have hgap := Nat.mul_le_mul_right period (Nat.succ_le_of_lt hlt)
      rw [Nat.succ_mul] at hgap
      omega
    · omega
    · have hgap := Nat.mul_le_mul_right period (Nat.succ_le_of_lt hlt)
      rw [Nat.succ_mul] at hgap
      omega

variable (hfirst : left 0 = period)

include hfirst

theorem ends_iff_dvd (k : Nat) : left k = 1 ↔ period ∣ k + 1 := by
  rw [h.ends_iff_exists hperiod (hfirst ▸ hperiod), hfirst]
  constructor
  · rintro ⟨m, hm⟩
    exact ⟨m + 1, by rw [hm, Nat.mul_add_one, Nat.mul_comm, Nat.add_comm]⟩
  · rintro ⟨m, hm⟩
    cases m with
    | zero => simp at hm
    | succ m => exact ⟨m, by rw [hm, Nat.mul_add_one, Nat.mul_comm, Nat.add_comm]⟩

theorem add_mod (k : Nat) : left k + k % period = period := by
  obtain ⟨hpos, m, hm, hle⟩ := h.exists_end hperiod (hfirst ▸ hperiod) k
  have hleft : left k ≤ period := by
    rcases hle with rfl | hle
    · omega
    · exact hle
  have hk : k = m * period + (period - left k) := by omega
  have hlt : period - left k < period := by omega
  calc
    left k + k % period
      = left k + (m * period + (period - left k)) % period := by rw [← hk]
    _ = left k + (period - left k) := by rw [Nat.mul_add_mod', Nat.mod_eq_of_lt hlt]
    _ = period := Nat.add_sub_cancel' hleft

end

end CountsDown

/-! ## Chains -/

/-- What is left of a slow counter that counts the ends of a fast one: `a` is left of the fast one,
whose period is `w`, and `b` of the slow one. -/
def chainLeft (w a b : Nat) : Nat :=
  a + (b - 1) * w

/-- All of a chain is left before both counters have moved. -/
theorem chainLeft_self {b : Nat} (hb : 0 < b) (w : Nat) : chainLeft w w b = w * b := by
  obtain ⟨n, rfl⟩ := Nat.exists_eq_add_one.mpr hb
  rw [chainLeft, Nat.add_sub_cancel, Nat.mul_add_one, Nat.mul_comm, Nat.add_comm]

section

variable {w a b : Nat} (hw : 0 < w) (ha : 0 < a) (hb : 0 < b)

include hw ha hb

theorem chainLeft_eq_one_iff : chainLeft w a b = 1 ↔ a = 1 ∧ b = 1 := by
  unfold chainLeft
  constructor
  · intro h
    have hzero : (b - 1) * w = 0 := by omega
    rcases Nat.mul_eq_zero.mp hzero with h0 | h0
    · omega
    · omega
  · rintro ⟨rfl, rfl⟩
    simp

/-- A chain counts down as a whole: ends of the fast counter alone are steps like all others. -/
theorem chainLeft_step {a' b' x y : Nat}
    (ha' : a' = if a = 1 then if b = 1 then x else w else a - 1)
    (hb' : b' = if a = 1 then if b = 1 then y else b - 1 else b) :
    chainLeft w a' b' =
      if chainLeft w a b = 1 then chainLeft w x y else chainLeft w a b - 1 := by
  rw [if_congr (chainLeft_eq_one_iff hw ha hb) rfl rfl, ha', hb']
  by_cases hfast : a = 1
  · by_cases hslow : b = 1
    · simp [hfast, hslow]
    · obtain ⟨n, rfl⟩ : ∃ n, b = n + 2 := ⟨b - 2, by omega⟩
      simp [hfast, chainLeft, Nat.add_one_mul]
      omega
  · simp [hfast, chainLeft]
    omega

end

end VisualMemory

/-! ## Bytes in words -/

namespace UInt16

/-- What is left of a counter until it passes the last byte: the steps that it takes. -/
def room (count : UInt16) : Nat :=
  256 - count.toNat

/-- What is left of a counter that counts by two. -/
def pairs (count : UInt16) : Nat :=
  count.room ⌈/⌉ 2

theorem room_toUInt16 (r : UInt8) : r.toUInt16.room = 256 - r.toNat := by
  rw [room, UInt8.toNat_toUInt16]

theorem pairs_eq (x : UInt16) : x.pairs = (x.room + 1) / 2 :=
  Nat.ceilDiv_eq_add_pred_div ..

section

variable {x : UInt16} (h : x ≤ 0xFF)

include h

theorem room_pos : 0 < x.room := by
  have hle : x.toNat ≤ 255 := h
  unfold room
  omega

theorem room_eq_one_iff : x.room = 1 ↔ x = 0xFF := by
  have hle : x.toNat ≤ 255 := h
  rw [room, ← UInt16.toNat_inj]
  show 256 - x.toNat = 1 ↔ x.toNat = 255
  omega

theorem toNat_add_one : (x + 1).toNat = x.toNat + 1 := by
  have hle : x.toNat ≤ 255 := h
  rw [UInt16.toNat_add]
  show (x.toNat + 1) % 65536 = x.toNat + 1
  omega

theorem toNat_add_two : (x + 2).toNat = x.toNat + 2 := by
  have hle : x.toNat ≤ 255 := h
  rw [UInt16.toNat_add]
  show (x.toNat + 2) % 65536 = x.toNat + 2
  omega

theorem room_add_one : (x + 1).room = x.room - 1 := by
  rw [room, room, toNat_add_one h]
  omega

theorem room_next (r : UInt8) : (if x = 0xFF then r.toUInt16 else x + 1).room =
    if x.room = 1 then 256 - r.toNat else x.room - 1 := by
  by_cases hlast : x = 0xFF
  · rw [if_pos hlast, if_pos ((room_eq_one_iff h).mpr hlast), room_toUInt16]
  · rw [if_neg hlast, if_neg fun hone => hlast ((room_eq_one_iff h).mp hone), room_add_one h]

theorem pairs_pos : 0 < x.pairs := by
  have hpos := room_pos h
  rw [pairs_eq]
  omega

theorem pairs_eq_one_iff : x.pairs = 1 ↔ 0xFE ≤ x := by
  have hle : x.toNat ≤ 255 := h
  rw [pairs_eq, room, UInt16.le_iff_toNat_le]
  show (256 - x.toNat + 1) / 2 = 1 ↔ 254 ≤ x.toNat
  omega

theorem pairs_add_two : (x + 2).pairs = x.pairs - 1 := by
  rw [pairs_eq, pairs_eq, room, room, toNat_add_two h]
  omega

end

/-- A counter that starts from its reload value, and again whenever it has come to the last byte, is
there at the multiples of its period. -/
theorem counts_up {x : Nat → UInt16} {r : UInt8} (hle : ∀ k, x k ≤ 0xFF)
    (hfirst : x 0 = r.toUInt16)
    (hnext : ∀ k, x (k + 1) = if x k = 0xFF then r.toUInt16 else x k + 1) (k : Nat) :
    (x k = 0xFF ↔ 256 - r.toNat ∣ k + 1) ∧ (x k).toNat = r.toNat + k % (256 - r.toNat) := by
  have hr := r.toNat_lt
  have hperiod : 0 < 256 - r.toNat := Nat.sub_pos_of_lt hr
  have hcounts : VisualMemory.CountsDown (fun k => (x k).room) fun _ => 256 - r.toNat := by
    intro k
    simp only [hnext, room_next (hle k)]
  have hstart : (x 0).room = 256 - r.toNat := by rw [hfirst, room_toUInt16]
  constructor
  · rw [← room_eq_one_iff (hle k)]
    exact hcounts.ends_iff_dvd hperiod hstart k
  · have hmod := hcounts.add_mod hperiod hstart k
    have hroom := room_pos (hle k)
    simp only [room] at hmod hroom
    omega

end UInt16
