import VisualMemory.Interrupt.Controller

/-!
# Laws of the interrupt controller

* `Controller.bit`: a bit of the pending word. `bit_raise`, `bit_foldl_raise`: requests only set them.
  `bit_lower`, `bit_foldl_lower_of_ne`: only those of its source are cleared when one is taken back.
* `Controller.isPending_lower`: requests of different sources do not touch each other.
* `Controller.isPending_foldl_raise`, `Controller.isPending_foldl_lower`: many at once.
* `Source.toNat_vector`: the vectors as numbers.
-/

namespace VisualMemory.Interrupt

namespace Source

theorem index_inj {s t : Source} : s.index.toNat = t.index.toNat ↔ s = t := by
  cases s <;> cases t <;> decide

theorem index_lt (s : Source) : s.index.toNat < 16 := by
  cases s <;> decide

theorem mem_all (s : Source) : s ∈ all := by
  cases s <;> decide

theorem nodup_all : all.Nodup := by
  decide

/-- In the order of priority the vectors lie eight bytes apart, from 3 on, but for that of the
reset. -/
theorem toNat_vector : all.map (·.vector.toNat) = 0 :: (List.range 10).map (8 * · + 3) := by
  decide

end Source

namespace Controller

theorem toBitVec_mask (s : Source) : (mask s).toBitVec = BitVec.twoPow 16 s.index.toNat := by
  cases s <;> rfl

theorem isPending_eq_getLsbD (c : Controller) (s : Source) :
    c.isPending s = c.word.toBitVec.getLsbD s.index.toNat := by
  have hne : BitVec.twoPow 16 s.index.toNat ≠ (0 : UInt16).toBitVec := by
    cases s <;> decide
  rw [isPending, Bool.eq_iff_iff, bne_iff_ne, ne_eq, ← UInt16.toBitVec_inj, UInt16.toBitVec_and,
    toBitVec_mask, BitVec.and_twoPow]
  split
  · rename_i h
    exact ⟨fun _ => h, fun _ => hne⟩
  · rename_i h
    exact ⟨fun h' => absurd rfl h', fun h' => absurd h' h⟩

/-- A bit of the pending word, whether it belongs to a source or not. -/
def bit (c : Controller) (i : Nat) : Bool :=
  c.word.toBitVec.getLsbD i

theorem bit_raise (c : Controller) (s : Source) (i : Nat) :
    (c.raise s).bit i = (c.bit i || decide (s.index.toNat = i)) := by
  rw [bit, raise, UInt16.toBitVec_or, toBitVec_mask, BitVec.getLsbD_or, BitVec.getLsbD_twoPow]
  simp [bit, s.index_lt]

theorem bit_foldl_raise (l : List Source) (c : Controller) (i : Nat) :
    (l.foldl (·.raise ·) c).bit i = true ↔ c.bit i = true ∨ ∃ s ∈ l, s.index.toNat = i := by
  induction l generalizing c with
  | nil => simp
  | cons s l ih =>
    rw [List.foldl_cons, ih, bit_raise, Bool.or_eq_true, decide_eq_true_iff, or_assoc]
    simp only [List.mem_cons, exists_eq_or_imp]

theorem bit_lower (c : Controller) (s : Source) (i : Nat) :
    (c.lower s).bit i = (c.bit i && !decide (s.index.toNat = i)) := by
  rw [bit, bit, lower, UInt16.toBitVec_and, UInt16.toBitVec_not, toBitVec_mask,
    BitVec.getLsbD_and, BitVec.getLsbD_not, BitVec.getLsbD_twoPow]
  by_cases h : i < 16
  · simp [h, s.index_lt]
  · simp [BitVec.getLsbD_of_ge _ i (Nat.le_of_not_lt h)]

theorem bit_foldl_lower_of_ne {l : List Source} (c : Controller) {i : Nat}
    (h : ∀ s ∈ l, s.index.toNat ≠ i) : (l.foldl (·.lower ·) c).bit i = c.bit i := by
  induction l generalizing c with
  | nil => rfl
  | cons s l ih =>
    have hs : s.index.toNat ≠ i := h s (List.mem_cons_self ..)
    rw [List.foldl_cons, ih _ fun t ht => h t (List.mem_cons_of_mem s ht), bit_lower,
      decide_eq_false hs, Bool.not_false, Bool.and_true]

theorem isPending_empty (s : Source) : isPending {} s = false := by
  cases s <;> decide

theorem isPending_lower (c : Controller) (s t : Source) :
    (c.lower s).isPending t = (c.isPending t && !decide (s = t)) := by
  rw [isPending_eq_getLsbD, isPending_eq_getLsbD, ← decide_eq_decide.mpr Source.index_inj]
  exact bit_lower c s _

theorem isPending_foldl_raise (l : List Source) (c : Controller) (t : Source) :
    (l.foldl (·.raise ·) c).isPending t = true ↔ c.isPending t = true ∨ t ∈ l := by
  rw [isPending_eq_getLsbD, isPending_eq_getLsbD]
  refine (bit_foldl_raise l c _).trans (or_congr_right ?_)
  simp only [Source.index_inj, exists_eq_right]

theorem isPending_foldl_lower (l : List Source) (c : Controller) (t : Source) :
    (l.foldl (·.lower ·) c).isPending t = true ↔ c.isPending t = true ∧ t ∉ l := by
  induction l generalizing c with
  | nil => simp
  | cons s l ih =>
    rw [List.foldl_cons, ih, isPending_lower, Bool.and_eq_true, Bool.not_eq_true',
      decide_eq_false_iff_not, List.mem_cons, not_or, and_assoc, eq_comm (a := s)]

theorem mem_pending {c : Controller} {s : Source} : s ∈ c.pending ↔ c.isPending s = true := by
  rw [pending, List.mem_filter]
  exact ⟨fun h => h.2, fun h => ⟨s.mem_all, h⟩⟩

theorem nodup_pending (c : Controller) : c.pending.Nodup :=
  Source.nodup_all.filter _

end Controller

end VisualMemory.Interrupt
