import VisualMemory.Proofs.Timer.Order
import VisualMemory.Proofs.Timer.Setting

/-!
# The divider's time

Timer 0 is clocked through a divider, whose reload register a program may rewrite between any two
cycles. The divider reads it only when it lets a cycle through.

* `Timer.afterCycles`: a timer after a number of cycles, each with a memory of its own.
* `Timer.cyclesLeft`: what is left until the divider lets a cycle through, and
  `cyclesLeft_countsDown`, that this counts down, from the reload value of the cycle let through.
* `afterCycles_congr`: memories make a difference only at clocks.
* `Beats`, `Timer.beatLeft`: the low half behind the divider; `beats_step`: both are one counter.
* `divider_timing`: the times of the clocks, and of the requests that come of them.
-/

namespace VisualMemory.Timer

open Interrupt (Controller)

/-- The timer after `k` cycles of the processor; the next cycle sees the memory `seen k`. Requests
that there are already make no difference to it. -/
def afterCycles (t : Timer) (seen : Nat → Ram) : Nat → Timer
  | 0 => t
  | k + 1 => ((t.afterCycles seen k).step (seen k) {}).timer

/-- The cycles until the timer is clocked; without a divider the next one always is a clock. -/
def cyclesLeft (t : Timer) : Nat :=
  t.prescaler.elim 1 (·.count.room)

/-! ## One cycle -/

section

variable {t : Timer} {ram : Ram}

theorem step_eq_ite (t : Timer) (ram : Ram) (c : Controller) : t.step ram c =
    if t.fires ram then (t.divided ram).tick ram c
    else { timer := t.divided ram, ram, interrupts := c, signals := [] } := by
  rw [step_eq_stepOn]
  rfl

theorem step_of_fires (h : t.fires ram = true) (c : Controller) :
    t.step ram c = (t.divided ram).tick ram c := by
  rw [step_eq_ite, if_pos h]

theorem step_of_not_fires (h : ¬ t.fires ram = true) (c : Controller) :
    t.step ram c = { timer := t.divided ram, ram, interrupts := c, signals := [] } := by
  rw [step_eq_ite, if_neg h]

theorem stepRaised_eq : t.stepRaised ram = if t.fires ram then t.tickRaised ram else [] := by
  unfold stepRaised fires
  cases t.prescaler <;> rfl

theorem cyclesLeft_step (c : Controller) :
    (t.step ram c).timer.cyclesLeft = (t.divided ram).cyclesLeft := by
  by_cases h : t.fires ram = true
  · rw [step_of_fires h]
    rfl
  · rw [step_of_not_fires h]

end

theorem Prescaler.step_eq {p : Prescaler} (h : p.count ≤ 0xFF) (reload : UInt8) :
    p.step reload =
      if p.count.room = 1 then (⟨reload.toUInt16⟩, true) else (⟨p.count + 1⟩, false) := by
  have hover : p.count + 1 > 0xFF ↔ p.count.room = 1 := by
    rw [UInt16.room_eq_one_iff h, ← decide_eq_decide]
    exact isOver_add_one h 0
  rw [Prescaler.step]
  exact if_congr hover rfl rfl

section

variable {t : Timer} (hle : ∀ p, t.prescaler = some p → p.count ≤ 0xFF)

include hle

theorem cyclesLeft_pos : 0 < t.cyclesLeft := by
  unfold cyclesLeft
  cases hp : t.prescaler with
  | none => exact Nat.one_pos
  | some p => exact UInt16.room_pos (hle p hp)

theorem fires_iff (ram : Ram) : t.fires ram = true ↔ t.cyclesLeft = 1 := by
  unfold fires cyclesLeft
  cases hp : t.prescaler with
  | none => simp
  | some p =>
    simp [Prescaler.step_eq (hle p hp), apply_ite Prod.snd]

theorem cyclesLeft_divided (hdivided : t.prescaler.isSome = true) (ram : Ram) :
    (t.divided ram).cyclesLeft =
      if t.cyclesLeft = 1 then 256 - (ram.readRaw Register.t0prr.toNat).toNat
      else t.cyclesLeft - 1 := by
  obtain ⟨p, hp⟩ := Option.isSome_iff_exists.mp hdivided
  have hcount := hle p hp
  simp only [divided, cyclesLeft, hp, Option.map_some, Option.elim_some, Prescaler.step_eq hcount,
    apply_ite Prod.fst, apply_ite Prescaler.count, apply_ite UInt16.room, UInt16.room_toUInt16,
    UInt16.room_add_one hcount]

theorem divided_congr {ram : Ram} (h : ¬ t.fires ram = true) (ram' : Ram) :
    t.divided ram' = t.divided ram := by
  rw [fires_iff hle] at h
  unfold divided
  cases hp : t.prescaler with
  | none => rfl
  | some p =>
    have hroom : ¬ p.count.room = 1 := by
      rw [cyclesLeft, hp] at h
      exact h
    simp only [Option.map_some, Prescaler.step_eq (hle p hp), if_neg hroom]

end

/-! ## Timer 0 -/

/-- The timer is timer 0 as it can be between two cycles. -/
structure IsZero (t : Timer) : Prop where
  sound : t.Sound .timer0
  wired : t.WiredAs zero

theorem IsZero.seesSame {t : Timer} (ht : t.IsZero) {ram ram' : Ram}
    (h : zero.SeesSame ram ram') : t.SeesSame ram ram' := by
  have hlayout : t.layout = zero.layout := ht.wired.layout
  obtain ⟨hcontrol, hlow, hhigh, hcascade, hdivider⟩ := h
  rw [← hlayout] at hcontrol hlow hhigh hcascade
  exact ⟨hcontrol, hlow, hhigh, hcascade, hdivider⟩

theorem isZero_afterCycles (seen : Nat → Ram) (k : Nat) : (zero.afterCycles seen k).IsZero := by
  induction k with
  | zero => exact ⟨sound_zero, rfl, rfl, rfl⟩
  | succ k ih => exact ⟨sound_step ih.sound .., ih.wired.step ..⟩

section

variable (seen : Nat → Ram)

theorem cyclesLeft_countsDown :
    CountsDown (fun k => (zero.afterCycles seen k).cyclesLeft)
      fun k => 256 - ((seen k).readRaw Register.t0prr.toNat).toNat := by
  intro k
  have h := isZero_afterCycles seen k
  exact (cyclesLeft_step {}).trans (cyclesLeft_divided h.sound.prescaler_le h.wired.divided (seen k))

/-- Memories that differ only while the timer is not clocked make no difference. -/
theorem afterCycles_congr {seen' : Nat → Ram}
    (h : ∀ k, (zero.afterCycles seen k).fires (seen k) = true → zero.SeesSame (seen k) (seen' k))
    (k : Nat) : zero.afterCycles seen' k = zero.afterCycles seen k := by
  induction k with
  | zero => rfl
  | succ k ih =>
    have hk := isZero_afterCycles seen k
    show ((zero.afterCycles seen' k).step (seen' k) {}).timer = _
    rw [ih]
    -- a clock reads what it would have read; in all other cycles only the divider moves, unread
    by_cases hfires : (zero.afterCycles seen k).fires (seen k) = true
    · rw [step_eq_stepOn, (hk.seesSame (h k hfires)).stepOn, stepOn_timer, ← step_eq_stepOn]
      rfl
    · have hfires' : ¬ (zero.afterCycles seen k).fires (seen' k) = true := by
        rw [fires_iff hk.sound.prescaler_le] at hfires ⊢
        exact hfires
      rw [step_of_not_fires hfires', divided_congr hk.sound.prescaler_le hfires]
      show _ = ((zero.afterCycles seen k).step (seen k) {}).timer
      rw [step_of_not_fires hfires]

end

/-! ## Requests of the low half -/

/-- The low half of timer 0 runs by itself and asks for service when it overflows; it and the divider
have these reload values. -/
structure Beats (ram : Ram) (divider low : UInt8) : Prop where
  lowRun : (zero.control ram).lowRun = true
  longMode : (zero.control ram).longMode = false
  lowIrqEnable : (zero.control ram).lowIrqEnable = true
  divider : ram.readRaw Register.t0prr.toNat = divider
  low : ram.readRaw Register.t0lr.toNat = low

theorem int2_mem_requests {t : Timer} (hl : t.layout = .timer0) (c : Control) (k : Tick) :
    .int2 ∈ t.requests c k ↔ k.lowOverflow = true ∧ c.lowIrqEnable = true := by
  rw [requests, hl]
  simp [Layout.timer0]

/-- What is left of the low half and its divider together until the low half overflows. -/
def beatLeft (t : Timer) (divider low : UInt8) : Nat :=
  chainLeft (256 - divider.toNat) t.cyclesLeft (t.low.start low).room

theorem beatLeft_le (t : Timer) (divider low : UInt8) : t.beatLeft divider low ≤ 0x10000 := by
  have ha : t.cyclesLeft ≤ 256 := by
    unfold cyclesLeft
    cases t.prescaler with
    | none => exact Nat.succ_le_succ (Nat.zero_le 255)
    | some p => exact Nat.sub_le ..
  have hb : (t.low.start low).room ≤ 256 := Nat.sub_le ..
  have hproduct : ((t.low.start low).room - 1) * (256 - divider.toNat) ≤ 255 * 256 :=
    Nat.mul_le_mul (by omega) (Nat.sub_le ..)
  unfold beatLeft chainLeft
  omega

theorem beatLeft_pos {t : Timer} (ht : t.IsZero) (divider low : UInt8) :
    0 < t.beatLeft divider low :=
  Nat.add_pos_left (cyclesLeft_pos ht.sound.prescaler_le) _

section

variable {t : Timer} (ht : t.IsZero) {ram : Ram} {divider low : UInt8}

include ht

theorem beats_tick (h : Beats ram divider low) :
    (.int2 ∈ t.tickRaised ram ↔ (t.low.start low).room = 1) ∧
    ((Tick.of (t.control ram) (t.reloads ram) t.low t.high).low.start low).room =
      if (t.low.start low).room = 1 then 256 - low.toNat else (t.low.start low).room - 1 := by
  have hl : t.layout = .timer0 := ht.wired.layout
  have hcontrol : t.control ram = zero.control ram := by rw [control, control, hl]; rfl
  have hlow : (t.reloads ram).low = low := by
    rw [← h.low]
    simp only [reloads, hl]
    rfl
  have hrun : (t.control ram).lowRun = true := hcontrol ▸ h.lowRun
  have hs : t.low.start (t.reloads ram).low ≤ 0xFF := Half.start_le (.inr ht.sound.low_le) _
  have hlong : (t.control ram).longMode = false := hcontrol ▸ h.longMode
  obtain ⟨hover, hcount⟩ := @Tick.low_alone _ _ _ t.high hlong hrun hs
  rw [hlow] at hs hover hcount
  constructor
  · rw [tickRaised, int2_mem_requests hl, hover, decide_eq_true_eq, UInt16.room_eq_one_iff hs]
    exact and_iff_left (hcontrol ▸ h.lowIrqEnable)
  · rw [Tick.start_of hrun, hcount, UInt16.room_next hs]

/-- Divider and low half together are one counter, which asks for service whenever it ends. Only
clocks need to see the setting. -/
theorem beats_step (h : t.fires ram = true → Beats ram divider low) (c : Controller) :
    (.int2 ∈ t.stepRaised ram ↔ t.beatLeft divider low = 1) ∧
    (t.step ram c).timer.beatLeft divider low =
      if t.beatLeft divider low = 1 then (256 - divider.toNat) * (256 - low.toNat)
      else t.beatLeft divider low - 1 := by
  have hle := ht.sound.prescaler_le
  have hw : 0 < 256 - divider.toNat := Nat.sub_pos_of_lt divider.toNat_lt
  have ha := cyclesLeft_pos hle
  have hb : 0 < (t.low.start low).room := UInt16.room_pos (Half.start_le (.inr ht.sound.low_le) low)
  have hfires := fires_iff hle ram
  have hleft := cyclesLeft_divided hle ht.wired.divided ram
  constructor
  · rw [beatLeft, chainLeft_eq_one_iff hw ha hb, stepRaised_eq, List.mem_ite_nil_right, ← hfires]
    exact and_congr_right fun hf => (beats_tick ht (h hf)).1
  · rw [← chainLeft_self (Nat.sub_pos_of_lt low.toNat_lt)]
    refine chainLeft_step hw ha hb ?_ ?_
    · rw [ite_self, cyclesLeft_step, hleft]
      by_cases hf : t.fires ram = true
      · rw [(h hf).divider]
      · rw [if_neg fun hl => hf (hfires.mpr hl), if_neg fun hl => hf (hfires.mpr hl)]
    · by_cases hf : t.fires ram = true
      · rw [step_of_fires hf, if_pos (hfires.mp hf)]
        exact (beats_tick ht (h hf)).2
      · rw [step_of_not_fires hf, if_neg fun hl => hf (hfires.mpr hl)]
        rfl

end

theorem int2_times {seen : Nat → Ram} {k : Nat} {divider low : UInt8}
    (h : ∀ j, k ≤ j → (zero.afterCycles seen j).fires (seen j) = true →
      Beats (seen j) divider low) :
    ∃ first, k ≤ first ∧ first < k + 0x10000 ∧ ∀ j, k ≤ j →
      (.int2 ∈ (zero.afterCycles seen j).stepRaised (seen j) ↔
        ∃ m, j = first + m * ((256 - divider.toNat) * (256 - low.toNat))) := by
  have ht := isZero_afterCycles seen
  -- the count is followed from cycle `k` on, before which the setting may have been another
  let left i := (zero.afterCycles seen (k + i)).beatLeft divider low
  have hcounts : CountsDown left fun _ => (256 - divider.toNat) * (256 - low.toNat) :=
    fun i => (beats_step (ht (k + i)) (h (k + i) (Nat.le_add_right ..)) {}).2
  have hw : 0 < 256 - divider.toNat := Nat.sub_pos_of_lt divider.toNat_lt
  have hl : 0 < 256 - low.toNat := Nat.sub_pos_of_lt low.toNat_lt
  have hpos : 0 < left 0 := beatLeft_pos (ht k) divider low
  have hle : left 0 ≤ 0x10000 := beatLeft_le ..
  refine ⟨k + left 0 - 1, by omega, by omega, ?_⟩
  intro j hj
  obtain ⟨i, rfl⟩ := Nat.exists_eq_add_of_le hj
  have hraised := (beats_step (ht (k + i)) (h (k + i) hj) {}).1
  rw [hraised, hcounts.ends_iff_exists (Nat.mul_pos hw hl) hpos i]
  refine exists_congr fun m => ?_
  omega

/-- **The divider's timing.** Whatever each cycle sees, timer 0 is clocked for the first time in the
256th cycle, and from each clock to the next the time is what the reload register says in the cycle
of the first of them. In all other cycles nothing but the divider moves, and it does not matter what
they see. Its count is always a byte. Once all clocks see the low half run by itself, with its
interrupt enabled and always the same reload values for it and the divider, it asks for service in
exactly one cycle out of as many as divider and low half together take. -/
theorem divider_timing (seen : Nat → Ram) :
    let t := zero.afterCycles seen
    let clocked k := (t k).fires (seen k)
    let wait k := 256 - ((seen k).readRaw Register.t0prr.toNat).toNat
    (∀ k c, (t k).step (seen k) c =
      if clocked k then ((t k).divided (seen k)).tick (seen k) c
      else { timer := (t k).divided (seen k), ram := seen k, interrupts := c, signals := [] }) ∧
    (∀ k, k < 256 → (clocked k = true ↔ k + 1 = 256)) ∧
    (∀ k j, clocked k = true → k < j → j ≤ k + wait k → (clocked j = true ↔ j = k + wait k)) ∧
    (∀ seen', (∀ k, clocked k = true → zero.SeesSame (seen k) (seen' k)) → ∀ k,
      zero.afterCycles seen' k = t k ∧ (t k).fires (seen' k) = clocked k) ∧
    (∀ k, ∃ p, (t k).prescaler = some p ∧ p.count ≤ 0xFF) ∧
    (∀ k divider low, (∀ j, k ≤ j → clocked j = true → Beats (seen j) divider low) →
      ∃ first, k ≤ first ∧ first < k + 0x10000 ∧ ∀ j c, k ≤ j →
        (((t j).step (seen j) c).interrupts.isPending .int2 = true ↔
          c.isPending .int2 = true ∨
            ∃ m, j = first + m * ((256 - divider.toNat) * (256 - low.toNat)))) := by
  intro t clocked wait
  have ht := isZero_afterCycles seen
  have hcounts := cyclesLeft_countsDown seen
  have hclocked (k : Nat) : clocked k = true ↔ (t k).cyclesLeft = 1 :=
    fires_iff (ht k).sound.prescaler_le (seen k)
  refine ⟨?_, ?_, ?_, ?_, ?_, ?_⟩
  · intro k c
    exact step_eq_ite ..
  · intro k hk
    have hfirst := hcounts.ends_iff (k := 0) hk
    rw [Nat.zero_add] at hfirst
    exact (hclocked k).trans hfirst
  · intro k j hk hkj hj
    exact (hclocked j).trans (hcounts.ends_again_iff ((hclocked k).mp hk) hkj hj)
  · intro seen' hseen k
    refine ⟨afterCycles_congr seen hseen k, ?_⟩
    rw [Bool.eq_iff_iff, hclocked]
    exact fires_iff (ht k).sound.prescaler_le (seen' k)
  · intro k
    obtain ⟨p, hp⟩ := Option.isSome_iff_exists.mp (ht k).wired.divided
    exact ⟨p, hp, (ht k).sound.prescaler_le p hp⟩
  · intro k divider low h
    obtain ⟨first, hle, hlt, htimes⟩ := int2_times h
    refine ⟨first, hle, hlt, ?_⟩
    intro j c hj
    rw [step_interrupts, Controller.isPending_foldl_raise, htimes j hj]

/-- The low half goes through two bytes. A program has slowed down the divider at first, but sets it
to every other cycle just in time for the first clock. -/
def lateReload (k : Nat) : Ram :=
  (memoryOf .timer0 0x41 ⟨0xFE, 0, 0xFE⟩).write Register.t0prr.toNat
    (if k < 255 then 0x80 else 0xFE)

theorem divider_timing_of_two :
    let t := zero.afterCycles lateReload
    let clocked k := (t k).fires (lateReload k)
    let asks k := ((t k).step (lateReload k) {}).interrupts.isPending .int2
    clocked 255 = true ∧ clocked 256 = false ∧ clocked 257 = true ∧
      zero.afterCycles (fun k => if k < 255 then {} else lateReload k) 257 = t 257 ∧
      asks 257 = true ∧ asks 4000257 = true ∧ asks 4000259 = false := by
  intro t clocked asks
  obtain ⟨-, hfirst, hagain, hunseen, -, hbeats⟩ := divider_timing lateReload
  have hclocked : clocked 255 = true := (hfirst 255 (by decide)).mpr rfl
  have hwait : 256 - ((lateReload 255).readRaw Register.t0prr.toNat).toNat = 2 := by decide +kernel
  have hnext {j : Nat} (hj : 255 < j) (hle : j ≤ 257) : clocked j = true ↔ j = 257 := by
    have h := hagain 255 j hclocked hj
    dsimp only at h
    rw [hwait] at h
    exact h hle
  have hstill (j : Nat) (hj : 255 ≤ j) : Beats (lateReload j) 0xFE 0xFE := by
    rw [lateReload, if_neg (Nat.not_lt.mpr hj)]
    constructor
    all_goals decide +kernel
  obtain ⟨first, -, -, htimes⟩ := hbeats 255 0xFE 0xFE fun j hj _ => hstill j hj
  have hasks {j : Nat} (hj : 255 ≤ j) : asks j = true ↔ ∃ m, j = first + m * 4 :=
    (htimes j {} hj).trans (or_iff_right (by decide))
  have hone : asks 257 = true := by decide +kernel
  obtain ⟨n, hn⟩ := (hasks (by decide)).mp hone
  refine ⟨hclocked, ?_, (hnext (by decide) (by decide)).mpr rfl, ?_, hone, ?_, ?_⟩
  · exact Bool.eq_false_iff.mpr fun h => absurd ((hnext (by decide) (by decide)).mp h) (by decide)
  · refine (hunseen _ ?_ 257).1
    intro k hk
    have hlate : ¬ k < 255 := fun hlt => by
      have := (hfirst k (by omega)).mp hk
      omega
    rw [if_neg hlate]
    exact ⟨rfl, rfl, rfl, rfl, rfl⟩
  · exact (hasks (by decide)).mpr ⟨n + 1000000, by omega⟩
  · refine Bool.eq_false_iff.mpr fun h => ?_
    obtain ⟨m, hm⟩ := (hasks (by decide)).mp h
    omega

end VisualMemory.Timer
