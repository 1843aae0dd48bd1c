import Mathlib.Data.Nat.Find
import VisualMemory.Proofs.Interrupt.WakeUp

/-!
# Polls settle

Polls with nothing in between come to an end soon. A poll leaves nothing to accept, and what the
next one serves is above the level that the one before has entered; there are three levels to
enter, and the highest is a reset's, which leaves nothing to serve either.

* `Machine.polled`: the machine after so many polls.
* `Machine.poll_poll_of_none`: a poll that serves nothing has done all that polls can do.
* `Machine.lt_rank_of_served`: what the third poll serves is a reset.
* `polls_settle`: so at most three polls serve something, and the rest change nothing.
-/

namespace VisualMemory

open Interrupt (Source)

namespace Machine

/-- The machine after `k` polls with nothing in between. -/
def polled (m : Machine) : Nat → Machine
  | 0 => m
  | k + 1 => (m.polled k).poll.1

/-! ## Two polls -/

theorem acceptable_accept (m : Machine) : m.accept.acceptable = [] := by
  rw [List.eq_nil_iff_forall_not_mem]
  intro s hs
  obtain ⟨hpending, hallow, hqueue, hidle⟩ := mem_acceptable.mp hs
  obtain ⟨hpending, hleft⟩ := isPending_accept.mp hpending
  rw [mem_accept_queue, not_or] at hqueue
  exact hleft (mem_acceptable.mpr ⟨hpending, hallow, hqueue.1, hidle⟩)

theorem accept_accept (m : Machine) : m.accept.accept = m.accept :=
  accept_of_nil (acceptable_accept m)

/-- A poll that serves nothing leaves nothing to do for the next. -/
theorem poll_poll_of_none {m : Machine} (h : m.poll.2 = none) : m.poll.1.poll = (m.poll.1, none) := by
  rcases poll_cases m with ⟨hnone, hp⟩ | ⟨s, -, hp⟩
  · rw [hp]
    rw [← accept_accept] at hnone
    rw [poll_of_none hnone, accept_accept]
  · rw [hp] at h
    cases h

theorem not_awaits_reset (m : Machine) (s : Source) : ¬ m.reset.Awaits s := by
  rintro (hpending | hqueue)
  · rw [show m.reset.interrupts = {} from rfl, Interrupt.Controller.isPending_empty] at hpending
    cases hpending
  · cases hqueue

/-- What follows on a served source is of a higher level; nothing follows on a reset. -/
theorem level_lt_of_served {m : Machine} {s t : Source} (hs : m.poll.2 = some s)
    (ht : m.poll.1.poll.2 = some t) : s ≠ .reset ∧ s.level < t.level := by
  have htake : m.poll.1.CanTake t := Nested.poll_eq_some ht
  rw [poll_fst_of_snd hs] at htake
  have hne : s ≠ .reset := by
    rintro rfl
    exact not_awaits_reset _ t htake.1
  rw [serve_of_ne hne] at htake
  exact ⟨hne, htake.2.2⟩

/-! ## Many polls -/

variable {m : Machine} {i j : Nat} {s t : Source}

theorem poll_polled_of_none (h : (m.polled i).poll.2 = none) (hij : i < j) :
    (m.polled j).poll = (m.polled j, none) := by
  induction hij with
  | refl => exact poll_poll_of_none h
  | step _ ih =>
    rw [polled, ih]
    exact ih

theorem served_of_lt (ht : (m.polled j).poll.2 = some t) (hij : i < j) :
    ∃ s, (m.polled i).poll.2 = some s := by
  rw [← Option.isSome_iff_exists, Option.isSome_iff_ne_none]
  intro hnone
  rw [poll_polled_of_none hnone hij] at ht
  cases ht

theorem level_lt_of_lt (hs : (m.polled i).poll.2 = some s) (ht : (m.polled j).poll.2 = some t)
    (hij : i < j) : s ≠ .reset ∧ s.level < t.level := by
  induction hij generalizing t with
  | refl => exact level_lt_of_served hs ht
  | @step j _ ih =>
    obtain ⟨u, hu⟩ := served_of_lt ht j.lt_succ_self
    obtain ⟨hne, hlevel⟩ := ih hu
    exact ⟨hne, Nat.lt_trans hlevel (level_lt_of_served hu ht).2⟩

/-- Each poll that serves something has come a level higher. -/
theorem lt_rank_of_served (hs : (m.polled i).poll.2 = some s) : i < s.level.rank := by
  induction i generalizing s with
  | zero => exact s.rank_level_pos
  | succ i ih =>
    obtain ⟨u, hu⟩ := served_of_lt hs i.lt_succ_self
    exact Nat.lt_of_le_of_lt (ih hu) (level_lt_of_served hu hs).2

theorem served_eq_none_of_le (h : 3 ≤ i) : (m.polled i).poll.2 = none := by
  rw [Option.eq_none_iff_forall_ne_some]
  intro s hs
  have hlt := lt_rank_of_served hs
  have hle := s.level.rank_le
  omega

end Machine

open Machine in
/-- **Polls settle.** If a machine is polled again and again with nothing in between, the first
polls serve something, three of them at most, and no later one does. The levels of the sources that
they serve rise strictly, and a reset is the last. Once a poll has served nothing, each further one
serves nothing and leaves the whole machine as it is. -/
theorem polls_settle (m : Machine) :
    (∃ k ≤ 3, ∀ i, (m.polled i).poll.2.isSome = true ↔ i < k) ∧
    (∀ i j s t, i < j → (m.polled i).poll.2 = some s → (m.polled j).poll.2 = some t →
      s ≠ .reset ∧ s.level < t.level) ∧
    ∀ i j, i < j → (m.polled i).poll.2 = none → (m.polled j).poll = (m.polled j, none) := by
  have hquiet : ∃ k, (m.polled k).poll.2 = none := ⟨3, served_eq_none_of_le (Nat.le_refl 3)⟩
  refine ⟨⟨Nat.find hquiet, Nat.find_le (served_eq_none_of_le (Nat.le_refl 3)), fun i => ?_⟩,
    fun i j s t hij hs ht => level_lt_of_lt hs ht hij,
    fun i j hij hnone => poll_polled_of_none hnone hij⟩
  constructor
  · intro hsome
    by_contra hle
    have hnone : (m.polled i).poll.2 = none := by
      rcases Nat.eq_or_lt_of_not_lt hle with rfl | hlt
      · exact Nat.find_spec hquiet
      · rw [poll_polled_of_none (Nat.find_spec hquiet) hlt]
    rw [hnone] at hsome
    cases hsome
  · intro hlt
    exact Option.isSome_iff_ne_none.mpr (Nat.find_min hquiet hlt)

/-- A routine of the high level has held back a low source, a high one and a reset, and returns. -/
def heldBack : Machine :=
  Machine.idling.runActs
    [.writeRam 0x108 0x80, .raise .int0, .poll, .raise .int2, .poll, .raise .int1, .poll,
      .raise .reset, .execute 0xB0]

theorem polls_settle_after_three :
    (List.range 4).map (fun i => (heldBack.polled i).poll.2) =
      [some .int2, some .int1, some .reset, none] ∧
    ∀ j, 3 < j → (heldBack.polled j).poll = (heldBack.polled j, none) :=
  ⟨by decide +kernel, fun j hj => (polls_settle heldBack).2.2 3 j hj (by decide +kernel)⟩

end VisualMemory
