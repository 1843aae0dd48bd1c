import VisualMemory.Proofs.Interrupt.Turn

/-!
# Sources of one level are served in the order of their acceptance

A poll may serve a source from the middle of the queue, since the level that runs and the mask hold
others back. The rest keep their order all the same. To say so, a source is given the number of the
turn that accepted it, and the queue is compared with the turns that there have been.

* `Interrupt.Ticket`, `Ticket.Before`: a source and its turn; the order of acceptance.
* `Ticket.WaitsAt`: what a history of turns says about a ticket.
* `Turn.Orderly`: the queue holds the tickets that wait, in order, and each turn has served the
  first of a level. `History.orderly`: every history is so.
* `service_order`: what this says about the runs of a machine.
-/

namespace VisualMemory

open Interrupt (Source)

namespace Interrupt

/-- A source as a turn accepted it. -/
structure Ticket where
  /-- The number of the turn, from 0 on. -/
  turn : Nat
  source : Source
  deriving DecidableEq

/-- The source is served in the turn with this number. -/
def Turn.ServedAt (turns : List Turn) (k : Nat) (s : Source) : Prop :=
  ∃ t ∈ turns[k]?, t.served = some s

instance (turns : List Turn) (k : Nat) (s : Source) : Decidable (Turn.ServedAt turns k s) :=
  inferInstanceAs (Decidable (∃ t ∈ turns[k]?, _))

namespace Ticket

/-- The one was accepted in an earlier turn than the other, or in the same turn by its priority. -/
def Before (a b : Ticket) : Prop :=
  a.turn < b.turn ∨ a.turn = b.turn ∧ a.source.priority < b.source.priority

/-- The source waits when turn `k` chooses: it was accepted in that turn or before, and no turn from
then on and before turn `k` took it off the queue. If there are `k` turns, it waits after them. -/
def WaitsAt (a : Ticket) (turns : List Turn) (k : Nat) : Prop :=
  a.turn ≤ k ∧ (∃ t ∈ turns[a.turn]?, a.source ∈ t.accepted) ∧
    ∀ i < k, a.turn ≤ i → ∀ t ∈ turns[i]?, t.removes a.source = false

instance (a : Ticket) (turns : List Turn) (k : Nat) : Decidable (a.WaitsAt turns k) :=
  inferInstanceAs (Decidable (_ ∧ (∃ t ∈ turns[a.turn]?, _) ∧ ∀ i < k, _ → ∀ t ∈ turns[i]?, _))

/-! ## The order of acceptance -/

theorem Before.asymm {a b : Ticket} (h : a.Before b) : ¬ b.Before a := by
  unfold Before at h ⊢
  omega

theorem mem_issued {t : Turn} {k : Nat} {a : Ticket} :
    a ∈ t.accepted.map (Ticket.mk k) ↔ a.turn = k ∧ a.source ∈ t.accepted := by
  rw [List.mem_map]
  constructor
  · rintro ⟨s, hs, rfl⟩
    exact ⟨rfl, hs⟩
  · rintro ⟨rfl, hs⟩
    exact ⟨a.source, hs, rfl⟩

/-! ## Waiting -/

section

variable {a : Ticket} {turns : List Turn} {t : Turn} {k : Nat}

theorem WaitsAt.turn_lt (h : a.WaitsAt turns k) : a.turn < turns.length := by
  obtain ⟨t, ht, -⟩ := h.2.1
  exact (List.getElem?_eq_some_iff.mp ht).1

theorem waitsAt_append_of_lt (hk : k < turns.length) :
    a.WaitsAt (turns ++ [t]) k ↔ a.WaitsAt turns k := by
  have hget (i : Nat) (hi : i ≤ k) : (turns ++ [t])[i]? = turns[i]? :=
    List.getElem?_append_left (Nat.lt_of_le_of_lt hi hk)
  unfold WaitsAt
  refine and_congr_right fun hle => ?_
  rw [hget _ hle]
  refine and_congr_right fun _ => forall₂_congr fun i hi => ?_
  rw [hget i (Nat.le_of_lt hi)]

/-- At a new turn the tickets that waited after the last one wait, and the new ones. -/
theorem waitsAt_append_length :
    a.WaitsAt (turns ++ [t]) turns.length ↔
      a.WaitsAt turns turns.length ∨ a.turn = turns.length ∧ a.source ∈ t.accepted := by
  have hget (i : Nat) (hi : i < turns.length) : (turns ++ [t])[i]? = turns[i]? :=
    List.getElem?_append_left hi
  have hlast : (turns ++ [t])[turns.length]? = some t := List.getElem?_concat_length
  constructor
  · rintro ⟨hle, ⟨u, hu, hmem⟩, hstay⟩
    by_cases hlt : a.turn < turns.length
    · rw [hget _ hlt] at hu
      refine .inl ⟨hle, ⟨u, hu, hmem⟩, fun i hi hai v hv => hstay i hi hai v ?_⟩
      rwa [hget i hi]
    · have heq : a.turn = turns.length := by omega
      rw [heq, hlast] at hu
      obtain rfl := Option.some.inj hu
      exact .inr ⟨heq, hmem⟩
  · rintro (h | ⟨heq, hmem⟩)
    · have hlt := h.turn_lt
      obtain ⟨hle, ⟨u, hu, hmem⟩, hstay⟩ := h
      rw [← hget _ hlt] at hu
      refine ⟨hle, ⟨u, hu, hmem⟩, fun i hi hai v hv => hstay i hi hai v ?_⟩
      rwa [← hget i hi]
    · refine ⟨Nat.le_of_eq heq, ⟨t, ?_, hmem⟩, fun i hi hai => ?_⟩
      · rw [heq]
        exact hlast
      · omega

theorem waitsAt_succ (hk : turns.length = k + 1) (ht : turns[k]? = some t) :
    a.WaitsAt turns (k + 1) ↔ a.WaitsAt turns k ∧ t.removes a.source = false := by
  constructor
  · intro h
    have hle : a.turn ≤ k := by
      have hlt := h.turn_lt
      omega
    exact ⟨⟨hle, h.2.1, fun i hi => h.2.2 i (Nat.lt_succ_of_lt hi)⟩,
      h.2.2 k (Nat.lt_succ_self k) hle t ht⟩
  · rintro ⟨⟨hle, haccepted, hstay⟩, hlast⟩
    refine ⟨Nat.le_succ_of_le hle, haccepted, fun i hi hai u hu => ?_⟩
    rcases Nat.lt_succ_iff_lt_or_eq.mp hi with hi | rfl
    · exact hstay i hi hai u hu
    · rw [ht] at hu
      obtain rfl := Option.some.inj hu
      exact hlast

theorem WaitsAt.mono (h : a.WaitsAt turns k) {j : Nat} (hkj : k ≤ j)
    (hidle : ∀ i, k ≤ i → i < j → ¬ Turn.ServedAt turns i a.source)
    (hreset : ∀ i, k ≤ i → i < j → ¬ Turn.ServedAt turns i .reset) : a.WaitsAt turns j := by
  refine ⟨Nat.le_trans h.1 hkj, h.2.1, fun i hij hai u hu => ?_⟩
  by_cases hik : i < k
  · exact h.2.2 i hik hai u hu
  · have hki : k ≤ i := Nat.le_of_not_lt hik
    have hs : u.served ≠ some a.source := fun hs => hidle i hki hij ⟨u, hu, hs⟩
    have hr : u.served ≠ some .reset := fun hr => hreset i hki hij ⟨u, hu, hr⟩
    rw [Turn.removes, Bool.or_eq_false_iff, beq_eq_false_iff_ne, beq_eq_false_iff_ne]
    exact ⟨hs, hr⟩

end

end Ticket

end Interrupt

open Interrupt (Ticket Turn)

namespace Interrupt.Turn

/-! ## Histories -/

/-- After these turns the queue holds the tickets that wait, in the order of their acceptance; and
no turn has served a ticket while one before it, of the same level, waited. -/
structure Orderly (turns : List Turn) (q : List Source) : Prop where
  queue : ∃ tickets : List Ticket, q = tickets.map (·.source) ∧ tickets.Pairwise Ticket.Before ∧
    ∀ a, a ∈ tickets ↔ a.WaitsAt turns turns.length
  first : ∀ k (a b : Ticket), a.WaitsAt turns k → b.WaitsAt turns k →
    a.source.level = b.source.level → a.Before b → ¬ ServedAt turns k b.source

theorem mem_front {front back : List Ticket} {a b : Ticket}
    (hsorted : (front ++ b :: back).Pairwise Ticket.Before) (ha : a ∈ front ++ b :: back)
    (hab : a.Before b) : a ∈ front := by
  have hback := (List.pairwise_cons.mp (List.pairwise_append.mp hsorted).2.1).1
  rcases List.mem_append.mp ha with hfront | ha
  · exact hfront
  · rcases List.mem_cons.mp ha with rfl | ha
    · exact absurd hab hab.asymm
    · exact absurd (hback a ha) hab.asymm

theorem Takes.orderly {turns : List Turn} {t : Turn} {q q' : List Source} (ht : t.Takes q q')
    (h : Orderly turns q) : Orderly (turns ++ [t]) q' := by
  obtain ⟨tickets, rfl, hsorted, hmem⟩ := h.queue
  let waiting := tickets ++ t.accepted.map (Ticket.mk turns.length)
  have hsource : waiting.map (·.source) = tickets.map (·.source) ++ t.accepted := by
    rw [List.map_append, List.map_map]
    exact congrArg _ (List.map_id _)
  have hwaits (a : Ticket) : a ∈ waiting ↔ a.WaitsAt (turns ++ [t]) turns.length := by
    rw [List.mem_append, hmem, Ticket.mem_issued, Ticket.waitsAt_append_length]
  have hordered : waiting.Pairwise Ticket.Before := by
    refine List.pairwise_append.mpr ⟨hsorted, ?_, ?_⟩
    · exact List.pairwise_map.mpr (ht.by_priority.imp fun hlt => .inr ⟨rfl, hlt⟩)
    · intro a ha b hb
      left
      rw [(Ticket.mem_issued.mp hb).1]
      exact ((hmem a).mp ha).turn_lt
  constructor
  · refine ⟨waiting.filter fun a => !t.removes a.source, ?_, hordered.filter _, fun a => ?_⟩
    · rw [ht.left, ← hsource, List.filter_map]
      rfl
    · have hlength : (turns ++ [t]).length = turns.length + 1 := List.length_append
      have hlast : (turns ++ [t])[turns.length]? = some t := List.getElem?_concat_length
      rw [List.mem_filter, hwaits, hlength, Ticket.waitsAt_succ hlength hlast,
        Bool.not_eq_true']
  · rintro k a b ha hb hlevel hab ⟨u, hu, hserved⟩
    by_cases hk : k < turns.length
    · rw [Ticket.waitsAt_append_of_lt hk] at ha hb
      have hget : (turns ++ [t])[k]? = turns[k]? := List.getElem?_append_left hk
      exact h.first k a b ha hb hlevel hab ⟨u, hget ▸ hu, hserved⟩
    · -- the turn that has just been taken
      have hlt : k < (turns ++ [t]).length := (List.getElem?_eq_some_iff.mp hu).1
      rw [List.length_append, List.length_singleton] at hlt
      obtain rfl : k = turns.length := by omega
      rw [Option.mem_def, List.getElem?_concat_length] at hu
      obtain rfl := Option.some.inj hu
      rw [← hwaits] at ha hb
      obtain ⟨front, back, hsplit⟩ := List.append_of_mem hb
      rw [hsplit] at ha hordered hsource
      have hfront := mem_front hordered ha hab
      rw [List.map_append, List.map_cons] at hsource
      exact ht.first _ _ _ hsource.symm hserved a.source (List.mem_map_of_mem hfront) hlevel

theorem History.orderly {turns : List Turn} {q : List Source} (h : History [] turns q) :
    Orderly turns q := by
  induction h with
  | nil =>
    have hnone (k : Nat) (a : Ticket) : ¬ a.WaitsAt [] k := fun ha => Nat.not_lt_zero _ ha.turn_lt
    constructor
    · exact ⟨[], rfl, .nil, fun a => iff_of_false List.not_mem_nil (hnone _ a)⟩
    · intro k a b ha
      exact absurd ha (hnone k a)
  | snoc _ ht ih => exact ht.orderly ih

/-- Of two tickets of one level that wait, the first is served first. -/
theorem Orderly.served_before {turns : List Turn} {q : List Source} (h : Orderly turns q)
    {a b : Ticket} {k : Nat} (ha : a.WaitsAt turns k) (hb : b.WaitsAt turns k)
    (hlevel : a.source.level = b.source.level) (hab : a.Before b) {j : Nat} (hkj : k ≤ j)
    (hserved : ServedAt turns j b.source)
    (hreset : ∀ i, k ≤ i → i < j → ¬ ServedAt turns i .reset) :
    ∃ i, k ≤ i ∧ i < j ∧ ServedAt turns i a.source := by
  -- by induction on the turn that serves `b`, since `b` may have been served before
  induction j using Nat.strongRecOn with
  | ind j ih =>
    by_cases hsooner : ∃ i, k ≤ i ∧ i < j ∧ ServedAt turns i b.source
    · obtain ⟨i, hki, hij, hb'⟩ := hsooner
      obtain ⟨l, hkl, hli, ha'⟩ := ih i hij hki hb' fun l hkl hli =>
        hreset l hkl (Nat.lt_trans hli hij)
      exact ⟨l, hkl, Nat.lt_trans hli hij, ha'⟩
    · refine Classical.byContradiction fun hnot => ?_
      have hidle (s : Source) (hs : ¬ ∃ i, k ≤ i ∧ i < j ∧ ServedAt turns i s) (i : Nat)
          (hki : k ≤ i) (hij : i < j) : ¬ ServedAt turns i s :=
        fun h => hs ⟨i, hki, hij, h⟩
      have hwait := ha.mono hkj (hidle _ hnot) hreset
      have hwait' := hb.mono hkj (hidle _ hsooner) hreset
      exact h.first j a b hwait hwait' hlevel hab hserved

end Interrupt.Turn

theorem Machine.queue_boot {bios flash : Array UInt8} {config : Config} {journal : Journal}
    {m : Machine} (h : boot bios flash config journal = .ok m) : m.cpu.queue = [] := by
  obtain ⟨rom, chip, -, -, rfl⟩ := boot_eq_ok h
  split <;> rfl

/-- **Sources of one level are served in the order of their acceptance.** Take any machine that
comes from a boot, any run from there, and the turns of both. After the run the queue holds the
sources that were accepted and have been neither served nor lost in a reset since, ordered by the
turn that accepted them, and among those of one turn by priority. And if two sources of one level
wait at some turn, the one before the other in this order, the other is not served, unless there was
a reset, before the one has been. -/
theorem service_order {bios flash : Array UInt8} {config : Config} {journal : Journal}
    {booted : Machine} (hb : Machine.boot bios flash config journal = .ok booted)
    (before acts : List Act) :
    let m := booted.runActs before
    let turns := booted.turns before ++ m.turns acts
    (∃ tickets : List Ticket, (m.runActs acts).cpu.queue = tickets.map (·.source) ∧
      tickets.Pairwise Ticket.Before ∧ ∀ a, a ∈ tickets ↔ a.WaitsAt turns turns.length) ∧
    ∀ (a b : Ticket) (k j : Nat), a.WaitsAt turns k → b.WaitsAt turns k →
      a.source.level = b.source.level → a.Before b → k ≤ j → Turn.ServedAt turns j b.source →
      (∀ i, k ≤ i → i < j → ¬ Turn.ServedAt turns i .reset) →
        ∃ i, k ≤ i ∧ i < j ∧ Turn.ServedAt turns i a.source := by
  intro m turns
  have hhistory := (Reachable.boot hb).nested.history (before ++ acts)
  rw [Machine.queue_boot hb, Machine.turns_append, Machine.runActs_append] at hhistory
  have horderly : Turn.Orderly turns (m.runActs acts).cpu.queue := hhistory.orderly
  exact ⟨horderly.queue, fun _ _ _ _ ha hb hlevel hab hkj hserved hreset =>
    horderly.served_before ha hb hlevel hab hkj hserved hreset⟩

/-- A source waits behind a routine of its level. -/
def waitingBehindRoutine : List Act :=
  [.writeRam 0x108 0x80, .raise .p3, .raise .int2, .poll]

/-- A poll that accepts two more, and serves the high one from the middle of the queue; the returns
from both routines; and services of what is left. -/
def servedFromTheMiddle : List Act :=
  [.raise .int3, .raise .int0, .poll, .execute 0xB0, .execute 0xB0, .poll, .execute 0xB0, .poll]

theorem service_order_from_the_middle :
    let m := Machine.idling.runActs waitingBehindRoutine
    let turns := Machine.idling.turns waitingBehindRoutine ++ m.turns servedFromTheMiddle
    turns = [⟨[.int2, .p3], some .int2⟩, ⟨[.int0, .int3], some .int0⟩, ⟨[], some .p3⟩,
      ⟨[], some .int3⟩] ∧
    ∃ i, 1 ≤ i ∧ i < 3 ∧ Turn.ServedAt turns i .p3 := by
  intro m turns
  have hboot : Machine.boot #[0] #[] {} {} = .ok Machine.idling :=
    Machine.boot_firmware rfl (by decide) (by decide) (Nat.zero_le _)
  have hturns : turns = [⟨[.int2, .p3], some .int2⟩, ⟨[.int0, .int3], some .int0⟩,
      ⟨[], some .p3⟩, ⟨[], some .int3⟩] := by decide +kernel
  have horder := (service_order hboot waitingBehindRoutine servedFromTheMiddle).2 ⟨0, .p3⟩
    ⟨1, .int3⟩ 1 3
  refine ⟨hturns, horder ?_ ?_ rfl (.inl Nat.one_pos) (by decide) ?_ ?_⟩
  · show Ticket.WaitsAt _ turns 1
    rw [hturns]
    decide
  · show Ticket.WaitsAt _ turns 1
    rw [hturns]
    decide
  · show Turn.ServedAt turns 3 _
    rw [hturns]
    decide
  · intro i _ hi
    show ¬ Turn.ServedAt turns i _
    have hnone : ∀ i < 3, ¬ Turn.ServedAt turns i .reset := by
      rw [hturns]
      decide
    exact hnone i hi

end VisualMemory
