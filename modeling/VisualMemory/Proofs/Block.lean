import Mathlib.Data.Nat.ModEq
import VisualMemory.Proofs.Program.Footprint
import VisualMemory.Proofs.Program.Mirror

/-!
# Block transfers and what they leave alone

A block goes byte by byte to addresses that wrap around, first at the end of the words and then at
the end of a region. It comes back as it was written if no two of its addresses are folded to the
same place, and that is so as long as it is not longer than the region. In RAM a block can run over
the two registers that select banks; if it leaves the selections as they were, they have been so all
the time, since it writes each register once at most.

* `Block.write_of_misses`, `Block.write_of_hits`: one byte of a region that a block was written to.
* `Block.read_eq`: a block that is read byte by byte.
* `toNat_add_ofNat`, `eq_of_add_mod_eq`: addresses that wrap, and that nothing is written twice.
* `Ram.writeBlock_eq`: a block that is written under fixed bank selections.
* `block_round_trip`: blocks in RAM, flash and ROM, read back and beside what is left alone.
-/

namespace VisualMemory

/-! ## Addresses -/

theorem toNat_add_ofNat (address : UInt64) (i : Nat) :
    (address + UInt64.ofNat i).toNat = (address.toNat + i) % UInt64.size := by
  rw [UInt64.toNat_add, UInt64.toNat_ofNat', Nat.add_mod_mod]

/-- Where a region's size divides that of the words, the first wrap does not matter. -/
theorem toNat_add_ofNat_mod {size : Nat} (h : size ∣ UInt64.size) (address : UInt64) (i : Nat) :
    (address + UInt64.ofNat i).toNat % size = (address.toNat + i) % size := by
  rw [toNat_add_ofNat, Nat.mod_mod_of_dvd _ h]

/-- Fewer addresses in a row than a region has places are folded to different ones. -/
theorem eq_of_add_mod_eq {size count start i j : Nat} (hcount : count ≤ size) (hi : i < count)
    (hj : j < count) (h : (start + i) % size = (start + j) % size) : i = j :=
  Nat.ModEq.eq_of_lt_of_lt (Nat.ModEq.add_left_cancel' start h) (Nat.lt_of_lt_of_le hi hcount)
    (Nat.lt_of_lt_of_le hj hcount)

theorem add_one_add_ofNat (address : UInt64) (i : Nat) :
    address + 1 + UInt64.ofNat i = address + UInt64.ofNat (i + 1) := by
  rw [UInt64.add_assoc, UInt64.add_comm 1, UInt64.ofNat_add]
  rfl

/-! ## Blocks -/

namespace Block

section

variable {Region : Type} {put : Region → UInt64 → UInt8 → Region} {P : Region → Prop}
  {Hits : UInt64 → Prop} [DecidablePred Hits] (hkeeps : ∀ r a v, P r → P (put r a v))
  (byte : Region → UInt8) (hput : ∀ r a v, P r → byte (put r a v) = if Hits a then v else byte r)

include hkeeps

theorem write_keeps {r : Region} (h : P r) (bytes : List UInt8) (address : UInt64) :
    P (write put r bytes address) := by
  induction bytes generalizing r address with
  | nil => exact h
  | cons b bytes ih => exact ih (hkeeps r address b h) (address + 1)

include hput

theorem write_of_misses {r : Region} (h : P r) {bytes : List UInt8} {address : UInt64}
    (hmiss : ∀ i < bytes.length, ¬ Hits (address + UInt64.ofNat i)) :
    byte (write put r bytes address) = byte r := by
  induction bytes generalizing r address with
  | nil => rfl
  | cons b bytes ih =>
    have hfirst : ¬ Hits address := by
      have hzero := hmiss 0 (Nat.succ_pos _)
      rwa [show UInt64.ofNat 0 = 0 from rfl, UInt64.add_zero] at hzero
    have hrest : byte (write put (put r address b) bytes (address + 1)) = byte (put r address b) := by
      refine ih (hkeeps r address b h) fun i hi => ?_
      rw [add_one_add_ofNat]
      exact hmiss (i + 1) (Nat.succ_lt_succ hi)
    rw [write, hrest, hput r address b h, if_neg hfirst]

theorem write_of_hits {r : Region} (h : P r) {bytes : List UInt8} {address : UInt64} {i : Nat}
    (hi : i < bytes.length) (hhit : Hits (address + UInt64.ofNat i))
    (honce : ∀ j < bytes.length, Hits (address + UInt64.ofNat j) → j = i) :
    byte (write put r bytes address) = bytes[i] := by
  induction bytes generalizing r address i with
  | nil => exact absurd hi (Nat.not_lt_zero i)
  | cons b bytes ih =>
    have hnext := hkeeps r address b h
    cases i with
    | zero =>
      have hfirst : Hits address := by
        rwa [show UInt64.ofNat 0 = 0 from rfl, UInt64.add_zero] at hhit
      have hrest : byte (write put (put r address b) bytes (address + 1)) =
          byte (put r address b) := by
        refine write_of_misses hkeeps byte hput hnext fun j hj hhit' => ?_
        rw [add_one_add_ofNat] at hhit'
        exact absurd (honce (j + 1) (Nat.succ_lt_succ hj) hhit') (Nat.succ_ne_zero j)
      rw [write, hrest, hput r address b h, if_pos hfirst]
      rfl
    | succ i =>
      rw [← add_one_add_ofNat] at hhit
      refine ih hnext (Nat.lt_of_succ_lt_succ hi) hhit fun j hj hhit' => ?_
      rw [add_one_add_ofNat] at hhit'
      exact Nat.succ.inj (honce (j + 1) (Nat.succ_lt_succ hj) hhit')

end

theorem read_eq {byte : UInt64 → UInt8} {address : UInt64} {bytes : List UInt8}
    (h : ∀ i (hi : i < bytes.length), byte (address + UInt64.ofNat i) = bytes[i]) :
    read byte address bytes.length = bytes.toArray := by
  unfold read
  refine Array.ext Array.size_ofFn fun i hi _ => ?_
  rw [Array.size_ofFn] at hi
  rw [Array.getElem_ofFn, h i hi, List.getElem_toArray]

theorem round_trip {Region : Type} {put : Region → UInt64 → UInt8 → Region} {P : Region → Prop}
    (byte : Region → Nat → UInt8) {size : Nat} (hkeeps : ∀ r a v, P r → P (put r a v))
    (hfold : ∀ r x, P r → byte r x = byte r (x % size))
    (hput : ∀ r a v place, P r → place < size →
      byte (put r a v) place = if a.toNat % size = place then v else byte r place)
    {r : Region} (h : P r) {bytes : List UInt8} {address : UInt64} (hlen : bytes.length ≤ size)
    (haddress : ∀ i < bytes.length,
      (address + UInt64.ofNat i).toNat % size = (address.toNat + i) % size) :
    read (fun a => byte (write put r bytes address) a.toNat) address bytes.length = bytes.toArray ∧
      ∀ place < size, (∀ i < bytes.length, (address.toNat + i) % size ≠ place) →
        byte (write put r bytes address) place = byte r place := by
  constructor
  · refine read_eq fun i hi => ?_
    have hplace : (address.toNat + i) % size < size :=
      Nat.mod_lt _ (Nat.lt_of_lt_of_le (Nat.zero_lt_of_lt hi) hlen)
    rw [hfold _ _ (write_keeps hkeeps h bytes address), haddress i hi]
    refine write_of_hits hkeeps (byte · ((address.toNat + i) % size))
      (fun r a v hr => hput r a v _ hr hplace) h hi (haddress i hi) fun j hj hhit => ?_
    rw [haddress j hj] at hhit
    exact eq_of_add_mod_eq hlen hj hi hhit
  · intro place hplace hmiss
    refine write_of_misses hkeeps (byte · place) (fun r a v hr => hput r a v place hr hplace) h
      fun i hi => ?_
    rw [haddress i hi]
    exact hmiss i hi

end Block

/-! ## RAM -/

namespace Ram

def Cell.address : Cell → Nat
  | main _ offset => offset.val
  | register offset => 0x100 + offset.val
  | xram _ offset => 0x180 + offset.val

theorem address_locate (ram : Ram) (address : Nat) :
    (ram.locate address).address = address % 512 := by
  unfold locate
  dsimp only
  split
  · rfl
  · split
    · exact Nat.add_sub_cancel' (by omega)
    · exact Nat.add_sub_cancel' (by omega)

theorem locate_mod (ram : Ram) (address : Nat) :
    ram.locate (address % 512) = ram.locate address := by
  simp only [locate, Nat.mod_mod]

theorem locate_eq_iff {ram : Ram} {x y : Nat} :
    ram.locate x = ram.locate y ↔ x % 512 = y % 512 := by
  constructor
  · intro h
    rw [← ram.address_locate, ← ram.address_locate, h]
  · intro h
    rw [← locate_mod, h, locate_mod]

theorem locate_eq_register_iff {ram : Ram} {address : Nat} {o : Fin 128} :
    ram.locate address = .register o ↔ address % 512 = 0x100 + o.val := by
  rw [← ram.locate_register o, locate_eq_iff, Nat.mod_eq_of_lt (by omega : 0x100 + o.val < 512)]

theorem locate_congr {ram ram' : Ram} (hmain : ram'.mainBank = ram.mainBank)
    (hxram : ram'.xramBank = ram.xramBank) : ram'.locate = ram.locate := by
  funext address
  rw [locate, locate, hmain, hxram]

theorem mainBank_eq {ram ram' : Ram}
    (h : (ram'.cell (.register 0x01)).bit 1 = (ram.cell (.register 0x01)).bit 1) :
    ram'.mainBank = ram.mainBank := by
  have hbank (r : Ram) : r.mainBank = if (r.cell (.register 0x01)).bit 1 then 1 else 0 := rfl
  rw [hbank, hbank, h]

theorem xramBank_eq {ram ram' : Ram} (h : (ram'.cell (.register 0x25)).toNat % 3 =
    (ram.cell (.register 0x25)).toNat % 3) : ram'.xramBank = ram.xramBank :=
  Fin.ext h

theorem register_write (ram : Ram) (address : Nat) (value : UInt8) (o : Fin 128) :
    (ram.write address value).cell (.register o) =
      if address % 512 = 0x100 + o.val then value else ram.cell (.register o) := by
  rw [write, cell_setCell]
  simp only [locate_eq_register_iff]

/-- The RAM with a block written to it under the bank selections of another. -/
def writeBlockUnder (selected ram : Ram) (bytes : List UInt8) (address : UInt64) : Ram :=
  Block.write (fun ram a value => ram.setCell (selected.locate a.toNat) value) ram bytes address

/-- A block that leaves the bank selections as they were is written under them throughout. -/
theorem writeBlock_eq {ram : Ram} {bytes : List UInt8} {address : UInt64}
    (hlen : bytes.length ≤ 512) (hmain : (ram.writeBlock bytes address).mainBank = ram.mainBank)
    (hxram : (ram.writeBlock bytes address).xramBank = ram.xramBank) :
    ram.writeBlock bytes address = ram.writeBlockUnder ram bytes address := by
  induction bytes generalizing ram address with
  | nil => rfl
  | cons b bytes ih =>
    let next := ram.write address.toNat b
    let last := next.writeBlock bytes (address + 1)
    -- A register that the first byte goes to is not written again, so it has its last value already.
    have hkeeps (o : Fin 128) : next.cell (.register o) = ram.cell (.register o) ∨
        last.cell (.register o) = next.cell (.register o) := by
      by_cases hhit : address.toNat % 512 = 0x100 + o.val
      · refine .inr (Block.write_of_misses (P := fun _ => True) (fun _ _ _ _ => trivial)
          (cell · (.register o)) (fun r a v _ => r.register_write a.toNat v o) trivial
          fun i hi => ?_)
        rw [add_one_add_ofNat, toNat_add_ofNat_mod (by decide)]
        rw [List.length_cons] at hlen
        omega
      · exact .inl ((ram.register_write _ _ _).trans (if_neg hhit))
    have hmain' : next.mainBank = ram.mainBank := by
      rcases hkeeps 0x01 with heq | heq
      · exact mainBank_eq (congrArg (UInt8.bit · 1) heq)
      · exact (mainBank_eq (congrArg (UInt8.bit · 1) heq)).symm.trans hmain
    have hxram' : next.xramBank = ram.xramBank := by
      rcases hkeeps 0x25 with heq | heq
      · exact xramBank_eq (congrArg (UInt8.toNat · % 3) heq)
      · exact (xramBank_eq (congrArg (UInt8.toNat · % 3) heq)).symm.trans hxram
    have hrest : next.writeBlock bytes (address + 1) =
        next.writeBlockUnder next bytes (address + 1) :=
      ih (Nat.le_of_succ_le hlen) (hmain.trans hmain'.symm) (hxram.trans hxram'.symm)
    refine hrest.trans ?_
    rw [writeBlockUnder, locate_congr hmain' hxram']
    rfl

section

variable (selected ram : Ram) {bytes : List UInt8} (address : UInt64)

theorem round_trip_under (hlen : bytes.length ≤ 512) :
    let after := selected.writeBlockUnder ram bytes address
    Block.read (fun a => after.cell (selected.locate a.toNat)) address bytes.length =
        bytes.toArray ∧
      ∀ place < 512, (∀ i < bytes.length, (address.toNat + i) % 512 ≠ place) →
        after.cell (selected.locate place) = ram.cell (selected.locate place) := by
  refine Block.round_trip (P := fun _ => True)
    (fun (r : Ram) x => r.cell (selected.locate x)) (fun _ _ _ _ => trivial) (fun r x _ => ?_)
    (fun r a v place _ hplace => ?_) trivial hlen fun i _ => toNat_add_ofNat_mod (by decide) address i
  · rw [locate_mod]
  · refine (cell_setCell ..).trans (if_congr ?_ rfl rfl)
    rw [locate_eq_iff, Nat.mod_eq_of_lt hplace]

theorem cell_writeBlockUnder {c : Cell} (h : ∀ a, selected.locate a ≠ c) :
    (selected.writeBlockUnder ram bytes address).cell c = ram.cell c :=
  Block.write_keeps (P := fun r : Ram => r.cell c = ram.cell c)
    (fun r a v hr => ((r.cell_setCell _ c v).trans (if_neg (h a.toNat))).trans hr) rfl _ _

theorem latches_writeBlockUnder :
    (selected.writeBlockUnder ram bytes address).latches = ram.latches :=
  Block.write_keeps (P := fun r : Ram => r.latches = ram.latches)
    (fun r _ v hr => (r.latches_setCell _ v).trans hr) rfl _ _

end

end Ram

/-! ## Flash -/

namespace Flash

theorem read_mod (flash : Flash) (address : Nat) :
    flash.read (address % size) = flash.read address := by
  simp only [read, place, Nat.mod_mod]

theorem read_write (flash : Flash) (a address : Nat) (value : UInt8) :
    (flash.write a value).read address =
      if a % size = address % size then value else flash.read address :=
  Vector.getElem_set (place a).isLt (place address).isLt

theorem round_trip (flash : Flash) {bytes : List UInt8} {address : UInt64}
    (hlen : bytes.length ≤ size) :
    (flash.writeBlock bytes address).readBlock address bytes.length = bytes.toArray ∧
      ∀ place < size, (∀ i < bytes.length, (address.toNat + i) % size ≠ place) →
        (flash.writeBlock bytes address).read place = flash.read place := by
  refine Block.round_trip (P := fun _ => True) Flash.read (fun _ _ _ _ => trivial)
    (fun r x _ => (r.read_mod x).symm) (fun r a v place _ hplace => ?_) trivial hlen
    fun i _ => toNat_add_ofNat_mod (by decide) address i
  rw [read_write, Nat.mod_eq_of_lt hplace]

end Flash

/-! ## ROM -/

namespace Rom

theorem size_load (rom : Rom) (address : Nat) (value : UInt8) :
    (rom.load address value).size = rom.size := by
  unfold load
  split
  · rename_i h
    exact Array.size_set (rom.place h address).isLt
  · rfl

theorem read_mod (rom : Rom) (address : Nat) : rom.read (address % rom.size) = rom.read address := by
  simp only [read, place, size, Nat.mod_mod]

theorem read_load (rom : Rom) (h : 0 < rom.bytes.size) (a address : Nat) (value : UInt8) :
    (rom.load a value).read address =
      if a % rom.size = address % rom.size then value else rom.read address := by
  have hsize : (rom.load a value).bytes.size = rom.bytes.size := rom.size_load a value
  have hbytes : (rom.load a value).bytes = rom.bytes.set (rom.place h a) value := by
    rw [load, dif_pos h]
  rw [read_eq, read_eq, hsize, hbytes, Array.getElem?_set]
  split
  · rename_i heq
    rw [if_pos (show a % rom.size = address % rom.size from heq)]
    rfl
  · rename_i hne
    rw [if_neg (show ¬ a % rom.size = address % rom.size from hne)]

theorem size_loadBlock (rom : Rom) (bytes : List UInt8) (address : UInt64) :
    (rom.loadBlock bytes address).size = rom.size :=
  Block.write_keeps (P := fun r : Rom => r.size = rom.size)
    (fun r a v hr => (r.size_load a.toNat v).trans hr) rfl bytes address

/-- A ROM's size need not divide that of the words, so no address may wrap there. -/
theorem round_trip (rom : Rom) {bytes : List UInt8} {address : UInt64} (hpos : 0 < rom.size)
    (hlen : bytes.length ≤ rom.size) (hend : address.toNat + bytes.length ≤ UInt64.size) :
    (rom.loadBlock bytes address).readBlock address bytes.length = bytes.toArray ∧
      ∀ place < rom.size, (∀ i < bytes.length, (address.toNat + i) % rom.size ≠ place) →
        (rom.loadBlock bytes address).read place = rom.read place := by
  refine Block.round_trip (P := fun r : Rom => r.size = rom.size) Rom.read
    (fun r a v hr => (r.size_load a.toNat v).trans hr) (fun r x hr => hr ▸ (r.read_mod x).symm)
    (fun r a v place hr hplace => ?_) rfl hlen fun i hi => ?_
  · rw [r.read_load (Nat.lt_of_lt_of_eq hpos hr.symm), hr, Nat.mod_eq_of_lt hplace]
  · have hlt : address.toNat + i < UInt64.size := by omega
    rw [toNat_add_ofNat, Nat.mod_eq_of_lt hlt]

end Rom

theorem Machine.rom_writeProgram (m : Machine) (address : UInt16) (value : UInt8) :
    (m.writeProgram address value).rom = m.rom := by
  unfold writeProgram
  split
  · rfl
  · rfl

/-- **Blocks read back.** A block no longer than the space of its region comes back from where it was
written, wherever it starts, and all other bytes of the region are left alone: in RAM, where it may
run over the bank selections if it leaves them as they were, and where the other banks and the
latches are left alone, too; in flash; and in a ROM that is there, for loaders, as long as no address
wraps around at the end of the words. Writes of programs leave a ROM alone altogether. -/
theorem block_round_trip (address : UInt64) (bytes : List UInt8) :
    (∀ ram : Ram, bytes.length ≤ 512 →
      let after := ram.writeBlock bytes address
      (after.readRaw Register.psw.toNat).bit 1 = (ram.readRaw Register.psw.toNat).bit 1 →
      (after.readRaw Register.xbnk.toNat).toNat % 3 =
        (ram.readRaw Register.xbnk.toNat).toNat % 3 →
      after.readBlock address bytes.length = bytes.toArray ∧
      (∀ place < 512, (∀ i < bytes.length, (address.toNat + i) % 512 ≠ place) →
        after.readRaw place = ram.readRaw place) ∧
      (∀ bank o, bank ≠ ram.mainBank → after.cell (.main bank o) = ram.cell (.main bank o)) ∧
      (∀ bank o, bank ≠ ram.xramBank → after.cell (.xram bank o) = ram.cell (.xram bank o)) ∧
      after.latches = ram.latches) ∧
    (∀ flash : Flash, bytes.length ≤ 131072 →
      let after := flash.writeBlock bytes address
      after.readBlock address bytes.length = bytes.toArray ∧
      ∀ place < 131072, (∀ i < bytes.length, (address.toNat + i) % 131072 ≠ place) →
        after.read place = flash.read place) ∧
    (∀ rom : Rom, 0 < rom.size → bytes.length ≤ rom.size →
      address.toNat + bytes.length ≤ UInt64.size →
      let after := rom.loadBlock bytes address
      after.readBlock address bytes.length = bytes.toArray ∧ after.size = rom.size ∧
      ∀ place < rom.size, (∀ i < bytes.length, (address.toNat + i) % rom.size ≠ place) →
        after.read place = rom.read place) ∧
    (∀ (rom : Rom) place value, (rom.write place value).1 = rom) ∧
    ∀ (m : Machine) place value, (m.writeProgram place value).rom = m.rom := by
  refine ⟨?_, fun flash => flash.round_trip, fun rom hpos hlen hend => ?_, fun _ _ _ => rfl,
    Machine.rom_writeProgram⟩
  · intro ram hlen after hpsw hxbnk
    have hmain : after.mainBank = ram.mainBank := Ram.mainBank_eq hpsw
    have hxram : after.xramBank = ram.xramBank := Ram.xramBank_eq hxbnk
    have hunder : after = ram.writeBlockUnder ram bytes address := Ram.writeBlock_eq hlen hmain hxram
    have hread : after.readRaw = fun place => after.cell (ram.locate place) := by
      funext place
      rw [Ram.readRaw, Ram.locate_congr hmain hxram]
    obtain ⟨hback, hrest⟩ := ram.round_trip_under ram address hlen
    refine ⟨?_, fun place hplace hmiss => ?_, fun bank o hbank => ?_, fun bank o hbank => ?_, ?_⟩
    · rw [Ram.readBlock, hread, hunder]
      exact hback
    · rw [hread, hunder]
      exact hrest place hplace hmiss
    · rw [hunder]
      exact Ram.cell_writeBlockUnder _ _ _ fun a ha => hbank (Ram.eq_mainBank_of_locate ha)
    · rw [hunder]
      exact Ram.cell_writeBlockUnder _ _ _ fun a ha => hbank (Ram.eq_xramBank_of_locate ha)
    · rw [hunder]
      exact Ram.latches_writeBlockUnder ..
  · obtain ⟨hback, hrest⟩ := rom.round_trip hpos hlen hend
    exact ⟨hback, rom.size_loadBlock bytes address, hrest⟩

/-- Blocks over the ends of the regions; that in RAM goes over the end of the words, too. -/
theorem block_round_trip_across_end :
    let ram : Ram := { xram := .replicate 384 1 }
    let bytes := [5, 6, 7]
    let after := ram.writeBlock bytes 0xFFFFFFFFFFFFFFFF
    let rom : Rom := { bytes := #[1, 2, 3] }
    after.readBlock 0xFFFFFFFFFFFFFFFF 3 = #[5, 6, 7] ∧ after.readRaw 0x1FE = 1 ∧
      after.cell (.xram 1 0x7F) = 1 ∧
      ((Flash.mk (.replicate 0x20000 0)).writeBlock bytes 0x1FFFF).readBlock 0x1FFFF 3 =
        #[5, 6, 7] ∧
      (rom.loadBlock bytes 0xFFFFFFFFFFFFFFFD).readBlock 0xFFFFFFFFFFFFFFFD 3 = #[5, 6, 7] := by
  intro ram bytes after rom
  obtain ⟨hback, hrest, -, hxram, -⟩ := (block_round_trip 0xFFFFFFFFFFFFFFFF bytes).1 ram
    (by decide) (by decide +kernel) (by decide +kernel)
  have hflash := (block_round_trip 0x1FFFF bytes).2.1 (Flash.mk (.replicate 0x20000 0)) (by decide)
  have hrom := (block_round_trip 0xFFFFFFFFFFFFFFFD bytes).2.2.1 rom (by decide) (by decide)
    (by decide)
  refine ⟨hback, ?_, ?_, hflash.1, hrom.1⟩
  · exact (hrest 0x1FE (by decide) (by decide)).trans (by decide +kernel)
  · exact (hxram 1 0x7F (by decide +kernel)).trans (by decide +kernel)

end VisualMemory
