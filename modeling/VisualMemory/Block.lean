/-!
# Block transfers

A memory region answers for every 64-bit address. A block is moved byte by byte from a start
address upwards, and addresses wrap around at `2 ^ 64`.

* `Block.read`: the bytes of a block, given the region's answer for one address.
* `Block.write`: a region after the bytes of a block have been written in order.
-/

namespace VisualMemory.Block

/-- The `count` bytes from `address` on. -/
def read (byte : UInt64 → UInt8) (address : UInt64) (count : Nat) : Array UInt8 :=
  Array.ofFn fun i : Fin count => byte (address + UInt64.ofNat i)

/-- The region with `bytes` written from `address` on. -/
def write {Region : Type} (put : Region → UInt64 → UInt8 → Region) :
    Region → List UInt8 → UInt64 → Region
  | region, [], _ => region
  | region, byte :: bytes, address => write put (put region address byte) bytes (address + 1)

end VisualMemory.Block
