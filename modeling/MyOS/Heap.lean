import MyOS.Base.Aligned
import MyOS.StringC

/-!
kmalloc_stub.c: the allocator moves one pointer up and never looks back.
`size_t` and pointers are 32 bits wide; `free` does nothing.
-/

namespace MyOS

/-- Where the heap starts. -/
def heapStart : UInt32 := 0x01000000

/-- The block returned, and the heap pointer after the call. -/
def kmalloc (heap sz : UInt32) : UInt32 × UInt32 := (heap, heap + ((sz + 15) &&& ~~~15))

def malloc (heap size : UInt32) : UInt32 × UInt32 := kmalloc heap size

/-- The block, the heap pointer, and the memory after `memset`. -/
def calloc (heap : UInt32) (ram : Mem) (n size : UInt32) : UInt32 × UInt32 × Mem :=
  let tot := n * size
  let p := (kmalloc heap tot).1
  (p, (kmalloc heap tot).2, if p ≠ 0 then memset ram p 0 tot.toNat else ram)

/-! ## How far the pointer moves -/

/-- The size rounded up to a multiple of 16, modulo 2^32. -/
theorem toNat_roundUp (sz : UInt32) :
    ((sz + 15) &&& ~~~15).toNat = (sz.toNat + 15) % 2 ^ 32 / 16 * 16 := by
  have mask : (~~~15 : UInt32).toNat = (2 ^ (32 - 4) - 1) * 2 ^ 4 := rfl
  rw [Aligned.toNat_and_high _ (by decide) mask, UInt32.toNat_add]
  rfl

theorem toNat_kmalloc (heap sz : UInt32) :
    (kmalloc heap sz).2.toNat =
      (heap.toNat + (sz.toNat + 15) % 2 ^ 32 / 16 * 16) % 2 ^ 32 := by
  rw [kmalloc, UInt32.toNat_add, toNat_roundUp]

end MyOS
