/-!
# Times in milliseconds

A time in milliseconds is kept as the bits of its 64-bit number. The bits tell apart undefined
values, which the number itself does not, so that all times have an order.

Models the order `total_cmp` of times.
-/

namespace RayAdjacency

/-- A time in milliseconds. -/
structure Millis where
  bits : UInt64
deriving Repr, DecidableEq

namespace Millis

/-- The time of a number of milliseconds. -/
def ofFloat (x : Float) : Millis := ⟨x.toBits⟩

/-- The number of milliseconds. -/
def toFloat (m : Millis) : Float := Float.ofBits m.bits

/-- The place of a time in the order of all times: the negative ones, larger magnitudes first, then
the others. An undefined one lies beyond the infinite one of its sign. -/
def rank (m : Millis) : Int :=
  if m.bits.toNat < 0x8000000000000000 then m.bits.toNat
  else 0x7fffffffffffffff - (m.bits.toNat : Int)

example : (ofFloat (-1.5)).rank < (ofFloat (-0.0)).rank := by decide +kernel
example : (ofFloat (-0.0)).rank < (ofFloat 0.0).rank := by decide +kernel
example : (⟨0xfff8000000000000⟩ : Millis).rank < (ofFloat (-1.5)).rank := by decide +kernel

end Millis
end RayAdjacency
