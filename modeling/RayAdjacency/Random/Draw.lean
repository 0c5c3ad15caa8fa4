import RayAdjacency.Random.Stream

/-!
# Random draws

Draws of the distributions that the generator and the bit order need, each a function of the words
of a `RandomStream`. An invalid request (a probability outside the unit interval, an empty or
infinite range) is a broken contract. Where words are rejected, the number of attempts is bounded;
a word is rejected with probability below one half, so the bound is never met in practice, and
what is drawn then still lies in the range.

Models `gen_range` and `gen_bool` over that generator.
-/

namespace RayAdjacency

/-- A computation that draws random words. -/
abbrev DrawM (α : Type) := ExceptT Stop (StateM RandomStream) α

namespace Draw

/-- Attempts before a rejected word is taken after all. -/
def attempts : Nat := 256

/-- The next word. -/
def word : DrawM UInt64 := do
  let (w, s) := (← get).next
  set s
  return w

/-- Draws words until `accept` holds of what `f` makes of one. -/
def retry {α : Type} (f : UInt64 → α) (accept : UInt64 → Bool) : Nat → DrawM α
  | 0 => return f (← word)
  | n + 1 => do
    let w ← word
    if accept w then return f w else retry f accept n

/-- A number below `n`: the high half of the product of a word with `n`, for words whose low half
does not pass the largest multiple of the range. -/
def below (n : Nat) : DrawM Nat :=
  if n = 0 then throw (.panicked "cannot sample empty range")
  else
    let zone := n <<< (63 - Nat.log2 n) - 1
    retry (fun w ↦ w.toNat * n / wordLimit) (fun w ↦ w.toNat * n % wordLimit ≤ zone) attempts

/-- Whether an event of probability `p` happens. The sure event draws no word. -/
def bernoulli (p : Float) : DrawM Bool :=
  if p == 1.0 then return true
  else if 0.0 ≤ p && p < 1.0 then do
    let scaled := (p * 18446744073709551616.0).toUInt64
    return decide ((← word) < scaled)
  else throw (.panicked "p is outside range [0.0, 1.0]")

/-- The fraction in `[0, 1)` that the upper 52 digits of a word spell. -/
def fraction (w : UInt64) : Float :=
  Float.ofBits ((w >>> 12) ||| 0x3ff0000000000000) - 1.0

/-- A number in `[low, high)`. -/
def between (low high : Float) : DrawM Float :=
  let place (w : UInt64) : Float := fraction w * (high - low) + low
  retry place (fun w ↦ place w < high) attempts

/-- Lowers a scale until the largest fraction does not pass `high`. -/
private def fitScale (low high largest : Float) : Nat → Float → Float
  | 0, scale => scale
  | n + 1, scale =>
    if scale * largest + low > high then
      fitScale low high largest n (Float.ofBits (scale.toBits - 1))
    else scale

/-- A number in `[low, high]`. -/
def within (low high : Float) : DrawM Float :=
  if !(low ≤ high) then throw (.panicked "cannot sample empty range")
  else
    let largest := Float.ofBits 0x3feffffffffffffe
    let scale := (high - low) / largest
    if !low.isFinite || !high.isFinite || !scale.isFinite then
      throw (.panicked "range overflow")
    else
      let scale := fitScale low high largest attempts scale
      return fraction (← word) * scale + low

end Draw
end RayAdjacency
