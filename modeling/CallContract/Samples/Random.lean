/-!
# Random sources

A random source is a state from which whole numbers are drawn; all that is known of a drawn number
is that it lies in the range asked for. `Words` is one such source, a counter whose steps are mixed
into 64-bit words; equal seeds give equal numbers.

**Results.**
* `Words.draw_mem`: the numbers drawn from words lie in the range.
-/
namespace CallContract.Samples

/-- Drawing whole numbers between two bounds, both included. -/
class RandomSource (σ : Type) where
  draw : Int → Int → σ → Int × σ
  draw_mem : ∀ {low high : Int} (s : σ), low ≤ high →
    low ≤ (draw low high s).1 ∧ (draw low high s).1 ≤ high

/-- A source that mixes the words of a counter. -/
structure Words where
  counter : UInt64
deriving DecidableEq, Repr

namespace Words

def defaultSeed : UInt64 := 0xa79c4e

/-- The counter's word, its bits spread over all places. -/
def mix (z : UInt64) : UInt64 :=
  let z := (z ^^^ (z >>> 30)) * 0xbf58476d1ce4e5b9
  let z := (z ^^^ (z >>> 27)) * 0x94d049bb133111eb
  z ^^^ (z >>> 31)

def next (w : Words) : UInt64 × Words :=
  let counter := w.counter + 0x9e3779b97f4a7c15
  (mix counter, ⟨counter⟩)

def draw (low high : Int) (w : Words) : Int × Words :=
  (low + (w.next.1.toNat : Int) % (high - low + 1), w.next.2)

theorem draw_mem {low high : Int} (w : Words) (h : low ≤ high) :
    low ≤ (draw low high w).1 ∧ (draw low high w).1 ≤ high := by
  have hpos : 0 < high - low + 1 := by omega
  have h₁ := Int.emod_nonneg (w.next.1.toNat : Int) (Int.ne_of_gt hpos)
  have h₂ := Int.emod_lt_of_pos (w.next.1.toNat : Int) hpos
  simp only [draw]
  omega

instance : RandomSource Words := ⟨draw, draw_mem⟩

end Words
end CallContract.Samples
