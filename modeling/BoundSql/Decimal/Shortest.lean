import BoundSql.Decimal.Basic

/-!
# The shortest decimal that reads back

Among the decimals whose nearest binary64 is a given number, `shortest` takes
one with the fewest digits, and of these the one nearest to the number.  It
looks for it on ever finer grids of step 10 ^ g: the first grid on which one of
the number's two neighbours reads back decides.
-/

namespace BoundSql

/-- What is taken when two shortest decimals are equally near. -/
inductive Tie where
  | toEven
  | awayFromZero
  deriving DecidableEq, Repr

namespace Decimal

/--
The neighbours of `num / den` on the grid of step 10 ^ g, the nearer first;
`num / den` is given in steps of the grid.
-/
def neighbours (tie : Tie) (num den : Nat) (g : Int) : List Decimal :=
  let below := num / den
  let rest := num % den
  let upFirst : Bool :=
    den < 2 * rest ||
      (den == 2 * rest && (tie == .awayFromZero || below % 2 == 1))
  if upFirst then [⟨below + 1, g⟩, ⟨below, g⟩] else [⟨below, g⟩, ⟨below + 1, g⟩]

/-- The nearer neighbour of `units` on the grid of step 10 ^ g that reads back as `magnitude`. -/
def onGrid? (tie : Tie) (magnitude units : Nat) (g : Int) : Option Decimal :=
  let num := units * tenPow (-g).toNat
  let den := tenPow g.toNat * Binary64.unitsInOne
  (neighbours tie num den g).find? fun d => d.nearest? == some magnitude

/-- The value of `units` with all its digits: halving once takes one more place, as 1/2 = 5/10. -/
def exact (units : Nat) : Decimal :=
  ⟨units * Nat.pow 5 Binary64.unitExponent, -Binary64.unitExponent⟩

/--
The first grid is that of the leading digit or one coarser: the leading digit's
exponent is the whole part of the number's logarithm, of which the position of
the leading bit gives all but the last step.  Seventeen digits always suffice;
a search that found nothing would fall back on all digits, which read back too.
-/
def shortest (tie : Tie) (x : Binary64) : Decimal :=
  let units := x.units
  let first : Int := ((units.log2 : Int) - Binary64.unitExponent) * 30103 / 100000 + 1
  let found := (List.range 18).findSome? fun (step : Nat) =>
    onGrid? tie x.magnitude units (first - step)
  (found.getD (exact units)).reduce

/-! ## Reading back -/

theorem nearest?_of_onGrid? {tie : Tie} {magnitude units : Nat} {g : Int} {d : Decimal}
    (h : onGrid? tie magnitude units g = some d) : d.nearest? = some magnitude := by
  simpa using List.find?_some h

theorem nearest?_exact (x : Binary64) (finite : x.isFinite = true) :
    (exact x.units).nearest? = some x.magnitude := by
  have value : Binary64.nearest (exact x.units).numerator (exact x.units).denominator
      = x.magnitude := by
    rw [← Binary64.nearest_units x]
    apply nearest_congr (denominator_pos _) (by decide)
    have halves (n : Nat) : Nat.pow 5 n * 1 <<< n = tenPow n := by
      rw [Nat.shiftLeft_eq, Nat.one_mul]
      exact (Nat.mul_pow 5 2 n).symm
    simp only [numerator, denominator, exact, Int.neg_neg, Int.toNat_natCast,
      Int.toNat_neg_natCast, tenPow_zero, Nat.mul_one, Binary64.unitsInOne]
    rw [Nat.mul_assoc, halves]
  have : x.magnitude < Binary64.infinity := by simpa [Binary64.isFinite] using finite
  rw [nearest?_eq, value, inRange?, if_pos this]

theorem nearest?_shortest (tie : Tie) (x : Binary64) (finite : x.isFinite = true) :
    (shortest tie x).nearest? = some x.magnitude := by
  simp only [shortest, nearest?_reduce]
  generalize hfound : (List.range 18).findSome? _ = found
  cases found with
  | none => exact nearest?_exact x finite
  | some d =>
      obtain ⟨_, _, hit⟩ := List.exists_of_findSome?_eq_some hfound
      exact nearest?_of_onGrid? hit

end Decimal

end BoundSql
