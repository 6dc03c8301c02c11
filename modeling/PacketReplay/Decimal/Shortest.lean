import PacketReplay.Decimal.Binary

/-!
# Shortest decimals

The numbers that round to a given floating-point magnitude form an interval around it, with its ends if
and only if the mantissa is even. Among the grids `…, 100, 10, 1, 0.1, …` the shortest decimal lies on
the coarsest one with a point in the interval; of the two points next to the magnitude the nearer one is
taken, and `Tie` decides when both are equally near.
-/
namespace PacketReplay.Decimal

/-- Which of two equally near decimals is taken. -/
inductive Tie where
  | toEven
  | up
  deriving DecidableEq, Repr

/-- An interval on the grid of a power of ten. All three numbers count in units of `1 / unit` grid
steps. -/
structure OnGrid where
  low : Nat
  value : Nat
  high : Nat
  unit : Nat
  closed : Bool

/-- The interval of a magnitude on the grid `10 ^ power`. Its lower end is one half of a step below the
magnitude, or a quarter where the distance below is narrow; so everything counts in quarter steps. -/
def onGrid (mantissa : Nat) (exponent power : Int) : OnGrid :=
  let scale := Nat.pow 2 (exponent - 2).toNat * Nat.pow 10 (-power).toNat
  { low := (4 * mantissa - if narrowBelow mantissa exponent then 1 else 2) * scale
    value := 4 * mantissa * scale
    high := (4 * mantissa + 2) * scale
    unit := Nat.pow 2 (2 - exponent).toNat * Nat.pow 10 power.toNat
    closed := mantissa % 2 = 0 }

/-- Whether a point of the grid lies in the interval. -/
def OnGrid.holds (grid : OnGrid) (point : Nat) : Bool :=
  if grid.closed then decide (grid.low ≤ point * grid.unit) && decide (point * grid.unit ≤ grid.high)
  else decide (grid.low < point * grid.unit) && decide (point * grid.unit < grid.high)

/-- The nearer of the points `below` and `below + 1`. -/
def OnGrid.nearer (grid : OnGrid) (tie : Tie) (below : Nat) : Nat :=
  let downward := grid.value - below * grid.unit
  let upward := (below + 1) * grid.unit - grid.value
  if downward < upward then below
  else if upward < downward then below + 1
  else match tie with
    | .toEven => below + below % 2
    | .up => below + 1

/-- The point of the grid to be taken, if the interval has one. -/
def OnGrid.point? (grid : OnGrid) (tie : Tie) : Option Nat :=
  let below := grid.value / grid.unit
  match grid.holds below, grid.holds (below + 1) with
  | true, true => some (grid.nearer tie below)
  | true, false => some below
  | false, true => some (below + 1)
  | false, false => none

/-- Whatever is taken reads back as the magnitude. -/
theorem OnGrid.holds_of_point? {grid : OnGrid} {tie : Tie} {point : Nat}
    (taken : grid.point? tie = some point) : grid.holds point = true := by
  unfold point? at taken
  dsimp only at taken
  split at taken
  next below above =>
    cases taken
    unfold nearer
    dsimp only
    split
    · exact below
    · split
      · exact above
      · cases tie with
        | up => exact above
        | toEven =>
          -- The even one of two neighbours is one of them.
          rcases Nat.mod_two_eq_zero_or_one (grid.value / grid.unit) with even | odd
          · rw [even]; exact below
          · rw [odd]; exact above
  next below _ => cases taken; exact below
  next _ above => cases taken; exact above
  · cases taken

/-- A decimal number `significand * 10 ^ power`. -/
structure Digits where
  significand : Nat
  power : Int
  deriving DecidableEq, Repr

/-- Search the grids from `10 ^ power` on to finer ones. -/
def searchGrids (tie : Tie) (mantissa : Nat) (exponent : Int) : Nat → Int → Digits
  | 0, power => ⟨(onGrid mantissa exponent power).value / (onGrid mantissa exponent power).unit, power⟩
  | budget + 1, power =>
    match (onGrid mantissa exponent power).point? tie with
    | some point => ⟨point, power⟩
    | none => searchGrids tie mantissa exponent budget (power - 1)

/-- A power of ten above the magnitude, by at most two places: `log10 2` is a little less than
`30103 / 100000`. -/
def powerAbove (mantissa : Nat) (exponent : Int) : Int :=
  (mantissa.log2 + exponent + 1) * 30103 / 100000 + 1

/-- The shortest decimal that reads back as a positive magnitude. Seventeen digits always suffice, and
the search starts at most three places above the first digit. -/
def shortest (tie : Tie) (mantissa : Nat) (exponent : Int) : Digits :=
  if mantissa = 0 then ⟨0, 0⟩ else searchGrids tie mantissa exponent 20 (powerAbove mantissa exponent)

end PacketReplay.Decimal
