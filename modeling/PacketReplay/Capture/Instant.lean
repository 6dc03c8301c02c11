/-!
# Instants

A moment of the monotonic clock as a capture prints it: whole seconds and nanoseconds. Instants are
ordered by seconds first; on the time axis they are floating-point seconds.
-/
namespace PacketReplay

structure Instant where
  sec : UInt64
  nsec : UInt64
  deriving DecidableEq, Repr

namespace Instant

instance : Ord Instant :=
  ⟨fun left right => (compare left.sec right.sec).then (compare left.nsec right.nsec)⟩

theorem compare_eq_iff (left right : Instant) : compare left right = .eq ↔ left = right := by
  cases left; cases right
  change Ordering.then (compare _ _) (compare _ _) = .eq ↔ _
  rw [Ordering.then_eq_eq, Std.compare_eq_iff_eq, Std.compare_eq_iff_eq, Instant.mk.injEq]

/-- The instant in seconds: both numbers rounded to floating point, the nanoseconds divided by `10^9`,
then added. -/
def toSeconds (instant : Instant) : Float :=
  instant.sec.toFloat + instant.nsec.toFloat / 1e9

/-- The instants from the earliest to the latest. -/
def inOrder (instants : List Instant) : List Instant :=
  instants.mergeSort fun left right => (compare left right).isLE

end Instant
end PacketReplay
