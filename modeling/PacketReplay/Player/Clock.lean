/-!
# Clocks

A clock ends every wait on one of its ticks: the first tick at which the wait has lasted as long as it was
meant to. So a wait is never too short, and too long by less than a tick.
-/
namespace PacketReplay

/-- A clock by the length of its tick in nanoseconds. -/
structure Clock where
  tick : Nat
  tick_pos : 0 < tick := by decide
  deriving DecidableEq, Repr

namespace Clock

/-- A clock on which a wait lasts exactly its delay. -/
def exact : Clock := ⟨1, by decide⟩

/-- A clock that ticks once a millisecond. -/
def milliseconds : Clock := ⟨1000000, by decide⟩

/-- How long a wait for a delay lasts, in nanoseconds, if it begins on a tick. -/
def wait (clock : Clock) (delay : Nat) : Nat := (delay + (clock.tick - 1)) / clock.tick * clock.tick

theorem le_wait (clock : Clock) (delay : Nat) : delay ≤ clock.wait delay := by
  have quotient := Nat.div_add_mod (delay + (clock.tick - 1)) clock.tick
  have remainder := Nat.mod_lt (delay + (clock.tick - 1)) clock.tick_pos
  have positive := clock.tick_pos
  rw [Nat.mul_comm] at quotient
  unfold wait
  omega

theorem wait_lt (clock : Clock) (delay : Nat) : clock.wait delay < delay + clock.tick := by
  have quotient := Nat.div_add_mod (delay + (clock.tick - 1)) clock.tick
  have positive := clock.tick_pos
  rw [Nat.mul_comm] at quotient
  unfold wait
  omega

@[simp] theorem wait_zero (clock : Clock) : clock.wait 0 = 0 := by
  have positive := clock.tick_pos
  simp [wait, Nat.div_eq_of_lt (Nat.sub_one_lt (Nat.ne_of_gt positive))]

@[simp] theorem wait_exact (delay : Nat) : exact.wait delay = delay := by
  simp [wait, exact]

end Clock
end PacketReplay
