/-!
# Durations

Whole seconds and a part of a second in nanoseconds.
-/
namespace AuthDict

structure Duration where
  secs : UInt64
  nanos : Nat
  nanos_lt : nanos < 1000000000
deriving DecidableEq, Repr

namespace Duration

def zero : Duration := ⟨0, 0, by decide⟩

/-- The duration of some seconds and nanoseconds, which may be a second or more. There is none if
the seconds do not fit 64 bits. -/
def ofParts? (secs nanos : Nat) : Option Duration :=
  if secs + nanos / 1000000000 < UInt64.size then
    some ⟨UInt64.ofNat (secs + nanos / 1000000000), nanos % 1000000000, by omega⟩
  else none

def ofMillis (ms : UInt64) : Duration :=
  ⟨ms / 1000, (ms % 1000).toNat * 1000000, by
    have h : (ms % 1000).toNat < 1000 := by
      rw [UInt64.toNat_mod]; exact Nat.mod_lt _ (by decide)
    omega⟩

/-- The seconds that a clock shows when a deadline is set, taken to be an hour. -/
def clockReading : Nat := 3600

/-- Whether the end of a period that begins now can be told on a clock, which counts its seconds in
a signed 64-bit number. -/
def endsOnClock (d : Duration) : Bool := d.secs.toNat + clockReading < 1 <<< 63

def toNanos (d : Duration) : Nat := d.secs.toNat * 1000000000 + d.nanos

end Duration

end AuthDict
