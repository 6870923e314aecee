/-!
# Durations

A span of time in whole seconds and nanoseconds.
-/

namespace Arbor

structure Duration where
  seconds : UInt64
  nanos : Fin 1000000000
  deriving DecidableEq, BEq, Repr, Inhabited

namespace Duration

def zero : Duration := ⟨0, 0⟩

def ofMillis (ms : UInt64) : Duration :=
  ⟨ms / 1000, ⟨(ms.toNat % 1000) * 1000000, by omega⟩⟩

def toMillis (d : Duration) : Nat := d.seconds.toNat * 1000 + d.nanos / 1000000

end Duration

end Arbor
