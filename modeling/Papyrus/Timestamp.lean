/-!
# Points in time

A modification time is a number of nanoseconds since the epoch; times before the
epoch are negative. Only equality matters to the cache.
-/
namespace Papyrus

/-- Nanoseconds since the epoch. -/
structure Timestamp where
  nanoseconds : Int
  deriving DecidableEq, Repr

namespace Timestamp

/-- The time a number of seconds and nanoseconds after the epoch. -/
def ofParts (seconds : Int) (nanoseconds : Nat) : Timestamp :=
  ⟨seconds * 1000000000 + nanoseconds⟩

end Timestamp
end Papyrus
