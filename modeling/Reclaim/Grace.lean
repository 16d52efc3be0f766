import Reclaim.Time.Instant

/-!
# Grace periods

Data may be removed when it has been dead for longer than the grace period at
the time of reference.
-/

namespace Reclaim

/-- A time of reference and a period in nanoseconds before it. -/
structure GracePolicy where
  reference : Time.Instant
  nanos : Int
  deriving DecidableEq

namespace GracePolicy

/-- More than the grace period lies between the date and the time of reference. -/
def isExpired (g : GracePolicy) (date : Time.Instant) : Bool :=
  g.nanos < g.reference.nanosSince date

end GracePolicy
end Reclaim
