/-
# Rate limits

How much a Guest Listener takes from anyone holding an Invite Link. Each limit
is a token bucket: a burst passes, then a steady rate. Token counts and rates
are floating point numbers in the source and exact rationals here; an instant
is a number of nanoseconds.
-/

import Mathlib.Algebra.Order.Ring.Unbundled.Rat

namespace Harmony.ListenTogether

/-- A point of the monotonic clock, in nanoseconds. -/
abbrev Instant := ℕ

/-- A burst of `burst` requests passes; then `perSecond`. -/
structure Rate where
  burst : ℚ
  perSecond : ℚ

/-- Room commands, from each client. -/
def commandsRate : Rate := ⟨20, 20⟩

/-- `POST join`, from everyone together. -/
def joinsRate : Rate := ⟨20, 1 / 5⟩

def libraryRate : Rate := ⟨1000, 60⟩

def photosRate : Rate := ⟨120, 10⟩

def lookupsRate : Rate := ⟨40, 2⟩

def roomRate : Rate := commandsRate

/-- Audio streams one Guest holds open. -/
def maxAudioStreams : ℕ := 4

/-- What a Guest's read draws on. -/
inductive Budget
  | library
  | photos
  | lookups
  | room
  deriving DecidableEq

structure TokenBucket where
  rate : Rate
  tokens : ℚ
  refilledAt : Instant

namespace TokenBucket

def new (rate : Rate) (now : Instant) : TokenBucket := ⟨rate, rate.burst, now⟩

/-- The time from the last refill, none when the clock is behind it. -/
def elapsedSeconds (bucket : TokenBucket) (now : Instant) : ℚ :=
  ((now - bucket.refilledAt : ℕ) : ℚ) / 10 ^ 9

def refill (bucket : TokenBucket) (now : Instant) : TokenBucket :=
  { bucket with
    tokens := min (bucket.tokens + bucket.elapsedSeconds now * bucket.rate.perSecond)
      bucket.rate.burst
    refilledAt := now }

/-- Whether the request passes, and the bucket after it. -/
def take (bucket : TokenBucket) (now : Instant) : Bool × TokenBucket :=
  let refilled := bucket.refill now
  if 1 ≤ refilled.tokens then (true, { refilled with tokens := refilled.tokens - 1 })
  else (false, refilled)

end TokenBucket

/-- One Guest's read budgets. -/
structure ReadBudgets where
  library : TokenBucket
  photos : TokenBucket
  lookups : TokenBucket
  room : TokenBucket

namespace ReadBudgets

def new (now : Instant) : ReadBudgets where
  library := .new libraryRate now
  photos := .new photosRate now
  lookups := .new lookupsRate now
  room := .new roomRate now

/-- Draws on one budget alone. -/
def take (budgets : ReadBudgets) (budget : Budget) (now : Instant) : Bool × ReadBudgets :=
  match budget with
  | .library => (budgets.library.take now).map id ({ budgets with library := · })
  | .photos => (budgets.photos.take now).map id ({ budgets with photos := · })
  | .lookups => (budgets.lookups.take now).map id ({ budgets with lookups := · })
  | .room => (budgets.room.take now).map id ({ budgets with room := · })

end ReadBudgets

end Harmony.ListenTogether
