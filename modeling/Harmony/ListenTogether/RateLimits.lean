/-
# The token buckets bound the rate

Over any window of calls a bucket lets through no more than a burst and what the rate
gives for the time between the first call and the last. Refused calls cost nothing: who
has waited long enough for one token is let through, however often they asked meanwhile.
-/

import Harmony.ListenTogether.Limits
import Mathlib.Data.List.Basic
import Mathlib.Tactic.Linarith

namespace Harmony.ListenTogether

/-- At least one request passes at once, and tokens come back. -/
structure Rate.Proper (rate : Rate) : Prop where
  burst : 1 ≤ rate.burst
  perSecond : 0 < rate.perSecond

/-- The rates that there are. -/
def rates : List Rate := [commandsRate, joinsRate, libraryRate, photosRate, lookupsRate, roomRate]

theorem proper_of_mem_rates : ∀ rate ∈ rates, rate.Proper := by
  intro rate hrate
  simp only [rates, List.mem_cons, List.not_mem_nil, or_false] at hrate
  rcases hrate with rfl | rfl | rfl | rfl | rfl | rfl <;> constructor <;>
    norm_num [commandsRate, joinsRate, libraryRate, photosRate, lookupsRate, roomRate]

/-- From one instant to another, in seconds. -/
def seconds (first last : Instant) : ℚ := ((last - first : ℕ) : ℚ) / 10 ^ 9

theorem seconds_nonneg (first last : Instant) : 0 ≤ seconds first last :=
  div_nonneg (Nat.cast_nonneg _) (by norm_num)

theorem seconds_add {first middle last : ℕ} (h : first ≤ middle) (h' : middle ≤ last) :
    seconds first middle + seconds middle last = seconds first last := by
  have hsum : middle - first + (last - middle) = last - first := by omega
  rw [seconds, seconds, seconds, ← add_div, ← Nat.cast_add, hsum]

namespace TokenBucket

variable {bucket : TokenBucket} {now : Instant} {times : List Instant}

/-- The calls at these times: what each is told, and the bucket after them. -/
def takeAll (bucket : TokenBucket) : List Instant → List Bool × TokenBucket
  | [] => ([], bucket)
  | now :: times =>
    ((bucket.take now).1 :: ((bucket.take now).2.takeAll times).1,
      ((bucket.take now).2.takeAll times).2)

/-- A bucket holds no more than the burst, and no debt. -/
structure Sound (bucket : TokenBucket) : Prop where
  nonneg : 0 ≤ bucket.tokens
  le_burst : bucket.tokens ≤ bucket.rate.burst

/-! ### One call -/

theorem take_cases (bucket : TokenBucket) (now : Instant) :
    (1 ≤ (bucket.refill now).tokens ∧
        bucket.take now = (true, ⟨bucket.rate, (bucket.refill now).tokens - 1, now⟩)) ∨
      ((bucket.refill now).tokens < 1 ∧
        bucket.take now = (false, ⟨bucket.rate, (bucket.refill now).tokens, now⟩)) := by
  rw [take]
  by_cases henough : 1 ≤ (bucket.refill now).tokens
  · exact .inl ⟨henough, if_pos henough⟩
  · exact .inr ⟨not_le.mp henough, if_neg henough⟩

@[simp]
theorem take_rate : (bucket.take now).2.rate = bucket.rate := by
  rcases take_cases bucket now with ⟨-, h⟩ | ⟨-, h⟩
  · rw [h]
  · rw [h]

@[simp]
theorem take_refilledAt : (bucket.take now).2.refilledAt = now := by
  rcases take_cases bucket now with ⟨-, h⟩ | ⟨-, h⟩
  · rw [h]
  · rw [h]

theorem take_proper (hrate : bucket.rate.Proper) (now : Instant) :
    (bucket.take now).2.rate.Proper := by
  rw [take_rate]
  exact hrate

theorem refill_tokens : (bucket.refill now).tokens =
    min (bucket.tokens + seconds bucket.refilledAt now * bucket.rate.perSecond)
      bucket.rate.burst := rfl

/-- One call spends what it lets through of what was there and what came back. -/
theorem take_spends : ((bucket.take now).1.toNat : ℚ) + (bucket.take now).2.tokens =
    (bucket.refill now).tokens := by
  rcases take_cases bucket now with ⟨-, h⟩ | ⟨-, h⟩
  · rw [h]
    simp
  · rw [h]
    simp

theorem Sound.refill_nonneg (h : bucket.Sound) (hrate : bucket.rate.Proper) :
    0 ≤ (bucket.refill now).tokens := by
  have hback : 0 ≤ seconds bucket.refilledAt now * bucket.rate.perSecond :=
    mul_nonneg (seconds_nonneg _ _) hrate.perSecond.le
  rw [refill_tokens]
  exact le_min (add_nonneg h.nonneg hback) (zero_le_one.trans hrate.burst)

theorem Sound.new {rate : Rate} (hrate : rate.Proper) : (new rate now).Sound where
  nonneg := zero_le_one.trans hrate.burst
  le_burst := le_rfl

theorem Sound.take (h : bucket.Sound) (hrate : bucket.rate.Proper) :
    (bucket.take now).2.Sound := by
  have hle : (bucket.refill now).tokens ≤ bucket.rate.burst := min_le_right _ _
  rcases take_cases bucket now with ⟨henough, htake⟩ | ⟨-, htake⟩
  · rw [htake]
    exact ⟨sub_nonneg.mpr henough, (sub_le_self _ zero_le_one).trans hle⟩
  · rw [htake]
    exact ⟨h.refill_nonneg hrate, hle⟩

/-! ### Any number of calls -/

theorem takeAll_rate (times : List Instant) : (bucket.takeAll times).2.rate = bucket.rate := by
  induction times generalizing bucket with
  | nil => rfl
  | cons now times ih => exact ih.trans take_rate

theorem takeAll_proper (hrate : bucket.rate.Proper) (times : List Instant) :
    (bucket.takeAll times).2.rate.Proper := by
  rw [takeAll_rate]
  exact hrate

theorem Sound.takeAll (h : bucket.Sound) (hrate : bucket.rate.Proper) (times : List Instant) :
    (bucket.takeAll times).2.Sound := by
  induction times generalizing bucket with
  | nil => exact h
  | cons now times ih => exact ih (h.take hrate) (take_proper hrate now)

theorem count_takeAll_cons : ((bucket.takeAll (now :: times)).1.count true : ℚ) =
    ((bucket.take now).2.takeAll times).1.count true + ((bucket.take now).1.toNat : ℚ) := by
  rw [takeAll, List.count_cons, Nat.cast_add]
  cases (bucket.take now).1 with
  | false => simp
  | true => simp

/-- What was let through and what is left came out of what was there and what came
back since. -/
theorem letThrough_le (hrate : bucket.rate.Proper)
    (hsorted : (bucket.refilledAt :: times).Pairwise (· ≤ ·)) :
    ((bucket.takeAll times).1.count true : ℚ) + (bucket.takeAll times).2.tokens ≤
      bucket.tokens +
        bucket.rate.perSecond * seconds bucket.refilledAt (times.getLastD bucket.refilledAt) := by
  induction times generalizing bucket with
  | nil => simp [takeAll, seconds]
  | cons now times ih =>
    obtain ⟨hfirst, hrest⟩ := List.pairwise_cons.mp hsorted
    have hnow : bucket.refilledAt ≤ now := hfirst now List.mem_cons_self
    have hlast : now ≤ times.getLastD now := by
      rcases List.mem_cons.mp (List.getLastD_mem_cons (l := times)) with hsame | hmem
      · exact hsame.ge
      · exact (List.pairwise_cons.mp hrest).1 _ hmem
    have hproper := take_proper hrate now
    have htail := ih hproper (by rw [take_refilledAt]; exact hrest)
    rw [take_rate, take_refilledAt] at htail
    have hback : (bucket.refill now).tokens ≤
        bucket.tokens + seconds bucket.refilledAt now * bucket.rate.perSecond := min_le_left _ _
    have hspent : ((bucket.take now).1.toNat : ℚ) + (bucket.take now).2.tokens =
        (bucket.refill now).tokens := take_spends
    have hspan : seconds bucket.refilledAt now + seconds now (times.getLastD now) =
        seconds bucket.refilledAt (times.getLastD now) := seconds_add hnow hlast
    rw [count_takeAll_cons, List.getLastD_cons, ← hspan, mul_add]
    change _ + ((bucket.take now).2.takeAll times).2.tokens ≤ _
    linarith [mul_comm (seconds bucket.refilledAt now) bucket.rate.perSecond]

/-- A window lets through a burst and what comes back while it lasts, at most. -/
theorem Sound.window (h : bucket.Sound) (hrate : bucket.rate.Proper) {first : Instant}
    (hsorted : (first :: times).Pairwise (· ≤ ·)) :
    ((bucket.takeAll (first :: times)).1.count true : ℚ) ≤
      bucket.rate.burst + bucket.rate.perSecond * seconds first (times.getLastD first) := by
  have hproper := take_proper hrate first
  have hsorted' : ((bucket.take first).2.refilledAt :: times).Pairwise (· ≤ ·) := by
    rw [take_refilledAt]
    exact hsorted
  have hrest := letThrough_le hproper hsorted'
  rw [take_rate, take_refilledAt] at hrest
  have hleft : 0 ≤ ((bucket.take first).2.takeAll times).2.tokens :=
    ((h.take hrate).takeAll hproper times).nonneg
  have hspent : ((bucket.take first).1.toNat : ℚ) + (bucket.take first).2.tokens =
      (bucket.refill first).tokens := take_spends
  have hfull : (bucket.refill first).tokens ≤ bucket.rate.burst := min_le_right _ _
  rw [count_takeAll_cons]
  linarith

/-- A refused call loses nothing of what has come back. -/
theorem refused_keeps (hrate : bucket.rate.Proper) (hrefused : (bucket.take now).1 = false) :
    (bucket.take now).2.tokens =
      bucket.tokens + seconds bucket.refilledAt now * bucket.rate.perSecond := by
  rcases take_cases bucket now with ⟨-, htake⟩ | ⟨hless, htake⟩
  · rw [htake] at hrefused
    cases hrefused
  · rw [htake]
    rw [refill_tokens] at hless ⊢
    refine min_eq_left (le_of_not_gt fun hover => ?_)
    rw [min_eq_right hover.le] at hless
    exact absurd hrate.burst (not_le.mpr hless)

/-- Who has waited for a token is let through, also when every call meanwhile was
refused. -/
theorem let_through (hrate : bucket.rate.Proper)
    (hsorted : (bucket.refilledAt :: (times ++ [now])).Pairwise (· ≤ ·))
    (hrefused : ∀ answer ∈ (bucket.takeAll times).1, answer = false)
    (hwaited : 1 ≤ bucket.tokens + seconds bucket.refilledAt now * bucket.rate.perSecond) :
    ((bucket.takeAll times).2.take now).1 = true := by
  induction times generalizing bucket with
  | nil =>
    have henough : 1 ≤ (bucket.refill now).tokens := by
      rw [refill_tokens]
      exact le_min hwaited hrate.burst
    rcases take_cases bucket now with ⟨-, htake⟩ | ⟨hless, -⟩
    · rw [TokenBucket.takeAll, htake]
    · exact absurd henough (not_le.mpr hless)
  | cons first times ih =>
    obtain ⟨hfirst, hrest⟩ := List.pairwise_cons.mp hsorted
    have hkept := refused_keeps hrate (hrefused _ List.mem_cons_self)
    have hproper := take_proper hrate first
    have hspan : seconds bucket.refilledAt first + seconds first now =
        seconds bucket.refilledAt now :=
      seconds_add (hfirst first List.mem_cons_self)
        ((List.pairwise_cons.mp hrest).1 now (List.mem_append_right _ List.mem_cons_self))
    refine ih hproper (by rw [take_refilledAt]; exact hrest)
      (fun answer hanswer => hrefused answer (List.mem_cons_of_mem _ hanswer)) ?_
    rw [hkept, take_rate, take_refilledAt, add_assoc, ← add_mul, hspan]
    exact hwaited

end TokenBucket

/-! ### Several budgets -/

namespace ReadBudgets

def get (budgets : ReadBudgets) : Budget → TokenBucket
  | .library => budgets.library
  | .photos => budgets.photos
  | .lookups => budgets.lookups
  | .room => budgets.room

variable (budgets : ReadBudgets)

theorem take_get (budget : Budget) (now : Instant) :
    (budgets.take budget now).1 = ((budgets.get budget).take now).1 ∧
      (budgets.take budget now).2.get budget = ((budgets.get budget).take now).2 := by
  cases budget with
  | library => exact ⟨rfl, rfl⟩
  | photos => exact ⟨rfl, rfl⟩
  | lookups => exact ⟨rfl, rfl⟩
  | room => exact ⟨rfl, rfl⟩

/-- A read draws on one budget alone. -/
theorem take_other {budget other : Budget} (hother : other ≠ budget) (now : Instant) :
    (budgets.take budget now).2.get other = budgets.get other := by
  cases budget with
  | library => cases other <;> first | rfl | exact absurd rfl hother
  | photos => cases other <;> first | rfl | exact absurd rfl hother
  | lookups => cases other <;> first | rfl | exact absurd rfl hother
  | room => cases other <;> first | rfl | exact absurd rfl hother

/-- Reads on any budgets, in order: what each is told, and the budgets after them. -/
def takeAll (budgets : ReadBudgets) : List (Budget × Instant) → List (Budget × Bool) × ReadBudgets
  | [] => ([], budgets)
  | (budget, now) :: reads =>
    ((budget, (budgets.take budget now).1) :: ((budgets.take budget now).2.takeAll reads).1,
      ((budgets.take budget now).2.takeAll reads).2)

/-- Each budget goes its own way, as if there were no other reads. -/
theorem takeAll_get (reads : List (Budget × Instant)) (budget : Budget) :
    (budgets.get budget).takeAll ((reads.filter (·.1 = budget)).map (·.2)) =
      (((budgets.takeAll reads).1.filter (·.1 = budget)).map (·.2),
        (budgets.takeAll reads).2.get budget) := by
  induction reads generalizing budgets with
  | nil => rfl
  | cons read reads ih =>
    obtain ⟨drawn, now⟩ := read
    have htail := ih (budgets.take drawn now).2
    by_cases hsame : drawn = budget
    · subst hsame
      rw [(budgets.take_get drawn now).2] at htail
      rw [List.filter_cons_of_pos (by simp), List.map_cons, TokenBucket.takeAll, htail,
        takeAll, List.filter_cons_of_pos (by simp), List.map_cons, (budgets.take_get drawn now).1]
    · rw [budgets.take_other (Ne.symm hsame) now] at htail
      rw [List.filter_cons_of_neg (by simpa using hsame), htail, takeAll,
        List.filter_cons_of_neg (by simpa using hsame)]

end ReadBudgets

/-! ### The rate is bounded -/

/-- The buckets of this rate under calls at these times, the clock never going back. -/
structure Rate.Bounds (rate : Rate) (start : Instant) (times : List Instant) : Prop where
  /-- Between any two calls the bucket holds no debt and no more than the burst. -/
  sound : ∀ past later, times = past ++ later →
    ((TokenBucket.new rate start).takeAll past).2.Sound
  /-- Any window lets through a burst and what comes back while it lasts, at most. -/
  window : ∀ past first during later, times = past ++ first :: during ++ later →
    ((((TokenBucket.new rate start).takeAll past).2.takeAll (first :: during)).1.count true : ℚ) ≤
      rate.burst + rate.perSecond * seconds first (during.getLastD first)
  /-- Who has waited for one token is let through, whatever was refused meanwhile. -/
  waited : ∀ past refused now later, times = past ++ refused ++ now :: later →
    (∀ answer ∈ (((TokenBucket.new rate start).takeAll past).2.takeAll refused).1,
      answer = false) →
    1 ≤ ((TokenBucket.new rate start).takeAll past).2.tokens +
      seconds (past.getLastD start) now * rate.perSecond →
    ((((TokenBucket.new rate start).takeAll past).2.takeAll refused).2.take now).1 = true

theorem TokenBucket.takeAll_refilledAt {bucket : TokenBucket} (times : List Instant) :
    (bucket.takeAll times).2.refilledAt = times.getLastD bucket.refilledAt := by
  induction times generalizing bucket with
  | nil => rfl
  | cons now times ih =>
    have htail : ((bucket.take now).2.takeAll times).2.refilledAt =
        times.getLastD (bucket.take now).2.refilledAt := ih
    rw [take_refilledAt] at htail
    rw [List.getLastD_cons]
    exact htail

/-- What comes after a point of a sorted sequence is sorted from the last before it. -/
theorem pairwise_from_last {start : Instant} {past later : List Instant}
    (hsorted : (start :: (past ++ later)).Pairwise (· ≤ ·)) :
    (past.getLastD start :: later).Pairwise (· ≤ ·) := by
  have hparts := List.pairwise_append.mp (List.cons_append .. ▸ hsorted)
  exact List.pairwise_cons.mpr
    ⟨fun now hnow => hparts.2.2 _ List.getLastD_mem_cons now hnow, hparts.2.1⟩

theorem Rate.Proper.bounds {rate : Rate} (hrate : rate.Proper) {start : Instant}
    {times : List Instant} (hsorted : (start :: times).Pairwise (· ≤ ·)) :
    rate.Bounds start times where
  sound past later _ := (TokenBucket.Sound.new hrate).takeAll hrate past
  window past first during later htimes := by
    have hsound : ((TokenBucket.new rate start).takeAll past).2.Sound :=
      (TokenBucket.Sound.new hrate).takeAll hrate past
    have hproper : ((TokenBucket.new rate start).takeAll past).2.rate.Proper :=
      TokenBucket.takeAll_proper hrate past
    rw [htimes, List.append_assoc] at hsorted
    have hwindow := (List.pairwise_append.mp
      (List.pairwise_cons.mp (pairwise_from_last hsorted)).2).1
    have hbound := hsound.window hproper hwindow
    rw [TokenBucket.takeAll_rate] at hbound
    exact hbound
  waited past refused now later htimes hrefused hwaited := by
    have hproper : ((TokenBucket.new rate start).takeAll past).2.rate.Proper :=
      TokenBucket.takeAll_proper hrate past
    have hrefilled : ((TokenBucket.new rate start).takeAll past).2.refilledAt =
        past.getLastD start := TokenBucket.takeAll_refilledAt past
    -- Up to the call that waited; what follows it does not matter.
    have htimes' : times = past ++ ((refused ++ [now]) ++ later) := by
      rw [htimes]
      simp
    rw [htimes'] at hsorted
    have hfrom := pairwise_from_last hsorted
    rw [← List.cons_append] at hfrom
    refine TokenBucket.let_through hproper ?_ hrefused ?_
    · rw [hrefilled]
      exact (List.pairwise_append.mp hfrom).1
    · rw [hrefilled, TokenBucket.takeAll_rate]
      exact hwaited

/-- Every rate that there is bounds every sequence of calls at times that never go back,
and a read on one budget leaves the others alone: each answers as if there were no reads
on the others. -/
theorem buckets_bound_the_rate :
    (∀ rate ∈ rates, rate.Proper) ∧
    (∀ rate : Rate, rate.Proper → ∀ (start : Instant) (times : List Instant),
      (start :: times).Pairwise (· ≤ ·) → rate.Bounds start times) ∧
    (∀ (budgets : ReadBudgets) (budget other : Budget) (now : Instant), other ≠ budget →
      (budgets.take budget now).2.get other = budgets.get other) ∧
    ∀ (budgets : ReadBudgets) (reads : List (Budget × Instant)) (budget : Budget),
      (budgets.get budget).takeAll ((reads.filter (·.1 = budget)).map (·.2)) =
        (((budgets.takeAll reads).1.filter (·.1 = budget)).map (·.2),
          (budgets.takeAll reads).2.get budget) := by
  refine ⟨proper_of_mem_rates, ?_, ?_, ReadBudgets.takeAll_get⟩
  · intro rate hrate start times hsorted
    exact hrate.bounds hsorted
  · intro budgets budget other now hother
    exact budgets.take_other hother now

/-- At twenty a second, a call a tenth of a second after the burst was spent passes. -/
theorem buckets_bound_the_rate_room :
    commandsRate.Bounds 0 [0, 100000000] ∧
      (∀ budgets : ReadBudgets, (budgets.take .photos 5).2.get .library = budgets.library) :=
  ⟨buckets_bound_the_rate.2.1 commandsRate (by constructor <;> norm_num [commandsRate]) 0
      [0, 100000000] (by decide),
    fun budgets => buckets_bound_the_rate.2.2.1 budgets .photos .library 5 (by decide)⟩

end Harmony.ListenTogether
