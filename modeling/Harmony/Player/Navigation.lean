/-
# Playing through a shuffled Queue

The order of the Queue is shuffled, rotated to the source that plays and patched by a
swap. Where the player stands in it is found again each time, from the identity of that
source. As long as the order is one of the indexes of the sources and the identities
differ, a navigation moves by one place of the order and nothing else changes.
-/

import Harmony.Player.Commands
import Mathlib.Data.List.GetD
import Mathlib.Data.List.Range

namespace Harmony.Player

/-- What a source is recognized by, where it parses. -/
def Source.identity (source : Source) : Option String :=
  source.parsed.toOption.map (·.identity)

/-- All sources parse, and their identities differ. -/
structure Identified (sources : List Source) : Prop where
  parsed : ∀ source ∈ sources, ∃ parsed, source.parsed = .ok parsed
  distinct : (sources.map Source.identity).Nodup

namespace PlaybackQueueContext

/-! ### Indexes stay in the list -/

/-- The current index is one of the list, and the order has each index once. -/
structure Valid (queue : PlaybackQueueContext) : Prop where
  current : ∀ index, queue.currentIndex = some index → index < queue.sources.length
  order : queue.order.Perm (List.range queue.sources.length)

variable {source : Source}

section Valid

variable {queue queue' : PlaybackQueueContext} {sources : List Source}

theorem valid_empty : empty.Valid where
  current _ h := nomatch h
  order := .refl _

theorem valid_resetOrder (hcurrent : ∀ index, queue.currentIndex = some index →
    index < queue.sources.length) : queue.resetOrder.Valid where
  current := hcurrent
  order := .refl _

theorem Valid.sync {currentIndex : Option ℕ}
    (hsync : queue.sync sources currentIndex = .ok queue') : queue'.Valid := by
  rw [PlaybackQueueContext.sync] at hsync
  by_cases hout : (currentIndex.any fun index => sources.length ≤ index) = true
  · rw [if_pos hout] at hsync
    cases hsync
  · rw [if_neg hout] at hsync
    cases hparsed : parseAll sources with
    | error error =>
      rw [hparsed] at hsync
      cases hsync
    | ok _ =>
      rw [hparsed] at hsync
      cases hsync
      refine ⟨fun index hindex => ?_, .refl _⟩
      have hcurrent : currentIndex = some index := hindex
      rw [hcurrent, Option.any_some, decide_eq_true_eq] at hout
      exact not_le.mp hout

/-- A found position is one of the list, by induction on the sources. -/
theorem lt_of_indexOf {identity : String} {start index : ℕ}
    (h : indexOf identity sources start = .ok (some index)) : index < start + sources.length := by
  induction sources generalizing start with
  | nil => cases h
  | cons candidate rest ih =>
    rw [indexOf] at h
    cases hparsed : candidate.parsed with
    | error error =>
      rw [hparsed] at h
      cases h
    | ok parsed =>
      rw [hparsed] at h
      dsimp only at h
      by_cases hfound : parsed.identity = identity
      · rw [if_pos hfound] at h
        cases Except.ok.inj h
        rw [List.length_cons]
        omega
      · rw [if_neg hfound] at h
        have hindex := ih h
        rw [List.length_cons]
        omega

theorem Valid.align (hvalid : queue.Valid) (halign : queue.alignToSource source = .ok queue') :
    queue'.Valid := by
  rw [alignToSource] at halign
  cases hparsed : source.parsed with
  | error error =>
    rw [hparsed] at halign
    cases halign
  | ok parsed =>
    rw [hparsed] at halign
    dsimp only at halign
    cases hindex : indexOf parsed.identity queue.sources 0 with
    | error error =>
      rw [hindex] at halign
      cases halign
    | ok currentIndex =>
      rw [hindex] at halign
      cases halign
      refine ⟨fun index hcurrent => ?_, hvalid.order⟩
      have hfound : currentIndex = some index := hcurrent
      rw [hfound] at hindex
      have hlt := lt_of_indexOf hindex
      rwa [Nat.zero_add] at hlt

theorem swap_perm {order : List ℕ} {i j : ℕ} (hi : i < order.length) (hj : j < order.length) :
    (swap order i j).Perm order := by
  rw [swap, List.getD_eq_getElem _ _ hi, List.getD_eq_getElem _ _ hj]
  exact List.set_set_perm hi hj

/-- However far the draws go, the places are exchanged, by induction on them. -/
theorem shuffleFrom_perm {random : ℕ → Option ℕ} {places order : List ℕ}
    (hplaces : ∀ place ∈ places, place < order.length) :
    ∀ shuffled, (shuffleFrom random order places = .ok shuffled ∨
      shuffleFrom random order places = .error shuffled) → shuffled.Perm order := by
  induction places generalizing order with
  | nil =>
    rintro shuffled (h | h)
    · cases h
      exact .refl _
    · cases h
  | cons place places ih =>
    intro shuffled h
    rw [shuffleFrom] at h
    cases hdrawn : random place with
    | none =>
      rw [hdrawn] at h
      rcases h with h | h
      · cases h
      · obtain rfl := Except.error.inj h
        exact .refl _
    | some drawn =>
      rw [hdrawn] at h
      have hplace := hplaces place List.mem_cons_self
      have hother : drawn % (place + 1) < order.length :=
        lt_of_lt_of_le (Nat.mod_lt _ place.succ_pos) hplace
      have hswap := swap_perm hplace hother
      refine (ih ?_ shuffled h).trans hswap
      intro other hmem
      rw [hswap.length_eq]
      exact hplaces other (List.mem_cons_of_mem _ hmem)

theorem rotateLeft_perm (order : List ℕ) (n : ℕ) : (order.rotateLeft n).Perm order := by
  rw [List.rotateLeft]
  by_cases hshort : order.length ≤ 1
  · rw [if_pos hshort]
  · rw [if_neg hshort]
    refine List.perm_append_comm.trans ?_
    rw [List.take_append_drop]

theorem avoidSequentialSuccessor_perm (queue : PlaybackQueueContext) :
    queue.avoidSequentialSuccessor.order.Perm queue.order := by
  rw [avoidSequentialSuccessor]
  cases queue.currentIndex with
  | none => exact .refl _
  | some current =>
    dsimp only
    cases queue.order.findIdx? (· = current) with
    | none => exact .refl _
    | some position =>
      dsimp only
      have hrotate := rotateLeft_perm queue.order position
      split_ifs with hpatch
      · exact (swap_perm (by omega) hpatch.1).trans hrotate
      · exact hrotate

theorem avoidSequentialSuccessor_frame (queue : PlaybackQueueContext) :
    queue.avoidSequentialSuccessor.sources = queue.sources ∧
      queue.avoidSequentialSuccessor.currentIndex = queue.currentIndex := by
  rw [avoidSequentialSuccessor]
  split
  · exact ⟨rfl, rfl⟩
  · split
    · exact ⟨rfl, rfl⟩
    · exact ⟨rfl, rfl⟩

/-- The places that are drawn for. -/
theorem lt_of_mem_places {n place : ℕ} (h : place ∈ (List.range n).reverse.filter (1 ≤ ·)) :
    place < n :=
  List.mem_range.mp (List.mem_reverse.mp (List.mem_filter.mp h).1)

theorem Valid.shuffle (hvalid : queue.Valid) (random : ℕ → Option ℕ) :
    (queue.shuffle random).1.Valid := by
  have hplaces : ∀ place ∈ (List.range queue.resetOrder.order.length).reverse.filter (1 ≤ ·),
      place < queue.resetOrder.order.length := fun _ hplace => lt_of_mem_places hplace
  rw [PlaybackQueueContext.shuffle]
  cases hdrawn : shuffleFrom random queue.resetOrder.order
      ((List.range queue.resetOrder.order.length).reverse.filter (1 ≤ ·)) with
  | error order => exact ⟨hvalid.current, shuffleFrom_perm hplaces order (.inr hdrawn)⟩
  | ok order =>
    obtain ⟨hsources, hcurrent⟩ :=
      avoidSequentialSuccessor_frame { queue.resetOrder with order }
    refine ⟨?_, ?_⟩
    · rw [hsources, hcurrent]
      exact hvalid.current
    · rw [hsources]
      exact (avoidSequentialSuccessor_perm _).trans (shuffleFrom_perm hplaces order (.inl hdrawn))

end Valid

/-! ### One place of the order -/

/-- The navigation: the adjacent source, and the queue aligned to it. -/
def advance (direction : QueueDirection) (shouldWrap : Bool) (queue : PlaybackQueueContext) :
    Option (Source × PlaybackQueueContext) := do
  let source ← queue.adjacentSource direction shouldWrap
  let aligned ← (queue.alignToSource source).toOption
  return (source, aligned)

/-- The place of the order that a navigation goes to. -/
def nextPosition (direction : QueueDirection) (shouldWrap : Bool) (position length : ℕ) :
    Option ℕ :=
  match direction with
  | .previous =>
    if 0 < position then some (position - 1)
    else if shouldWrap ∧ 0 < length then some (length - 1)
    else none
  | .next =>
    if position + 1 < length then some (position + 1)
    else if shouldWrap ∧ 0 < length then some 0
    else none

/-- The source at a place of the order. -/
def sourceAt (queue : PlaybackQueueContext) (place : ℕ) : Option Source :=
  queue.order[place]?.bind (queue.sources[·]?)

/-- The queue when the source at this place plays. -/
def standing (queue : PlaybackQueueContext) (place : ℕ) : PlaybackQueueContext :=
  { queue with currentIndex := queue.order[place]? }

section Places

variable {queue : PlaybackQueueContext} {direction : QueueDirection} {shouldWrap : Bool} {place : ℕ}

theorem Valid.nodup (hvalid : queue.Valid) : queue.order.Nodup :=
  hvalid.order.nodup_iff.mpr List.nodup_range

theorem Valid.length (hvalid : queue.Valid) : queue.order.length = queue.sources.length := by
  rw [hvalid.order.length_eq, List.length_range]

/-- Every place of the order is found again from the index that it holds. -/
theorem findIdx_order (hvalid : queue.Valid) (hplace : place < queue.order.length) :
    queue.order.findIdx? (· = queue.order[place]) = some place := by
  rw [List.findIdx?_eq_some_iff_getElem]
  refine ⟨hplace, decide_eq_true rfl, ?_⟩
  intro earlier hearlier hsame
  have heq := hvalid.nodup.getElem_inj_iff.mp (of_decide_eq_true hsame)
  omega

/-- A queue whose current index is known stands at a place. -/
theorem exists_standing (hvalid : queue.Valid) {current : ℕ}
    (hcurrent : queue.currentIndex = some current) :
    ∃ place, place < queue.order.length ∧ queue.standing place = queue := by
  have hmem : current ∈ queue.order :=
    hvalid.order.mem_iff.mpr (List.mem_range.mpr (hvalid.current current hcurrent))
  obtain ⟨place, hplace, hindex⟩ := List.mem_iff_getElem.mp hmem
  refine ⟨place, hplace, ?_⟩
  rw [PlaybackQueueContext.standing, List.getElem?_eq_getElem hplace, hindex, ← hcurrent]

theorem exists_sourceAt (hvalid : queue.Valid) (hplace : place < queue.order.length) :
    ∃ source ∈ queue.sources, queue.sourceAt place = some source := by
  have hindex := List.mem_range.mp (hvalid.order.mem_iff.mp (List.getElem_mem hplace))
  refine ⟨_, List.getElem_mem hindex, ?_⟩
  rw [sourceAt, List.getElem?_eq_getElem hplace, Option.bind_some, List.getElem?_eq_getElem hindex]

theorem adjacentSource_standing (hvalid : queue.Valid) (hplace : place < queue.order.length) :
    (queue.standing place).adjacentSource direction shouldWrap =
      (nextPosition direction shouldWrap place queue.order.length).bind queue.sourceAt := by
  have hfound := findIdx_order hvalid hplace
  rw [adjacentSource, PlaybackQueueContext.standing, List.getElem?_eq_getElem hplace]
  dsimp only
  rw [hfound]
  cases direction with
  | previous =>
    rw [nextPosition]
    dsimp only
    split_ifs <;> rfl
  | next =>
    rw [nextPosition]
    have hnone : queue.order ≠ [] ↔ 0 < queue.order.length := List.length_pos_iff.symm
    simp only [hnone]
    split_ifs <;> rfl

/-- The place of a source in the list is found from its identity, by induction on the
sources before it. -/
theorem indexOf_identity {sources : List Source} (h : Identified sources) {index : ℕ}
    {parsed : ParsedSource} (hsource : sources[index]? = some source)
    (hparsed : source.parsed = .ok parsed) (start : ℕ) :
    indexOf parsed.identity sources start = .ok (some (start + index)) := by
  induction sources generalizing index start with
  | nil => cases hsource
  | cons candidate rest ih =>
    obtain ⟨found, hfound⟩ := h.parsed candidate List.mem_cons_self
    have hdistinct := List.nodup_cons.mp h.distinct
    rw [indexOf, hfound]
    dsimp only
    cases index with
    | zero =>
      cases hsource
      rw [hfound] at hparsed
      cases hparsed
      rw [if_pos rfl, Nat.add_zero]
    | succ index =>
      rw [List.getElem?_cons_succ] at hsource
      have hother : found.identity ≠ parsed.identity := by
        intro hsame
        apply hdistinct.1
        refine List.mem_map.mpr ⟨source, List.mem_of_getElem? hsource, ?_⟩
        rw [Source.identity, Source.identity, hparsed, hfound]
        exact congrArg some hsame.symm
      rw [if_neg hother, ih ⟨fun other hmem => h.parsed other (List.mem_cons_of_mem _ hmem),
        hdistinct.2⟩ hsource, Nat.add_right_comm, Nat.add_assoc]

theorem alignToSource_at (h : Identified queue.sources) {target : ℕ}
    (hsource : queue.sourceAt target = some source) (place : ℕ) :
    (queue.standing place).alignToSource source = .ok (queue.standing target) := by
  obtain ⟨index, hindex, hsource⟩ := Option.bind_eq_some_iff.mp hsource
  obtain ⟨parsed, hparsed⟩ := h.parsed source (List.mem_of_getElem? hsource)
  have hfound := indexOf_identity h hsource hparsed 0
  rw [Nat.zero_add] at hfound
  rw [alignToSource, hparsed, PlaybackQueueContext.standing, PlaybackQueueContext.standing, hindex]
  dsimp only
  rw [hfound]
  rfl

/-- A navigation goes from place to place. -/
theorem advance_standing (hvalid : queue.Valid) (h : Identified queue.sources)
    (hplace : place < queue.order.length) :
    (queue.standing place).advance direction shouldWrap =
      (nextPosition direction shouldWrap place queue.order.length).bind fun target =>
        (queue.sourceAt target).map fun source => (source, queue.standing target) := by
  rw [advance, adjacentSource_standing hvalid hplace]
  cases nextPosition direction shouldWrap place queue.order.length with
  | none => rfl
  | some target =>
    rw [Option.bind_some, Option.bind_some]
    cases hsource : queue.sourceAt target with
    | none => rfl
    | some source =>
      have haligned := alignToSource_at h hsource place
      simp only [Option.bind_eq_bind, Option.bind_some, haligned]
      rfl

theorem nextPosition_lt {length target : ℕ} (hplace : place < length)
    (h : nextPosition direction shouldWrap place length = some target) : target < length := by
  cases direction with
  | previous =>
    rw [nextPosition] at h
    split_ifs at h
    · cases h
      omega
    · cases h
      omega
  | next =>
    rw [nextPosition] at h
    split_ifs at h
    · cases h
      omega
    · cases h
      omega

theorem nextPosition_previous {length target : ℕ} (hplace : place < length)
    (h : nextPosition .next shouldWrap place length = some target) :
    nextPosition .previous shouldWrap target length = some place := by
  rw [nextPosition] at h
  rw [nextPosition]
  split_ifs at h with hmore hwrap
  · cases h
    rw [if_pos place.succ_pos, Nat.add_sub_cancel]
  · cases h
    have hlast : length - 1 = place := by omega
    rw [if_neg (lt_irrefl 0), if_pos hwrap, hlast]

/-- Back again, with the same rule for the ends of the order. -/
theorem previous_undoes_next (hvalid : queue.Valid) (h : Identified queue.sources)
    {queue' : PlaybackQueueContext} (hnext : queue.advance .next shouldWrap = some (source, queue'))
    :
    ∃ current before, queue.currentIndex = some current ∧ queue.sources[current]? = some before ∧
      queue'.advance .previous shouldWrap = some (before, queue) := by
  cases hcurrent : queue.currentIndex with
  | none =>
    rw [advance, adjacentSource, hcurrent] at hnext
    cases hnext
  | some current =>
    obtain ⟨place, hplace, hstanding⟩ := exists_standing hvalid hcurrent
    rw [← hstanding, advance_standing hvalid h hplace] at hnext
    obtain ⟨target, htarget, hnext⟩ := Option.bind_eq_some_iff.mp hnext
    obtain ⟨reached, -, hnext⟩ := Option.map_eq_some_iff.mp hnext
    cases hnext
    obtain ⟨before, -, hbefore⟩ := exists_sourceAt hvalid hplace
    have hindex : queue.order[place]? = some current := by
      rw [← hcurrent]
      exact congrArg PlaybackQueueContext.currentIndex hstanding
    refine ⟨current, before, rfl, ?_, ?_⟩
    · rw [sourceAt, hindex] at hbefore
      exact hbefore
    · rw [advance_standing hvalid h (nextPosition_lt hplace htarget),
        nextPosition_previous hplace htarget, Option.bind_some, hbefore, Option.map_some, hstanding]

end Places

/-! ### The way through the order -/

/-- So many navigations, or as many as there are: what they return, and the queue after
them. -/
def travel (direction : QueueDirection) (shouldWrap : Bool) :
    ℕ → PlaybackQueueContext → List Source × PlaybackQueueContext
  | 0, queue => ([], queue)
  | count + 1, queue =>
    match queue.advance direction shouldWrap with
    | none => ([], queue)
    | some (source, next) =>
      let rest := travel direction shouldWrap count next
      (source :: rest.1, rest.2)

section Travel

variable {queue : PlaybackQueueContext} {direction : QueueDirection} {shouldWrap : Bool}

/-- A way is continued where it stopped, by induction on its first part. -/
theorem travel_add (first second : ℕ) (queue : PlaybackQueueContext) :
    queue.travel direction shouldWrap (first + second) =
      ((queue.travel direction shouldWrap first).1 ++
          ((queue.travel direction shouldWrap first).2.travel direction shouldWrap second).1,
        ((queue.travel direction shouldWrap first).2.travel direction shouldWrap second).2) := by
  induction first generalizing queue with
  | zero =>
    rw [Nat.zero_add, travel]
    rfl
  | succ first ih =>
    rw [Nat.add_right_comm, travel, travel]
    cases hadvance : queue.advance direction shouldWrap with
    | none =>
      cases second with
      | zero => rfl
      | succ second =>
        dsimp only
        rw [travel, hadvance]
        rfl
    | some step =>
      obtain ⟨source, next⟩ := step
      dsimp only
      rw [ih next]
      rfl

theorem advance_next (hvalid : queue.Valid) (h : Identified queue.sources) {place : ℕ}
    (hplace : place + 1 < queue.order.length) :
    (queue.standing place).advance .next shouldWrap =
      (queue.sourceAt (place + 1)).map fun source => (source, queue.standing (place + 1)) := by
  rw [advance_standing hvalid h (Nat.lt_of_succ_lt hplace), nextPosition, if_pos hplace]
  rfl

/-- The sources of the next places, by induction on how many they are. -/
theorem travel_next (hvalid : queue.Valid) (h : Identified queue.sources) {place count : ℕ}
    (hplace : place + count < queue.order.length) :
    (queue.standing place).travel .next shouldWrap count =
      (((queue.order.drop (place + 1)).take count).filterMap (queue.sources[·]?),
        queue.standing (place + count)) := by
  induction count generalizing place with
  | zero => rw [travel, List.take_zero, List.filterMap_nil, Nat.add_zero]
  | succ count ih =>
    have hnext : place + 1 < queue.order.length := by omega
    obtain ⟨source, -, hsource⟩ := exists_sourceAt hvalid hnext
    have hindexed : queue.sources[queue.order[place + 1]]? = some source := by
      rw [sourceAt, List.getElem?_eq_getElem hnext] at hsource
      exact hsource
    rw [travel, advance_next hvalid h hnext, hsource, Option.map_some]
    dsimp only
    rw [ih (by omega), List.drop_eq_getElem_cons hnext, List.take_succ_cons,
      List.filterMap_cons_some hindexed]
    have hlast : place + 1 + count = place + (count + 1) := by omega
    rw [hlast]

/-- Every index stands for its source. -/
theorem filterMap_range (sources : List Source) :
    (List.range sources.length).filterMap (sources[·]?) = sources := by
  induction sources using List.reverseRecOn with
  | nil => rfl
  | append_singleton sources source ih =>
    have hkept : (List.range sources.length).filterMap ((sources ++ [source])[·]?) =
        (List.range sources.length).filterMap (sources[·]?) := by
      apply List.filterMap_congr
      intro index hindex
      exact List.getElem?_append_left (List.mem_range.mp hindex)
    rw [List.length_append, List.length_singleton, List.range_succ,
      List.filterMap_append, hkept, ih]
    simp

theorem Valid.sources_perm (hvalid : queue.Valid) :
    (queue.order.filterMap (queue.sources[·]?)).Perm queue.sources := by
  have hperm := hvalid.order.filterMap (queue.sources[·]?)
  rwa [filterMap_range] at hperm

/-- Without wrapping, the way from the first place takes in the rest of the order and
ends. -/
theorem travel_ends (hvalid : queue.Valid) (h : Identified queue.sources)
    (hsome : 0 < queue.order.length) {count : ℕ} (hcount : queue.order.length ≤ count) :
    (queue.standing 0).travel .next false count =
      ((queue.order.drop 1).filterMap (queue.sources[·]?),
        queue.standing (queue.order.length - 1)) ∧
      (queue.standing (queue.order.length - 1)).adjacentSource .next false = none := by
  have hlast : queue.order.length - 1 < queue.order.length := by omega
  have hover : ¬ queue.order.length - 1 + 1 < queue.order.length := by omega
  have hend : nextPosition .next false (queue.order.length - 1) queue.order.length = none := by
    rw [nextPosition, if_neg hover]
    rfl
  have hstops : ∀ more, (queue.standing (queue.order.length - 1)).travel .next false more =
      ([], queue.standing (queue.order.length - 1)) := by
    intro more
    cases more with
    | zero => rfl
    | succ more =>
      rw [travel, advance_standing hvalid h hlast, hend]
      rfl
  constructor
  · obtain ⟨more, rfl⟩ : ∃ more, count = (queue.order.length - 1) + more :=
      ⟨count - (queue.order.length - 1), by omega⟩
    have hrest : (queue.order.drop 1).length ≤ queue.order.length - 1 := by
      rw [List.length_drop]
    rw [travel_add, travel_next hvalid h (by omega), Nat.zero_add, Nat.zero_add, hstops,
      List.append_nil, List.take_of_length_le hrest]
  · rw [adjacentSource_standing hvalid hlast, hend]
    rfl

/-- With wrapping, the first place comes next. -/
theorem travel_wraps (hvalid : queue.Valid) (h : Identified queue.sources) {first : Source}
    (hfirst : queue.sourceAt 0 = some first) :
    (queue.standing 0).travel .next true queue.order.length =
      ((queue.order.drop 1).filterMap (queue.sources[·]?) ++ [first], queue.standing 0) := by
  have hsome : 0 < queue.order.length := by
    obtain ⟨index, hindex, -⟩ := Option.bind_eq_some_iff.mp hfirst
    exact (List.getElem?_eq_some_iff.mp hindex).1
  have hlast : queue.order.length - 1 < queue.order.length := by omega
  have hover : ¬ queue.order.length - 1 + 1 < queue.order.length := by omega
  have hrest : (queue.order.drop 1).length ≤ queue.order.length - 1 := by
    rw [List.length_drop]
  have hback : (queue.standing (queue.order.length - 1)).travel .next true 1 =
      ([first], queue.standing 0) := by
    rw [travel, advance_standing hvalid h hlast, nextPosition, if_neg hover, if_pos ⟨rfl, hsome⟩,
      Option.bind_some, hfirst, Option.map_some]
    rfl
  have hcount : queue.order.length = (queue.order.length - 1) + 1 := by omega
  conv_lhs => rw [hcount]
  rw [travel_add, travel_next hvalid h (by omega), Nat.zero_add, Nat.zero_add, hback,
    List.take_of_length_le hrest]

end Travel

/-! ### The shuffled order -/

section Shuffled

variable {queue : PlaybackQueueContext} {current : ℕ}

theorem rotateLeft_head {order : List ℕ} {position : ℕ} (h : position < order.length) :
    (order.rotateLeft position)[0]? = order[position]? := by
  rw [List.rotateLeft]
  by_cases hshort : order.length ≤ 1
  · rw [if_pos hshort]
    have hfirst : position = 0 := by omega
    rw [hfirst]
  · rw [if_neg hshort]
    have hposition : position % order.length = position := Nat.mod_eq_of_lt h
    dsimp only
    rw [hposition, List.getElem?_append_left (by rw [List.length_drop]; omega), List.getElem?_drop,
      Nat.add_zero]

/-- The order begins with the current index, and what comes next in the list does not
come next. -/
theorem avoidSequentialSuccessor_starts (hvalid : queue.Valid)
    (hcurrent : queue.currentIndex = some current) :
    queue.avoidSequentialSuccessor.order[0]? = some current ∧
      (2 < queue.sources.length → queue.avoidSequentialSuccessor.order[1]? ≠
        some ((current + 1) % queue.sources.length)) := by
  have hmem : current ∈ queue.order :=
    hvalid.order.mem_iff.mpr (List.mem_range.mpr (hvalid.current current hcurrent))
  obtain ⟨position, hposition, hindex⟩ := List.mem_iff_getElem.mp hmem
  have hfound : queue.order.findIdx? (· = current) = some position := by
    rw [← hindex]
    exact findIdx_order hvalid hposition
  have hrotate := rotateLeft_perm queue.order position
  have hlength : (queue.order.rotateLeft position).length = queue.sources.length := by
    rw [hrotate.length_eq, hvalid.length]
  have hhead : (queue.order.rotateLeft position)[0]? = some current := by
    rw [rotateLeft_head hposition, List.getElem?_eq_getElem hposition, hindex]
  have hnodup : (queue.order.rotateLeft position).Nodup := hrotate.nodup_iff.mpr hvalid.nodup
  rw [avoidSequentialSuccessor, hcurrent]
  dsimp only
  rw [hfound]
  dsimp only
  generalize queue.order.rotateLeft position = order at hlength hhead hnodup
  by_cases hpatch : 2 < order.length ∧ order.getD 1 0 = (current + 1) % order.length
  · obtain ⟨hlong, hsuccessor⟩ := hpatch
    rw [if_pos ⟨hlong, hsuccessor⟩, ← hlength, ← hsuccessor, swap,
      List.getD_eq_getElem _ _ hlong, List.getD_eq_getElem _ _ (by omega : 1 < order.length)]
    constructor
    · rw [List.getElem?_set_ne (by omega), List.getElem?_set_ne (by omega), hhead]
    · intro _ hsame
      rw [List.getElem?_set_ne (by omega), List.getElem?_set_self (by omega)] at hsame
      have hplaces := hnodup.getElem_inj_iff.mp (Option.some.inj hsame)
      omega
  · rw [if_neg hpatch]
    refine ⟨hhead, fun hlong hsuccessor => hpatch ?_⟩
    rw [← hlength] at hlong hsuccessor
    refine ⟨hlong, ?_⟩
    rw [List.getD_eq_getElem?_getD, hsuccessor]
    rfl

/-- Drawn to the end, the shuffle only changes the order. -/
theorem shuffle_drawn (queue : PlaybackQueueContext) (random : ℕ → ℕ) :
    ∃ order, order.Perm (List.range queue.sources.length) ∧
      queue.shuffle (fun place => some (random place)) =
        (avoidSequentialSuccessor { queue.resetOrder with order }, none) := by
  have hdraws : ∀ places order, ∃ shuffled,
      shuffleFrom (fun place => some (random place)) order places = .ok shuffled := by
    intro places
    induction places with
    | nil => exact fun order => ⟨order, rfl⟩
    | cons place places ih => exact fun order => ih _
  obtain ⟨order, horder⟩ := hdraws
    ((List.range queue.resetOrder.order.length).reverse.filter (1 ≤ ·)) queue.resetOrder.order
  refine ⟨order, ?_, ?_⟩
  · exact shuffleFrom_perm (fun _ hplace => lt_of_mem_places hplace) order (.inl horder)
  · rw [PlaybackQueueContext.shuffle]
    dsimp only
    rw [horder]

end Shuffled

/-! ### Whole runs -/

/-- What is done with the order of the Queue. -/
inductive Operation
  | sync (sources : List Source) (currentIndex : Option ℕ)
  | align (source : Source)
  | shuffle (random : ℕ → Option ℕ)
  | resetOrder
  | navigate (direction : QueueDirection) (shouldWrap : Bool)

/-- The queue after an operation; one that fails leaves it, except a shuffle, which stops
where it is. -/
def perform (queue : PlaybackQueueContext) : Operation → PlaybackQueueContext
  | .sync sources currentIndex => (queue.sync sources currentIndex).toOption.getD queue
  | .align source => (queue.alignToSource source).toOption.getD queue
  | .shuffle random => (queue.shuffle random).1
  | .resetOrder => queue.resetOrder
  | .navigate direction shouldWrap =>
    ((queue.advance direction shouldWrap).map Prod.snd).getD queue

section Runs

variable {queue : PlaybackQueueContext}

theorem Valid.attempt (hvalid : queue.Valid) {result : Except String PlaybackQueueContext}
    (h : ∀ queue', result = .ok queue' → queue'.Valid) : (result.toOption.getD queue).Valid := by
  cases result with
  | error _ => exact hvalid
  | ok queue' => exact h queue' rfl

theorem Valid.perform (hvalid : queue.Valid) (operation : Operation) :
    (queue.perform operation).Valid := by
  cases operation with
  | sync sources currentIndex => exact hvalid.attempt fun _ h => Valid.sync h
  | align source => exact hvalid.attempt fun _ h => hvalid.align h
  | shuffle random => exact hvalid.shuffle random
  | resetOrder => exact valid_resetOrder hvalid.current
  | navigate direction shouldWrap =>
    rw [PlaybackQueueContext.perform]
    cases hadvance : queue.advance direction shouldWrap with
    | none => exact hvalid
    | some step =>
      obtain ⟨source, -, hadvance⟩ := Option.bind_eq_some_iff.mp hadvance
      obtain ⟨aligned, haligned, hadvance⟩ := Option.bind_eq_some_iff.mp hadvance
      cases hadvance
      cases hresult : queue.alignToSource source with
      | error error =>
        rw [hresult] at haligned
        cases haligned
      | ok queue' =>
        rw [hresult] at haligned
        cases haligned
        exact hvalid.align hresult

/-- No run leaves an index outside the list, by induction on its operations. -/
theorem valid_run (operations : List Operation) : (operations.foldl perform empty).Valid := by
  induction operations using List.reverseRecOn with
  | nil => exact valid_empty
  | append_singleton operations operation ih =>
    rw [List.foldl_append]
    exact ih.perform operation

end Runs

/-- A shuffled order begins with the current source and goes on with another than the
next; the way through it takes in every source once, forwards and backwards; and the
indexes stay in the list whatever is done. -/
theorem shuffle_plays_every_source :
    (∀ (queue : PlaybackQueueContext) (current : ℕ) (random : ℕ → ℕ), Identified queue.sources →
      queue.currentIndex = some current → current < queue.sources.length →
      ∃ shuffled first, queue.shuffle (fun place => some (random place)) = (shuffled, none) ∧
        shuffled.sources = queue.sources ∧ shuffled.currentIndex = some current ∧
        queue.sources[current]? = some first ∧
        shuffled.order.Perm (List.range queue.sources.length) ∧
        shuffled.order[0]? = some current ∧
        (2 < queue.sources.length →
          shuffled.order[1]? ≠ some ((current + 1) % queue.sources.length)) ∧
        (∀ count, queue.sources.length ≤ count →
          (first :: (shuffled.travel .next false count).1).Perm queue.sources ∧
          (shuffled.travel .next false count).2.adjacentSource .next false = none) ∧
        shuffled.travel .next true queue.sources.length =
          ((shuffled.travel .next false queue.sources.length).1 ++ [first], shuffled)) ∧
    (∀ (operations : List Operation) (shouldWrap : Bool) (source : Source)
      (queue queue' : PlaybackQueueContext), queue = operations.foldl perform empty →
      Identified queue.sources → queue.advance .next shouldWrap = some (source, queue') →
      ∃ current before, queue.currentIndex = some current ∧ queue.sources[current]? = some before ∧
        queue'.advance .previous shouldWrap = some (before, queue)) ∧
    ∀ operations : List Operation,
      (∀ index, (operations.foldl perform empty).currentIndex = some index →
        index < (operations.foldl perform empty).sources.length) ∧
      ∀ index ∈ (operations.foldl perform empty).order,
        index < (operations.foldl perform empty).sources.length := by
  refine ⟨?_, ?_, ?_⟩
  · intro queue current random hidentified hcurrent hlt
    have hcurrents : ∀ index, queue.currentIndex = some index → index < queue.sources.length := by
      intro index hindex
      rw [hcurrent] at hindex
      cases hindex
      exact hlt
    obtain ⟨order, hperm, hshuffle⟩ := shuffle_drawn queue random
    let drawn : PlaybackQueueContext := { queue.resetOrder with order }
    have hdrawn : drawn.Valid := ⟨hcurrents, hperm⟩
    obtain ⟨hsources, hindex⟩ := avoidSequentialSuccessor_frame drawn
    obtain ⟨hstarts, hsuccessor⟩ := avoidSequentialSuccessor_starts hdrawn hcurrent
    have hvalid : drawn.avoidSequentialSuccessor.Valid := by
      refine ⟨?_, ?_⟩
      · rw [hsources, hindex]
        exact hcurrents
      · rw [hsources]
        exact (avoidSequentialSuccessor_perm drawn).trans hperm
    generalize drawn.avoidSequentialSuccessor = shuffled
      at hshuffle hsources hindex hstarts hsuccessor hvalid
    have hqueue : shuffled.sources = queue.sources := hsources
    have hplays : shuffled.currentIndex = some current := hindex.trans hcurrent
    have hstanding : shuffled.standing 0 = shuffled := by
      rw [standing, hstarts, ← hplays]
    have hlength : shuffled.order.length = queue.sources.length := by
      rw [hvalid.length, hqueue]
    have hsome : 0 < shuffled.order.length := by omega
    have hfirst : shuffled.sourceAt 0 = some queue.sources[current] := by
      rw [sourceAt, hstarts, Option.bind_some, hqueue, List.getElem?_eq_getElem hlt]
    rw [← hqueue] at hidentified
    have hwhole : (queue.sources[current] ::
        (shuffled.order.drop 1).filterMap (shuffled.sources[·]?)).Perm queue.sources := by
      have horder : shuffled.order = current :: shuffled.order.drop 1 := by
        have hcons := List.drop_eq_getElem_cons hsome
        rw [List.drop_zero] at hcons
        rw [List.getElem?_eq_getElem hsome] at hstarts
        rw [← Option.some.inj hstarts]
        exact hcons
      have hall := hvalid.sources_perm
      rw [horder, hqueue, List.filterMap_cons_some (List.getElem?_eq_getElem hlt)] at hall
      rw [hqueue]
      exact hall
    refine ⟨shuffled, queue.sources[current], hshuffle, hqueue, hplays,
      List.getElem?_eq_getElem hlt, hqueue ▸ hvalid.order, hstarts, hsuccessor, ?_, ?_⟩
    · intro count hcount
      obtain ⟨htravel, hends⟩ := travel_ends hvalid hidentified hsome (hlength.trans_le hcount)
      rw [hstanding] at htravel
      rw [htravel]
      exact ⟨hwhole, hends⟩
    · have hwraps := travel_wraps hvalid hidentified hfirst
      have hends := (travel_ends hvalid hidentified hsome le_rfl).1
      rw [hstanding, hlength] at hwraps hends
      rw [hwraps, hends]
  · rintro operations shouldWrap source queue queue' rfl hidentified hnext
    exact previous_undoes_next (valid_run operations) hidentified hnext
  · intro operations
    have hvalid := valid_run operations
    exact ⟨hvalid.current, fun index hindex => List.mem_range.mp (hvalid.order.mem_iff.mp hindex)⟩

/-- Three Tracks, the second of which plays. -/
def threeTracks : PlaybackQueueContext where
  sources := ["a", "b", "c"].map fun id =>
    ⟨"track", .ok ⟨id, "https://harmony.local/stream", none⟩, none, false, false, ""⟩
  order := []
  currentIndex := some 1

theorem threeTracks_play_once :
    (threeTracks.shuffle fun _ => some 7).1.order[0]? = some 1 ∧
      (threeTracks.shuffle fun _ => some 7).1.order[1]? ≠ some 2 ∧
      ((threeTracks.shuffle fun _ => some 7).1.travel .next false 3).2.adjacentSource .next false =
        none := by
  have hidentified : Identified threeTracks.sources := by
    refine ⟨?_, by decide⟩
    intro source hsource
    obtain ⟨id, -, rfl⟩ := List.mem_map.mp hsource
    exact ⟨_, rfl⟩
  obtain ⟨shuffled, first, hshuffle, -, -, -, -, hstarts, hsuccessor, hends, -⟩ :=
    shuffle_plays_every_source.1 threeTracks 1 (fun _ => 7) hidentified rfl (by decide)
  rw [hshuffle]
  exact ⟨hstarts, hsuccessor (by decide), (hends 3 (by decide)).2⟩

end PlaybackQueueContext

end Harmony.Player
