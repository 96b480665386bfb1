/-
# Lookups that do not overlap

A request looks up with what it read before it waited. As long as no other request of
the Track reads the row meanwhile, what it read is still what is stored when it records
its result, and nobody waited for it. Two lookups of one Track that overlap ask twice,
and a failed one writes back what it read, over what the other found.
-/

import Harmony.Lyrics.Service

namespace Harmony.Lyrics

/-! ### What is kept -/

/-- What a step does to stored lyrics, to lookups and to what is returned. -/
structure Kept (w : World) (e : Event) (w' : World) : Prop where
  /-- A failed lookup leaves the text that is stored. -/
  keeps : ∀ id track since stored error, e = .put id →
    w.requests.lookup id = some ⟨track, .answered stored (.error error), since⟩ →
    textOf (w.rows.lookup track) ≠ "" →
    textOf (w'.rows.lookup track) = textOf (w.rows.lookup track)
  /-- A lookup is made only when the answers that the request waited for are due again. -/
  asksOnce : ∀ id request, e = .ask id → w.requests.lookup id = some request →
    ∀ answer ∈ w.answers, answer.track = request.track → request.since ≤ answer.number →
      answer.isDue w.now = true
  /-- A text that is returned is the file's own or the stored one. -/
  returns : ∀ id request text, w'.requests.lookup id = some request →
    request.phase = .returned text → w.requests.lookup id = some request ∨
      (∃ track, w.tracks.lookup request.track = some track ∧ isBlank track.lyrics = false ∧
        text = track.lyrics) ∨
      text = textOf (w'.rows.lookup request.track)
  /-- A row is what a lookup came to, unless its Track is deleted. -/
  stores : ∀ track, w'.rows.lookup track ≠ w.rows.lookup track →
    e = .deleteTrack track ∨ ∃ id since stored found, e = .put id ∧
      w.requests.lookup id = some ⟨track, .answered stored found, since⟩ ∧
      w'.rows.lookup track = some ⟨(resultOf stored found).1.asStr,
        some (resultOf stored found).2, w.now⟩

/-! ### Lookups under way -/

def Request.looksUp (request : Request) : Bool := request.phase.snapshot.isSome

/-- A step at which no request reads the row of a Track that another one looks up. -/
structure CalmStep (w : World) (e : Event) (w' : World) : Prop where
  perform : w.perform e = some w'
  alone : ∀ id request, e = .readRow id → w.requests.lookup id = some request →
    ∀ other lookup, w.requests.lookup other = some lookup → lookup.track = request.track →
      lookup.looksUp = false

/-- A request that waits for its turn or for the gap. -/
def Phase.isWaiting : Phase → Bool
  | .waiting _ _ | .locked _ _ => true
  | _ => false

/-- What was read is what is stored, and nobody waited for an answer. -/
structure Sound (w : World) : Prop where
  alone : ∀ id other request lookup, w.requests.lookup id = some request →
    w.requests.lookup other = some lookup → request.looksUp = true → lookup.looksUp = true →
    request.track = lookup.track → id = other
  current : ∀ id request stored, w.requests.lookup id = some request →
    request.phase.snapshot = some stored → textOf (w.rows.lookup request.track) ≠ "" →
    (stored.map (·.lyrics)).getD "" = textOf (w.rows.lookup request.track)
  numbered : ∀ answer ∈ w.answers, answer.number < w.answers.length
  unanswered : ∀ id request, w.requests.lookup id = some request →
    request.phase.isWaiting = true →
    ∀ answer ∈ w.answers, answer.track = request.track → answer.number < request.since

/-- No request is under way. -/
structure Init (w : World) : Prop where
  requests : w.requests = ∅
  answers : w.answers = []

theorem Init.sound {w : World} (h : Init w) : Sound w where
  alone id other request lookup hid := by
    rw [h.requests] at hid
    cases hid
  current id request stored hid := by
    rw [h.requests] at hid
    cases hid
  numbered answer hanswer := by
    rw [h.answers] at hanswer
    cases hanswer
  unanswered id request hid := by
    rw [h.requests] at hid
    cases hid

variable {e : Event}

section Steps

variable {w w' : World} {id : ℕ} {request : Request} {phase : Phase}

theorem lookup_setPhase (w : World) (id other : ℕ) (phase : Phase) :
    (w.setPhase id phase).requests.lookup other =
      if other = id then (w.requests.lookup other).map fun request => { request with phase }
      else w.requests.lookup other := by
  rw [World.setPhase, Table.lookup_modify]

theorem lookup_setPhase_of (hid : w.requests.lookup id = some request) (phase : Phase)
    (other : ℕ) : (w.setPhase id phase).requests.lookup other =
      if other = id then some { request with phase } else w.requests.lookup other := by
  rw [lookup_setPhase]
  split_ifs with hsame
  · rw [hsame, hid, Option.map_some]
  · rfl

theorem isWaiting_snapshot (h : phase.isWaiting = true) : phase.snapshot.isSome = true := by
  cases phase with
  | waiting => rfl
  | locked => rfl
  | _ => cases h

/-- A request takes a step that leaves the rows and the answers as they are, and does not
begin to look up. -/
theorem Sound.goOn (h : Sound w) (hid : w.requests.lookup id = some request) (next : Request)
    (htrack : next.track = request.track)
    (hsnapshot : ∀ stored, next.phase.snapshot = some stored →
      request.phase.snapshot = some stored)
    (hwaiting : next.phase.isWaiting = true → (∀ answer ∈ w.answers,
      answer.track = request.track → answer.number < next.since))
    (hrequests : ∀ other, w'.requests.lookup other =
      if other = id then some next else w.requests.lookup other)
    (hrows : w'.rows = w.rows) (hanswers : w'.answers = w.answers) : Sound w' := by
  have hlooksUp : next.looksUp = true → request.looksUp = true := by
    intro hnext
    obtain ⟨stored, hstored⟩ := Option.isSome_iff_exists.mp hnext
    exact Option.isSome_iff_exists.mpr ⟨stored, hsnapshot stored hstored⟩
  -- What a request of the new state was in the old one.
  have hold : ∀ other row, w'.requests.lookup other = some row → row.looksUp = true →
      ∃ row', w.requests.lookup other = some row' ∧ row'.looksUp = true ∧
        row'.track = row.track := by
    intro other row hother hrow
    rw [hrequests] at hother
    split_ifs at hother with hsame
    · cases hother
      exact ⟨request, hsame ▸ hid, hlooksUp hrow, htrack.symm⟩
    · exact ⟨row, hother, hrow, rfl⟩
  constructor
  · intro first second row row' hfirst hsecond hlooks hlooks' hsame
    obtain ⟨old, hold₁, hlooks₁, htrack₁⟩ := hold first row hfirst hlooks
    obtain ⟨old', hold₂, hlooks₂, htrack₂⟩ := hold second row' hsecond hlooks'
    exact h.alone first second old old' hold₁ hold₂ hlooks₁ hlooks₂
      (htrack₁.trans (hsame.trans htrack₂.symm))
  · intro other row stored hother hstored htext
    rw [hrows] at htext ⊢
    rw [hrequests] at hother
    split_ifs at hother with hsame
    · cases hother
      rw [htrack] at htext ⊢
      exact h.current id request stored hid (hsnapshot stored hstored) htext
    · exact h.current other row stored hother hstored htext
  · rw [hanswers]
    exact h.numbered
  · intro other row hother hrow answer hanswer hsame
    rw [hanswers] at hanswer
    rw [hrequests] at hother
    split_ifs at hother with hother'
    · cases hother
      exact hwaiting hrow answer hanswer (hsame.trans htrack)
    · exact h.unanswered other row hother hrow answer hanswer hsame

/-- No request changes, and a stored text only goes away. -/
theorem Sound.restrict (h : Sound w)
    (hrequests : ∀ other row, w'.requests.lookup other = some row →
      w.requests.lookup other = some row)
    (hrows : ∀ track, textOf (w'.rows.lookup track) ≠ "" →
      w'.rows.lookup track = w.rows.lookup track)
    (hanswers : w'.answers = w.answers) : Sound w' where
  alone first second row row' hfirst hsecond :=
    h.alone first second row row' (hrequests first row hfirst) (hrequests second row' hsecond)
  current other row stored hother hstored htext := by
    have hsame := hrows row.track htext
    rw [hsame] at htext ⊢
    exact h.current other row stored (hrequests other row hother) hstored htext
  numbered := by
    rw [hanswers]
    exact h.numbered
  unanswered other row hother := by
    rw [hanswers]
    exact h.unanswered other row (hrequests other row hother)

/-- A request is, or comes to be, at a place where it looks nothing up. -/
theorem Sound.leave (h : Sound w) (id : ℕ) (next : Request) (hnext : next.looksUp = false)
    (hrequests : ∀ other, w'.requests.lookup other =
      if other = id then some next else w.requests.lookup other)
    (hrows : ∀ other row, other ≠ id → w.requests.lookup other = some row →
      row.looksUp = true → w'.rows.lookup row.track = w.rows.lookup row.track)
    (hanswers : w'.answers = w.answers) : Sound w' := by
  have hold : ∀ other row, w'.requests.lookup other = some row → row.looksUp = true →
      other ≠ id ∧ w.requests.lookup other = some row := by
    intro other row hother hrow
    rw [hrequests] at hother
    split_ifs at hother with hsame
    · cases hother
      rw [hnext] at hrow
      cases hrow
    · exact ⟨hsame, hother⟩
  constructor
  · intro first second row row' hfirst hsecond hlooks hlooks' hsame
    obtain ⟨-, hold₁⟩ := hold first row hfirst hlooks
    obtain ⟨-, hold₂⟩ := hold second row' hsecond hlooks'
    exact h.alone first second row row' hold₁ hold₂ hlooks hlooks' hsame
  · intro other row stored hother hstored htext
    have hlooks : row.looksUp = true := Option.isSome_iff_exists.mpr ⟨stored, hstored⟩
    obtain ⟨hne, hold₁⟩ := hold other row hother hlooks
    rw [hrows other row hne hold₁ hlooks] at htext ⊢
    exact h.current other row stored hold₁ hstored htext
  · rw [hanswers]
    exact h.numbered
  · intro other row hother hrow
    rw [hanswers]
    obtain ⟨-, hold₁⟩ := hold other row hother (isWaiting_snapshot hrow)
    exact h.unanswered other row hold₁ hrow

/-- A request has read the row of a Track that no other request looks up. -/
theorem Sound.begin (h : Sound w) (hid : w.requests.lookup id = some request)
    (halone : ∀ other lookup, w.requests.lookup other = some lookup →
      lookup.track = request.track → lookup.looksUp = false) :
    Sound (w.setPhase id (.due ((w.rows.lookup request.track).map (·.read w.now)))) := by
  have hold : ∀ other row, (w.setPhase id (.due ((w.rows.lookup request.track).map
      (·.read w.now)))).requests.lookup other = some row →
      (other = id ∧ row = { request with
        phase := .due ((w.rows.lookup request.track).map (·.read w.now)) }) ∨
      w.requests.lookup other = some row := by
    intro other row hother
    rw [lookup_setPhase] at hother
    split_ifs at hother with hsame
    · subst hsame
      rw [hid, Option.map_some] at hother
      exact Or.inl ⟨rfl, (Option.some.inj hother).symm⟩
    · exact Or.inr hother
  constructor
  · intro first second row row' hfirst hsecond hlooks hlooks' hsame
    rcases hold first row hfirst with ⟨rfl, rfl⟩ | hfirst'
    · rcases hold second row' hsecond with ⟨rfl, -⟩ | hsecond'
      · rfl
      · rw [halone second row' hsecond' hsame.symm] at hlooks'
        cases hlooks'
    · rcases hold second row' hsecond with ⟨rfl, rfl⟩ | hsecond'
      · rw [halone first row hfirst' hsame] at hlooks
        cases hlooks
      · exact h.alone first second row row' hfirst' hsecond' hlooks hlooks' hsame
  · intro other row stored hother hstored htext
    rcases hold other row hother with ⟨rfl, rfl⟩ | hother'
    · cases hstored
      change _ = textOf (w.rows.lookup request.track)
      cases w.rows.lookup request.track <;> rfl
    · exact h.current other row stored hother' hstored htext
  · exact h.numbered
  · intro other row hother hrow
    rcases hold other row hother with ⟨rfl, rfl⟩ | hother'
    · cases hrow
    · exact h.unanswered other row hother' hrow

/-- Nobody waits for an answer of the Track. -/
theorem Sound.log (h : Sound w) {track : String} (result : Outcome × String)
    (hnone : ∀ other row, w.requests.lookup other = some row → row.phase.isWaiting = true →
      row.track ≠ track) : Sound (w.logAnswer track result) where
  alone := h.alone
  current := h.current
  numbered answer hanswer := by
    rw [World.logAnswer, List.length_cons]
    rcases List.mem_cons.mp hanswer with rfl | hold
    · exact Nat.lt_succ_self _
    · exact (h.numbered answer hold).trans (Nat.lt_succ_self _)
  unanswered other row hother hrow answer hanswer hsame := by
    rcases List.mem_cons.mp hanswer with rfl | hold
    · exact absurd hsame.symm (hnone other row hother hrow)
    · exact h.unanswered other row hother hrow answer hold hsame

theorem lookup_putRow {track other : String} {result : Outcome × String} (hne : other ≠ track) :
    (w.putRow id track result).rows.lookup other = w.rows.lookup other := by
  rw [World.putRow]
  split_ifs
  · exact AList.lookup_insert_ne hne
  · rfl

theorem fileRead_snapshot (w : World) (track : String) : (w.fileRead track).snapshot = none := by
  rw [World.fileRead]
  split
  · rfl
  · split_ifs <;> rfl

theorem Sound.step (h : Sound w) (hstep : CalmStep w e w') : Sound w' := by
  have hperform := hstep.perform
  -- A request that is somewhere without a lookup, with the rows as they are.
  have hleave : ∀ id request (phase : Phase), w.requests.lookup id = some request →
      phase.snapshot = none → Sound (w.setPhase id phase) := by
    intro id request phase hid hphase
    exact h.leave id { request with phase }
      (by rw [Request.looksUp, hphase]; rfl) (lookup_setPhase_of hid phase)
      (fun _ _ _ _ _ => rfl) rfl
  cases e with
  | begin id track =>
    simp only [World.perform] at hperform
    split_ifs at hperform
    cases hperform
    refine h.leave id ⟨track, .begun, 0⟩ rfl (fun other => ?_) (fun _ _ _ _ _ => rfl) rfl
    rw [Table.lookup_insert_eq]
  | readFile id =>
    simp only [World.perform] at hperform
    split at hperform
    · rename_i track since hid
      cases hperform
      exact hleave id _ _ hid (fileRead_snapshot w track)
    · cases hperform
  | readRow id =>
    simp only [World.perform] at hperform
    split at hperform
    · rename_i track since hid
      cases hperform
      rw [World.rowRead]
      split_ifs
      · exact hleave id _ _ hid rfl
      · exact h.begin hid (hstep.alone id _ rfl hid)
    · cases hperform
  | readTrack id =>
    simp only [World.perform] at hperform
    split at hperform
    · rename_i track stored since hid
      cases hperform
      rw [World.trackRead]
      split
      · refine h.leave id ⟨track, .failed .notFound, w.answers.length⟩ rfl
          (fun other => ?_) (fun _ _ _ _ _ => rfl) rfl
        rw [Table.lookup_insert_eq]
      · rename_i row _
        refine h.goOn hid ⟨track, .waiting stored (.ofTrack row), w.answers.length⟩ rfl
          (fun _ hstored => hstored) (fun _ answer hanswer _ => h.numbered answer hanswer)
          (fun other => ?_) rfl rfl
        rw [Table.lookup_insert_eq]
    · cases hperform
  | lock id =>
    simp only [World.perform] at hperform
    split at hperform
    · rename_i track stored query since hid
      split_ifs at hperform
      cases hperform
      exact h.goOn hid ⟨track, .locked stored query, since⟩ rfl (fun _ hstored => hstored)
        (fun _ => h.unanswered id _ hid rfl) (lookup_setPhase_of hid _) rfl rfl
    · cases hperform
  | ask id =>
    simp only [World.perform] at hperform
    split at hperform
    · rename_i track stored query since hid
      split_ifs at hperform
      cases hperform
      exact h.goOn hid ⟨track, .asking stored query, since⟩ rfl (fun _ hstored => hstored)
        (fun hwaiting => by cases hwaiting) (lookup_setPhase_of hid _) rfl rfl
    · cases hperform
  | answer id found =>
    simp only [World.perform] at hperform
    split at hperform
    · rename_i track stored query since hid
      cases hperform
      have hafter := lookup_setPhase_of hid (.answered stored found)
      have hphase : Sound (w.setPhase id (.answered stored found)) :=
        h.goOn hid ⟨track, .answered stored found, since⟩ rfl (fun _ hstored => hstored)
          (fun hwaiting => by cases hwaiting) hafter rfl rfl
      refine hphase.log (resultOf stored found) fun other row hother hrow hsame => ?_
      rw [hafter] at hother
      split_ifs at hother with hne
      · cases hother
        cases hrow
      · exact hne (h.alone other id row _ hother hid (isWaiting_snapshot hrow) rfl hsame)
    · cases hperform
  | put id =>
    simp only [World.perform] at hperform
    split at hperform
    · rename_i track stored found since hid
      cases hperform
      have hrows : ∀ other row, other ≠ id → w.requests.lookup other = some row →
          row.looksUp = true → (w.putRow id track (resultOf stored found)).rows.lookup row.track =
            w.rows.lookup row.track := by
        intro other row hne hother hrow
        refine lookup_putRow fun hsame => hne ?_
        exact h.alone other id row _ hother hid hrow rfl hsame
      rw [World.putRow] at hrows ⊢
      split_ifs at hrows ⊢
      · exact h.leave id ⟨track, .returned (resultOf stored found).2, since⟩ rfl
          (lookup_setPhase_of hid _) hrows rfl
      · exact hleave id _ _ hid rfl
    · cases hperform
  | dbError id error =>
    simp only [World.perform] at hperform
    split at hperform
    · rename_i hid
      cases hperform
      exact hleave id _ _ hid rfl
    · rename_i hid
      cases hperform
      exact hleave id _ _ hid rfl
    · rename_i hid
      cases hperform
      exact hleave id _ _ hid rfl
    · rename_i hid
      cases hperform
      exact hleave id _ _ hid rfl
    · cases hperform
  | cancel id =>
    cases hperform
    refine h.restrict (fun other row hother => ?_) (fun _ _ => rfl) rfl
    rw [Table.lookup_erase_eq] at hother
    split_ifs at hother
    exact hother
  | clock now passed =>
    cases hperform
    exact h.restrict (fun _ _ hother => hother) (fun _ _ => rfl) rfl
  | changeTrack id track =>
    cases hperform
    exact h.restrict (fun _ _ hother => hother) (fun _ _ => rfl) rfl
  | deleteTrack id =>
    cases hperform
    refine h.restrict (fun _ _ hother => hother) (fun track htext => ?_) rfl
    rw [Table.lookup_erase_eq] at htext ⊢
    split_ifs at htext ⊢ with hsame
    · exact absurd rfl htext
    · rfl

/-! ### What each step keeps -/

theorem textOf_read (now : ℤ) (row : Option Row) :
    ((row.map (·.read now)).map (·.lyrics)).getD "" = textOf row := by
  cases row <;> rfl

theorem Sound.keeps {track : String} {since : ℕ} {stored : Option Stored} {error : String}
    (h : Sound w) (hstep : w.perform (.put id) = some w')
    (hid : w.requests.lookup id = some ⟨track, .answered stored (.error error), since⟩)
    (htext : textOf (w.rows.lookup track) ≠ "") :
    textOf (w'.rows.lookup track) = textOf (w.rows.lookup track) := by
  simp only [World.perform, hid] at hstep
  cases hstep
  have hcurrent := h.current id _ stored hid rfl htext
  rw [World.putRow]
  split_ifs
  · dsimp only
    rw [AList.lookup_insert]
    exact hcurrent
  · rfl

theorem Sound.asksOnce (h : Sound w) (hstep : w.perform (.ask id) = some w')
    (hid : w.requests.lookup id = some request) :
    ∀ answer ∈ w.answers, answer.track = request.track → answer.number < request.since := by
  simp only [World.perform] at hstep
  split at hstep
  · rename_i track stored query since hlocked
    rw [hlocked] at hid
    cases hid
    exact h.unanswered id _ hlocked rfl
  · cases hstep

/-- A request that is returned by a change of one phase. -/
theorem returned_setPhase {other : ℕ} {text : String}
    (hother : (w.setPhase id phase).requests.lookup other = some request)
    (hphase : request.phase = .returned text) :
    w.requests.lookup other = some request ∨
      ∃ before, w.requests.lookup id = some before ∧ before.track = request.track ∧
        phase = .returned text := by
  rw [lookup_setPhase] at hother
  split_ifs at hother with hsame
  · obtain ⟨before, hbefore, rfl⟩ := Option.map_eq_some_iff.mp hother
    exact Or.inr ⟨before, hsame ▸ hbefore, rfl, hphase⟩
  · exact Or.inl hother

/-- What is returned is the file's own text or the stored one. -/
theorem returns_of_perform (hperform : w.perform e = some w') {text : String}
    (hid : w'.requests.lookup id = some request) (hphase : request.phase = .returned text) :
    w.requests.lookup id = some request ∨
      (∃ track, w.tracks.lookup request.track = some track ∧ isBlank track.lyrics = false ∧
        text = track.lyrics) ∨
      text = textOf (w'.rows.lookup request.track) := by
  -- Most steps return nothing.
  have hsilent : ∀ other (phase : Phase), (∀ text, phase ≠ .returned text) →
      (w.setPhase other phase).requests.lookup id = some request →
      w.requests.lookup id = some request := by
    intro other phase hnever hlookup
    rcases returned_setPhase hlookup hphase with hold | ⟨_, _, _, hreturned⟩
    · exact hold
    · exact absurd hreturned (hnever text)
  cases e with
  | begin other track =>
    simp only [World.perform] at hperform
    split_ifs at hperform
    cases hperform
    rw [Table.lookup_insert_eq] at hid
    split_ifs at hid
    · cases hid
      cases hphase
    · exact Or.inl hid
  | readFile other =>
    simp only [World.perform] at hperform
    split at hperform
    · rename_i track since hother
      cases hperform
      rcases returned_setPhase hid hphase with hold | ⟨before, hbefore, htrack, hreturned⟩
      · exact Or.inl hold
      · rw [hother] at hbefore
        cases hbefore
        subst htrack
        rw [World.fileRead] at hreturned
        split at hreturned
        · cases hreturned
        · rename_i row hrow
          split_ifs at hreturned with hblank
          injection hreturned with htext
          exact Or.inr (Or.inl ⟨row, hrow, Bool.eq_false_iff.mpr hblank, htext.symm⟩)
    · cases hperform
  | readRow other =>
    simp only [World.perform] at hperform
    split at hperform
    · rename_i track since hother
      cases hperform
      rcases returned_setPhase hid hphase with hold | ⟨before, hbefore, htrack, hreturned⟩
      · exact Or.inl hold
      · rw [hother] at hbefore
        cases hbefore
        subst htrack
        rw [World.rowRead] at hreturned
        split_ifs at hreturned
        injection hreturned with htext
        rw [textOf_read] at htext
        exact Or.inr (Or.inr htext.symm)
    · cases hperform
  | readTrack other =>
    simp only [World.perform] at hperform
    split at hperform
    · rename_i track stored since hother
      cases hperform
      rw [Table.lookup_insert_eq] at hid
      split_ifs at hid
      · cases hid
        rw [World.trackRead] at hphase
        split at hphase <;> cases hphase
      · exact Or.inl hid
    · cases hperform
  | lock other =>
    simp only [World.perform] at hperform
    split at hperform
    · split_ifs at hperform
      cases hperform
      exact Or.inl (hsilent _ _ (fun _ hnever => by cases hnever) hid)
    · cases hperform
  | ask other =>
    simp only [World.perform] at hperform
    split at hperform
    · split_ifs at hperform
      cases hperform
      exact Or.inl (hsilent _ _ (fun _ hnever => by cases hnever) hid)
    · cases hperform
  | answer other found =>
    simp only [World.perform] at hperform
    split at hperform
    · cases hperform
      exact Or.inl (hsilent _ _ (fun _ hnever => by cases hnever) hid)
    · cases hperform
  | put other =>
    simp only [World.perform] at hperform
    split at hperform
    · rename_i track stored found since hother
      cases hperform
      rw [World.putRow] at hid ⊢
      split_ifs at hid ⊢
      · rcases returned_setPhase hid hphase with hold | ⟨before, hbefore, htrack, hreturned⟩
        · exact Or.inl hold
        · rw [hother] at hbefore
          cases hbefore
          subst htrack
          injection hreturned with htext
          refine Or.inr (Or.inr ?_)
          dsimp only
          rw [AList.lookup_insert]
          exact htext.symm
      · exact Or.inl (hsilent _ _ (fun _ hnever => by cases hnever) hid)
    · cases hperform
  | dbError other error =>
    simp only [World.perform] at hperform
    split at hperform
    all_goals first
      | cases hperform
        exact Or.inl (hsilent _ _ (fun _ hnever => by cases hnever) hid)
      | cases hperform
  | cancel other =>
    cases hperform
    rw [Table.lookup_erase_eq] at hid
    split_ifs at hid
    exact Or.inl hid
  | clock now passed =>
    cases hperform
    exact Or.inl hid
  | changeTrack other track =>
    cases hperform
    exact Or.inl hid
  | deleteTrack other =>
    cases hperform
    exact Or.inl hid

/-- A row changes when a lookup is recorded or its Track is deleted. -/
theorem stores_of_perform (hperform : w.perform e = some w') {track : String}
    (hchanged : w'.rows.lookup track ≠ w.rows.lookup track) :
    e = .deleteTrack track ∨ ∃ id since stored found, e = .put id ∧
      w.requests.lookup id = some ⟨track, .answered stored found, since⟩ ∧
      w'.rows.lookup track = some ⟨(resultOf stored found).1.asStr,
        some (resultOf stored found).2, w.now⟩ := by
  by_cases hrows : w'.rows = w.rows
  · rw [hrows] at hchanged
    exact absurd rfl hchanged
  cases e with
  | put id =>
    simp only [World.perform] at hperform
    split at hperform
    · rename_i track' stored found since hid
      cases hperform
      rw [World.putRow] at hchanged ⊢
      split_ifs at hchanged ⊢
      · dsimp only at hchanged ⊢
        rw [Table.lookup_insert_eq] at hchanged
        split_ifs at hchanged with hsame
        · subst hsame
          exact Or.inr ⟨id, since, stored, found, rfl, hid, AList.lookup_insert _⟩
        · exact absurd rfl hchanged
      · exact absurd rfl hchanged
    · cases hperform
  | deleteTrack id =>
    cases hperform
    dsimp only at hchanged
    rw [Table.lookup_erase_eq] at hchanged
    split_ifs at hchanged with hsame
    · subst hsame
      exact Or.inl rfl
    · exact absurd rfl hchanged
  | _ =>
    simp only [World.perform] at hperform
    refine absurd ?_ hrows
    repeat' split at hperform
    all_goals first
      | cases hperform
        rfl
      | cases hperform

theorem Sound.kept (h : Sound w) (hstep : CalmStep w e w') : Kept w e w' where
  keeps id track since stored error he hid htext := by
    subst he
    exact h.keeps hstep.perform hid htext
  asksOnce id request he hid answer hanswer htrack hsince := by
    subst he
    have hbefore := h.asksOnce hstep.perform hid answer hanswer htrack
    omega
  returns _ _ _ hid hphase := returns_of_perform hstep.perform hid hphase
  stores _ hchanged := stores_of_perform hstep.perform hchanged

end Steps

/-! ### Runs -/

/-- Some run in which lookups of a Track do not overlap leads here. -/
def ReachableCalmly (w : World) : Prop := Transition.Reachable Init CalmStep w

/-- Where no request reads the row of a Track that another one looks up, no text is lost,
nothing is asked twice, and what is returned is stored. -/
theorem lyrics_kept {w w' : World} {e : Event} (h : ReachableCalmly w) (hstep : CalmStep w e w') :
    Kept w e w' := by
  have hsound : Sound w := by
    refine Transition.Reachable.invariant ?_ ?_ h
    · intro start hinit
      exact Init.sound hinit
    · intro s event t hs hevent
      exact hs.step hevent
  exact hsound.kept hstep

section Sample

def isCalm (w : World) : Event → Bool
  | .readRow id =>
    match w.requests.lookup id with
    | none => true
    | some request => !w.requests.any fun _ lookup => lookup.track = request.track ∧ lookup.looksUp
  | _ => true

theorem CalmStep.of_isCalm {w w' : World} (h : w.perform e = some w') (hcalm : isCalm w e = true) :
    CalmStep w e w' where
  perform := h
  alone id request he hid other lookup hother htrack := by
    subst he
    simp only [isCalm, hid, Bool.not_eq_true'] at hcalm
    have hnone := (Table.any_eq_false _).mp hcalm other lookup hother
    simpa [htrack] using hnone

def performCalmly (w : World) (e : Event) : Option World :=
  if isCalm w e then w.perform e else none

theorem run_of_performCalmly {w w' : World} {events : List Event}
    (h : events.foldlM performCalmly w = some w') : Transition.Run CalmStep w events w' :=
  (Transition.Run.of_guarded h).mono fun _ _ _ hstep => .of_isCalm hstep.2 hstep.1

/-- A Track without lyrics of its own, for which plain ones were found four days ago. -/
def plainStart : World where
  now := 345600
  instant := 0
  enabled := true
  tracks := AList.insert "gone" ⟨"", "Gone", ["Skillet"], "Skillet", "Awake", 200000, true⟩ ∅
  rows := AList.insert "gone" ⟨"found", some "Plain words", 0⟩ ∅
  lastRequest := none
  requests := ∅
  answers := []

def lookUp (id : ℕ) (found : Except String (Option Found)) : List Event :=
  [.lock id, .ask id, .answer id found, .clock 345601 1000]

def arrive (id : ℕ) : List Event := [.begin id "gone", .readFile id, .readRow id, .readTrack id]

theorem failing_isSome : ((arrive 0 ++ lookUp 0 (.error "lrclib timed out")).foldlM performCalmly
    plainStart).any (fun w => (performCalmly w (.put 0)).any
      fun w' => textOf (w'.rows.lookup "gone") = "Plain words") = true := by
  decide +kernel

/-- A refresh that fails keeps the lyrics. -/
theorem failed_refresh_keeps : ∃ w w', Kept w (.put 0) w' ∧
    textOf (w'.rows.lookup "gone") = "Plain words" := by
  obtain ⟨w, hw, hput⟩ := Option.any_eq_true _ _ |>.mp failing_isSome
  obtain ⟨w', hw', htext⟩ := Option.any_eq_true _ _ |>.mp hput
  have hreachable : ReachableCalmly w :=
    ⟨plainStart, _, ⟨rfl, rfl⟩, run_of_performCalmly hw⟩
  rw [performCalmly] at hw'
  split_ifs at hw' with hcalm
  exact ⟨w, w', lyrics_kept hreachable (.of_isCalm hw' hcalm), of_decide_eq_true htext⟩

/-- The second request read the row before the first one's lookup was recorded. -/
def overlapping : List Event :=
  arrive 0 ++ arrive 1 ++ lookUp 0 (.ok (some (.lyrics "[00:12.00] Synced words"))) ++ [.put 0] ++
    lookUp 1 (.error "lrclib timed out")

/-- The second lookup failed after the first one's text was stored. -/
def isOvertaken (w : World) : Bool :=
  match w.requests.lookup 1 with
  | some ⟨track, .answered _ (.error _), _⟩ =>
    track = "gone" && textOf (w.rows.lookup "gone") = "[00:12.00] Synced words"
  | _ => false

theorem overlapping_isSome : (overlapping.foldlM World.perform plainStart).any (fun w =>
    isOvertaken w && (w.perform (.put 1)).any fun w' =>
      textOf (w'.rows.lookup "gone") = "Plain words") = true := by
  decide +kernel

/-- The failed lookup writes back what it read, over the text that was found. -/
theorem overlapping_lookup_loses : ¬∀ w e w',
    Transition.Reachable Init (fun w e w' => w.perform e = some w') w →
      w.perform e = some w' → Kept w e w' := by
  intro h
  obtain ⟨w, hw, hboth⟩ := Option.any_eq_true _ _ |>.mp overlapping_isSome
  obtain ⟨hovertaken, hput⟩ := Bool.and_eq_true_iff.mp hboth
  obtain ⟨w', hw', hafter⟩ := Option.any_eq_true _ _ |>.mp hput
  have hkept := h w (.put 1) w'
    ⟨plainStart, _, ⟨rfl, rfl⟩, Transition.Run.of_option hw⟩ hw'
  rw [isOvertaken] at hovertaken
  split at hovertaken
  · rename_i track stored error since hrequest
    obtain ⟨htrack, hbefore⟩ := Bool.and_eq_true_iff.mp hovertaken
    obtain rfl := of_decide_eq_true htrack
    have htext := of_decide_eq_true hbefore
    have hsame := hkept.keeps 1 _ since stored error rfl hrequest (by rw [htext]; decide)
    rw [of_decide_eq_true hafter, htext] at hsame
    exact absurd hsame (by decide)
  · cases hovertaken

end Sample

end Harmony.Lyrics
