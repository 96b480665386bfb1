/-
# Library Search under concurrent writes

Searches over one cached index while transactions commit. A search reads the
revision, compares the cached index under the lock, and otherwise takes the lock
again and loads: between any two of these another search may reload the cache and
any transaction may commit. The log of committed databases and the place of a
search in it are for the statements only.
-/

import Harmony.Library.Transition
import Harmony.Search.Revision

namespace Harmony.Search

/-! ### The service -/

/-- The cached index. -/
structure Snapshot where
  index : Index
  revision : ℕ
  userId : String

/-- Whether the snapshot is the user's at this revision. -/
def Snapshot.accepts (current : Snapshot) (userId : String) (revision : ℕ) : Bool :=
  current.revision == revision && current.userId == userId

/-- How far `current_index` has come. -/
inductive Phase
  | started
  /-- The revision was read, outside of the lock. -/
  | read (revision : ℕ)
  /-- The cached index is another one. -/
  | stale
  /-- The lock is held for a reload. -/
  | holding
  /-- The reload has read its snapshot of the database. -/
  | loaded (index : Option Index) (revision : ℕ)
  | answered (result : Except IndexError Index)

structure Request where
  userId : String
  /-- The index in the log of the database that was current at the start. -/
  since : ℕ
  phase : Phase

structure Service where
  db : Database
  /-- The databases committed so far, the newest last. -/
  log : List Database
  snapshot : Option Snapshot
  /-- The search that holds the lock of the snapshot. -/
  lock : Option ℕ
  searches : Table ℕ Request

namespace Service

def setPhase (s : Service) (id : ℕ) (phase : Phase) : Service :=
  let searches := s.searches.modify id fun search => { search with phase }
  { s with searches }

/-- Releases the lock when the search holds it. -/
def release (s : Service) (id : ℕ) : Service :=
  { s with lock := if s.lock = some id then none else s.lock }

/-- `snapshot.as_ref().is_some_and(..)` of the reload. -/
def reuses (s : Service) (userId : String) (revision : ℕ) : Bool :=
  s.snapshot.any fun current => current.accepts userId revision

end Service

inductive Step
  /-- A transaction commits. -/
  | write (statements : List Statement)
  | search (id : ℕ) (userId : String)
  | currentRevision (id : ℕ)
  | compare (id : ℕ)
  | acquire (id : ℕ)
  | load (id : ℕ)
  | store (id : ℕ)
  /-- A read of the database fails. -/
  | fail (id : ℕ)
  /-- The request goes away. -/
  | cancel (id : ℕ)
  | restart

/-- The step from a state in which it can be taken. -/
def Service.perform (U : Unicode) (s : Service) : Step → Option Service
  | .write statements =>
    match s.db.commit U statements with
    | .ok db => some { s with db, log := s.log ++ [db] }
    | .error _ => none
  | .search id userId =>
    if id ∈ s.searches then none
    else some { s with searches := s.searches.insert id ⟨userId, s.log.length - 1, .started⟩ }
  | .currentRevision id => do
    let search ← s.searches.lookup id
    match search.phase with
    | .started => some (s.setPhase id (.read s.db.revision))
    | _ => none
  | .compare id => do
    let search ← s.searches.lookup id
    match search.phase, s.lock with
    | .read revision, none =>
      match s.snapshot with
      | some current =>
        if current.accepts search.userId revision then
          some (s.setPhase id (.answered (.ok current.index)))
        else some (s.setPhase id .stale)
      | none => some (s.setPhase id .stale)
    | _, _ => none
  | .acquire id => do
    let search ← s.searches.lookup id
    match search.phase, s.lock with
    | .stale, none => some { s.setPhase id .holding with lock := some id }
    | _, _ => none
  | .load id => do
    let search ← s.searches.lookup id
    match search.phase with
    | .holding =>
      match Repository.load U s.db search.userId (s.reuses search.userId) with
      | .ok (index, revision) => some (s.setPhase id (.loaded index revision))
      | .error e => some ((s.setPhase id (.answered (.error e))).release id)
    | _ => none
  | .store id => do
    let search ← s.searches.lookup id
    match search.phase with
    | .loaded none _ => do
      let current ← s.snapshot
      some ((s.setPhase id (.answered (.ok current.index))).release id)
    | .loaded (some index) revision =>
      let snapshot := some ⟨index, revision, search.userId⟩
      some { (s.setPhase id (.answered (.ok index))).release id with snapshot }
    | _ => none
  | .fail id => do
    let search ← s.searches.lookup id
    match search.phase with
    | .started | .holding => some ((s.setPhase id (.answered (.error .database))).release id)
    | _ => none
  | .cancel id => some { s.release id with searches := s.searches.erase id }
  | .restart => some { s with snapshot := none, lock := none, searches := ∅ }

/-- A library whose texts are those of its names, and nothing cached. -/
structure Initial (U : Unicode) (s : Service) : Prop where
  texts : TextsCurrent U s.db
  log : s.log = [s.db]
  snapshot : s.snapshot = none
  lock : s.lock = none
  searches : s.searches = ∅

def Reachable (U : Unicode) (s : Service) : Prop :=
  Transition.Reachable (Initial U) (fun s (e : Step) t => s.perform U e = some t) s

/-! ### What holds of every reachable service -/

/-- The index is that of a database committed at that place or later, at the
revision. -/
def IndexOf (U : Unicode) (databases : List Database) (userId : String) (index : Index)
    (revision : ℕ) : Prop :=
  ∃ d ∈ databases, Repository.load U d userId (fun _ => false) = .ok (some index, revision)

/-- What a search has read belongs to databases committed since it started. -/
def Request.Sound (U : Unicode) (s : Service) (search : Request) : Prop :=
  match search.phase with
  | .started | .stale | .holding => True
  | .read revision => ∃ d ∈ s.log.drop search.since, d.revision = revision
  | .loaded (some index) revision =>
    IndexOf U (s.log.drop search.since) search.userId index revision
  | .loaded none _ =>
    ∀ current, s.snapshot = some current →
      ∃ revision, IndexOf U (s.log.drop search.since) search.userId current.index revision
  | .answered (.ok index) =>
    ∃ revision, IndexOf U (s.log.drop search.since) search.userId index revision
  | .answered (.error _) => True

structure Sound (U : Unicode) (s : Service) : Prop where
  last : s.log.getLast? = some s.db
  texts : ∀ d ∈ s.log, TextsCurrent U d
  ordered : s.log.Pairwise Advances
  snapshot : ∀ current, s.snapshot = some current →
    IndexOf U s.log current.userId current.index current.revision
  since : ∀ id search, s.searches.lookup id = some search → search.since < s.log.length
  searches : ∀ id search, s.searches.lookup id = some search → search.Sound U s
  /-- A search that has read the database for a reload still holds the lock. -/
  lock : ∀ id search index revision, s.searches.lookup id = some search →
    search.phase = .loaded index revision → s.lock = some id
  holding : ∀ id search, s.searches.lookup id = some search → search.phase = .holding →
    s.lock = some id

section Sound

variable {U : Unicode} {s t : Service} {id : ℕ} {search : Request} {phase : Phase} {userId : String}
  {revision : ℕ} {reuse : ℕ → Bool}

/-! #### Loads -/

theorem load_revision {d : Database} {index : Option Index}
    (h : Repository.load U d userId reuse = .ok (index, revision)) :
    d.revision = revision := by
  rw [Repository.load] at h
  split_ifs at h
  · exact (Prod.mk.inj (Except.ok.inj h)).2
  · cases hbuild : Repository.build U d.texts (d.fieldsFor userId) with
    | error e => simp [hbuild, bind, Except.bind] at h
    | ok built =>
      simp only [hbuild, bind, Except.bind, pure, Except.pure] at h
      exact (Prod.mk.inj (Except.ok.inj h)).2

/-- A load that builds an index builds the one a fresh load would. -/
theorem load_fresh {d : Database} {index : Index}
    (h : Repository.load U d userId reuse = .ok (some index, revision)) :
    Repository.load U d userId (fun _ => false) = .ok (some index, revision) := by
  rw [Repository.load] at h ⊢
  split_ifs at h
  · cases h
  · exact h

/-- A load that builds none was told to reuse the index at its revision. -/
theorem load_reused {d : Database} (h : Repository.load U d userId reuse = .ok (none, revision)) :
    reuse d.revision = true := by
  rw [Repository.load] at h
  split_ifs at h with hreuse
  · exact hreuse
  · cases hbuild : Repository.build U d.texts (d.fieldsFor userId) with
    | error e => simp [hbuild, bind, Except.bind] at h
    | ok built => simp [hbuild, bind, Except.bind, pure, Except.pure] at h

/-- Two committed databases at one revision give the same index. -/
theorem Sound.load_eq (h : Sound U s) {d d' : Database} (hd : d ∈ s.log) (hd' : d' ∈ s.log)
    (hrevision : d.revision = d'.revision) (userId : String) (reuse : ℕ → Bool) :
    Repository.load U d userId reuse = Repository.load U d' userId reuse := by
  let Same (d d' : Database) : Prop := d.revision = d'.revision → d.searched = d'.searched
  have hsame : ∀ d ∈ s.log, ∀ d' ∈ s.log, Same d d' := by
    refine List.Pairwise.forall_of_forall_of_flip (R := Same) (fun d _ _ => rfl) ?_ ?_
    · refine h.ordered.imp fun {a b} hadvances hequal => ?_
      rcases hadvances with hless | ⟨-, hsearched⟩
      · omega
      · exact hsearched.symm
    · refine h.ordered.imp fun {a b} hadvances hequal => ?_
      rcases hadvances with hless | ⟨-, hsearched⟩
      · omega
      · exact hsearched
  exact load_congr (hsame d hd d' hd' hrevision) userId reuse

theorem IndexOf.mono {databases databases' : List Database} {index : Index}
    (h : IndexOf U databases userId index revision) (hsubset : databases ⊆ databases') :
    IndexOf U databases' userId index revision := by
  obtain ⟨d, hd, hload⟩ := h
  exact ⟨d, hsubset hd, hload⟩

/-- The cached index is that of every committed database at its revision. -/
theorem Sound.cached (h : Sound U s) {current : Snapshot} (hcurrent : s.snapshot = some current)
    {databases : List Database} (hsubset : databases ⊆ s.log)
    (hread : ∃ d ∈ databases, d.revision = current.revision) :
    IndexOf U databases current.userId current.index current.revision := by
  obtain ⟨d, hd, hrevision⟩ := hread
  obtain ⟨d', hd', hload⟩ := h.snapshot current hcurrent
  refine ⟨d, hd, ?_⟩
  rw [h.load_eq (hsubset hd) hd' (hrevision.trans (load_revision hload).symm)]
  exact hload

theorem Snapshot.accepts_iff {current : Snapshot} :
    current.accepts userId revision = true ↔
      current.revision = revision ∧ current.userId = userId := by
  simp [Snapshot.accepts]

/-- The current database was committed after every search began. -/
theorem Sound.db_mem (h : Sound U s) (hsearch : s.searches.lookup id = some search) :
    s.db ∈ s.log.drop search.since := by
  have hsince := h.since id search hsearch
  refine List.mem_of_getLast? (?_ : (s.log.drop search.since).getLast? = some s.db)
  rw [List.getLast?_drop, if_neg (by omega), h.last]

/-! #### Phases -/

theorem Request.Sound.mono (h : search.Sound U s) (hsubset : s.log.drop search.since ⊆
    t.log.drop search.since) (hsnapshot : t.snapshot = s.snapshot) : search.Sound U t := by
  unfold Request.Sound at h ⊢
  rw [hsnapshot]
  split at h
  · trivial
  · trivial
  · trivial
  · obtain ⟨d, hd, hrevision⟩ := h
    exact ⟨d, hsubset hd, hrevision⟩
  · exact h.mono hsubset
  · intro current hcurrent
    obtain ⟨revision, hindex⟩ := h current hcurrent
    exact ⟨revision, hindex.mono hsubset⟩
  · obtain ⟨revision, hindex⟩ := h
    exact ⟨revision, hindex.mono hsubset⟩
  · trivial

theorem lookup_setPhase (hsearch : s.searches.lookup id = some search) (other : ℕ) :
    (s.setPhase id phase).searches.lookup other =
      if other = id then some { search with phase } else s.searches.lookup other := by
  rw [Service.setPhase, Table.lookup_modify]
  split_ifs with hother
  · rw [hother, hsearch]
    rfl
  · rfl

/-- A search takes a phase that suits what it has read and whether it holds the
lock. -/
theorem Sound.setPhase (h : Sound U s) (hsearch : s.searches.lookup id = some search)
    (hphase : { search with phase }.Sound U s)
    (hlock : (∃ index revision, phase = .loaded index revision) ∨ phase = .holding →
      s.lock = some id) : Sound U (s.setPhase id phase) where
  last := h.last
  texts := h.texts
  ordered := h.ordered
  snapshot := h.snapshot
  since := by
    intro other found hfound
    rw [lookup_setPhase hsearch] at hfound
    split_ifs at hfound with hother
    · cases hfound
      exact h.since id search hsearch
    · exact h.since other found hfound
  searches := by
    intro other found hfound
    rw [lookup_setPhase hsearch] at hfound
    split_ifs at hfound with hother
    · cases hfound
      exact hphase
    · exact h.searches other found hfound
  lock := by
    intro other found index revision hfound hloaded
    rw [lookup_setPhase hsearch] at hfound
    split_ifs at hfound with hother
    · cases hfound
      exact hother ▸ hlock (Or.inl ⟨index, revision, hloaded⟩)
    · exact h.lock other found index revision hfound hloaded
  holding := by
    intro other found hfound hholding
    rw [lookup_setPhase hsearch] at hfound
    split_ifs at hfound with hother
    · cases hfound
      exact hother ▸ hlock (Or.inr hholding)
    · exact h.holding other found hfound hholding

/-- A search that needs the lock no more releases it. -/
theorem Sound.release (h : Sound U s)
    (hfree : ∀ search, s.searches.lookup id = some search → search.phase ≠ .holding ∧
      ∀ index revision, search.phase ≠ .loaded index revision) : Sound U (s.release id) where
  last := h.last
  texts := h.texts
  ordered := h.ordered
  snapshot := h.snapshot
  since := h.since
  searches := h.searches
  lock := by
    intro other found index revision hfound hloaded
    have hheld := h.lock other found index revision hfound hloaded
    have hother : other ≠ id := by
      rintro rfl
      exact (hfree found hfound).2 index revision hloaded
    rw [Service.release, if_neg (by rw [hheld]; simpa using hother)]
    exact hheld
  holding := by
    intro other found hfound hholding
    have hheld := h.holding other found hfound hholding
    have hother : other ≠ id := by
      rintro rfl
      exact (hfree found hfound).1 hholding
    rw [Service.release, if_neg (by rw [hheld]; simpa using hother)]
    exact hheld

/-- A search is answered. -/
theorem Sound.answer (h : Sound U s) (hsearch : s.searches.lookup id = some search)
    {result : Except IndexError Index}
    (hresult : { search with phase := .answered result }.Sound U s) :
    Sound U (s.setPhase id (.answered result)) := by
  refine h.setPhase hsearch hresult ?_
  rintro (⟨index, revision, hphase⟩ | hphase) <;> cases hphase

theorem Sound.answerAndRelease (h : Sound U s) (hsearch : s.searches.lookup id = some search)
    {result : Except IndexError Index}
    (hresult : { search with phase := .answered result }.Sound U s) :
    Sound U ((s.setPhase id (.answered result)).release id) := by
  refine (h.answer hsearch hresult).release fun found hfound => ?_
  rw [lookup_setPhase hsearch, if_pos rfl] at hfound
  cases hfound
  exact ⟨by simp, by simp⟩

/-! #### Steps -/

theorem Sound.write (h : Sound U s) {db : Database} {statements : List Statement}
    (hcommit : s.db.commit U statements = .ok db) :
    Sound U { s with db, log := s.log ++ [db] } := by
  have hmem : s.db ∈ s.log := List.mem_of_getLast? h.last
  obtain ⟨htexts, hadvances⟩ := commit_keeps (h.texts s.db hmem) hcommit
  have hlast : ∀ d ∈ s.log, Advances d s.db := by
    intro d hd
    obtain ⟨before, hbefore⟩ := List.getLast?_eq_some_iff.mp h.last
    have hordered := h.ordered
    rw [hbefore] at hd hordered
    rcases List.mem_append.mp hd with hd | hd
    · exact (List.pairwise_append.mp hordered).2.2 d hd s.db List.mem_cons_self
    · rw [List.mem_singleton.mp hd]
      exact refl s.db
  have hgrows : s.log ⊆ s.log ++ [db] := List.subset_append_left _ _
  constructor
  case last => exact List.getLast?_concat
  case texts =>
    intro d hd
    rcases List.mem_append.mp hd with hd | hd
    · exact h.texts d hd
    · rw [List.mem_singleton.mp hd]
      exact htexts
  case ordered =>
    refine List.pairwise_append.mpr ⟨h.ordered, List.pairwise_singleton _ _, fun d hd d' hd' => ?_⟩
    rw [List.mem_singleton.mp hd']
    exact trans_of Advances (hlast d hd) hadvances
  case snapshot =>
    intro current hcurrent
    exact (h.snapshot current hcurrent).mono hgrows
  case since =>
    intro id search hsearch
    exact (h.since id search hsearch).trans_le (by simp)
  case searches =>
    intro id search hsearch
    refine (h.searches id search hsearch).mono ?_ rfl
    show s.log.drop search.since ⊆ (s.log ++ [db]).drop search.since
    rw [List.drop_append_of_le_length (h.since id search hsearch).le]
    exact List.subset_append_left _ _
  case lock => exact h.lock
  case holding => exact h.holding

theorem Sound.begin (h : Sound U s) (userId : String) :
    Sound U { s with searches := s.searches.insert id ⟨userId, s.log.length - 1, .started⟩ } := by
  have hpos : 0 < s.log.length := List.length_pos_of_mem (List.mem_of_getLast? h.last)
  constructor
  case last => exact h.last
  case texts => exact h.texts
  case ordered => exact h.ordered
  case snapshot => exact h.snapshot
  case since =>
    intro other found hfound
    rw [Table.lookup_insert_eq] at hfound
    split_ifs at hfound
    · cases hfound
      exact Nat.sub_lt hpos Nat.one_pos
    · exact h.since other found hfound
  case searches =>
    intro other found hfound
    rw [Table.lookup_insert_eq] at hfound
    split_ifs at hfound
    · cases hfound
      trivial
    · exact (h.searches other found hfound).mono (List.Subset.refl _) rfl
  case lock =>
    intro other found index revision hfound hloaded
    rw [Table.lookup_insert_eq] at hfound
    split_ifs at hfound
    · cases hfound
      cases hloaded
    · exact h.lock other found index revision hfound hloaded
  case holding =>
    intro other found hfound hholding
    rw [Table.lookup_insert_eq] at hfound
    split_ifs at hfound
    · cases hfound
      cases hholding
    · exact h.holding other found hfound hholding

theorem Sound.cancel (h : Sound U s) :
    Sound U { s.release id with searches := s.searches.erase id } := by
  have hkept : ∀ other search, AList.lookup other (s.searches.erase id) = some search →
      other ≠ id ∧ s.searches.lookup other = some search := by
    intro other search hfound
    rw [Table.lookup_erase_eq] at hfound
    split_ifs at hfound with hother
    exact ⟨hother, hfound⟩
  have hlock : ∀ other, other ≠ id → s.lock = some other → (s.release id).lock = some other := by
    intro other hother hheld
    rw [Service.release, if_neg (by rw [hheld]; simpa using hother)]
    exact hheld
  constructor
  case last => exact h.last
  case texts => exact h.texts
  case ordered => exact h.ordered
  case snapshot => exact h.snapshot
  case since => exact fun other found hfound => h.since other found (hkept other found hfound).2
  case searches =>
    intro other found hfound
    exact (h.searches other found (hkept other found hfound).2).mono (List.Subset.refl _) rfl
  case lock =>
    intro other found index revision hfound hloaded
    obtain ⟨hother, hfound⟩ := hkept other found hfound
    exact hlock other hother (h.lock other found index revision hfound hloaded)
  case holding =>
    intro other found hfound hholding
    obtain ⟨hother, hfound⟩ := hkept other found hfound
    exact hlock other hother (h.holding other found hfound hholding)

/-- The search that holds the lock caches what it has read. -/
theorem Sound.cache (h : Sound U s) {snapshot : Snapshot}
    (hunread : ∀ id search revision, s.searches.lookup id = some search →
      search.phase ≠ .loaded none revision)
    (hindex : IndexOf U s.log snapshot.userId snapshot.index snapshot.revision) :
    Sound U { s with snapshot := some snapshot } := by
  constructor
  case last => exact h.last
  case texts => exact h.texts
  case ordered => exact h.ordered
  case snapshot =>
    rintro current ⟨⟩
    exact hindex
  case since => exact h.since
  case searches =>
    intro id search hsearch
    have hsound := h.searches id search hsearch
    unfold Request.Sound at hsound ⊢
    split at hsound
    case h_6 revision hphase => exact absurd hphase (hunread id search revision hsearch)
    all_goals exact hsound
  case lock => exact h.lock
  case holding => exact h.holding

theorem Sound.step {e : Step} (h : Sound U s) (hstep : s.perform U e = some t) : Sound U t := by
  cases e with
  | write statements =>
    rw [Service.perform] at hstep
    cases hcommit : s.db.commit U statements with
    | error e => simp [hcommit] at hstep
    | ok db =>
      simp only [hcommit] at hstep
      cases hstep
      exact h.write hcommit
  | search id userId =>
    rw [Service.perform] at hstep
    split_ifs at hstep
    cases hstep
    exact h.begin userId
  | currentRevision id =>
    obtain ⟨search, hsearch, hstep⟩ := Option.bind_eq_some_iff.mp hstep
    have hmem : s.db ∈ s.log.drop search.since := h.db_mem hsearch
    cases hphase : search.phase with
    | started =>
      simp only [hphase] at hstep
      cases hstep
      refine h.setPhase hsearch ⟨s.db, hmem, rfl⟩ ?_
      rintro (⟨index, revision, hphase⟩ | hphase) <;> cases hphase
    | _ => simp [hphase] at hstep
  | compare id =>
    obtain ⟨search, hsearch, hstep⟩ := Option.bind_eq_some_iff.mp hstep
    cases hphase : search.phase with
    | read revision =>
      have hstale : Sound U (s.setPhase id .stale) := by
        refine h.setPhase hsearch trivial ?_
        rintro (⟨index, revision, hphase⟩ | hphase) <;> cases hphase
      cases hlock : s.lock with
      | some other => simp [hphase, hlock] at hstep
      | none =>
        cases hcurrent : s.snapshot with
        | none =>
          simp only [hphase, hlock, hcurrent] at hstep
          exact Option.some.inj hstep ▸ hstale
        | some current =>
          simp only [hphase, hlock, hcurrent] at hstep
          split_ifs at hstep with haccepts
          · cases hstep
            obtain ⟨hrevision, huser⟩ := Snapshot.accepts_iff.mp haccepts
            have hread : ∃ d ∈ s.log.drop search.since, d.revision = revision := by
              simpa only [Request.Sound, hphase] using h.searches id search hsearch
            refine h.answer hsearch ⟨current.revision, huser ▸ ?_⟩
            exact h.cached hcurrent (List.drop_subset _ _) (hrevision ▸ hread)
          · exact Option.some.inj hstep ▸ hstale
    | _ => simp [hphase] at hstep
  | acquire id =>
    obtain ⟨search, hsearch, hstep⟩ := Option.bind_eq_some_iff.mp hstep
    cases hphase : search.phase with
    | stale =>
      cases hlock : s.lock with
      | some other => simp [hphase, hlock] at hstep
      | none =>
        simp only [hphase, hlock] at hstep
        cases hstep
        have hlocked : Sound U { s with lock := some id } := by
          refine ⟨h.last, h.texts, h.ordered, h.snapshot, h.since, h.searches, ?_, ?_⟩
          · intro other found index revision hfound hloaded
            rw [h.lock other found index revision hfound hloaded] at hlock
            cases hlock
          · intro other found hfound hholding
            rw [h.holding other found hfound hholding] at hlock
            cases hlock
        exact hlocked.setPhase hsearch trivial fun _ => rfl
    | _ => simp [hphase] at hstep
  | load id =>
    obtain ⟨search, hsearch, hstep⟩ := Option.bind_eq_some_iff.mp hstep
    have hmem : s.db ∈ s.log.drop search.since := h.db_mem hsearch
    cases hphase : search.phase with
    | holding =>
      have hheld := h.holding id search hsearch hphase
      cases hload : Repository.load U s.db search.userId (s.reuses search.userId) with
      | error e =>
        simp only [hphase, hload] at hstep
        cases hstep
        exact h.answerAndRelease hsearch trivial
      | ok result =>
        obtain ⟨index, revision⟩ := result
        simp only [hphase, hload] at hstep
        cases hstep
        refine h.setPhase hsearch ?_ fun _ => hheld
        cases index with
        | some index => exact ⟨s.db, hmem, load_fresh hload⟩
        | none =>
          intro current hcurrent
          have hreuse := load_reused hload
          rw [Service.reuses, hcurrent, Option.any_some] at hreuse
          obtain ⟨hrevision, huser⟩ := Snapshot.accepts_iff.mp hreuse
          refine ⟨current.revision, huser ▸ ?_⟩
          exact h.cached hcurrent (List.drop_subset _ _) ⟨s.db, hmem, hrevision.symm⟩
    | _ => simp [hphase] at hstep
  | store id =>
    obtain ⟨search, hsearch, hstep⟩ := Option.bind_eq_some_iff.mp hstep
    have hsound := h.searches id search hsearch
    cases hphase : search.phase with
    | loaded index revision =>
      have hheld := h.lock id search index revision hsearch hphase
      cases index with
      | none =>
        simp only [hphase] at hstep
        obtain ⟨current, hcurrent, hstep⟩ := Option.bind_eq_some_iff.mp hstep
        cases hstep
        simp only [Request.Sound, hphase] at hsound
        exact h.answerAndRelease hsearch (hsound current hcurrent)
      | some index =>
        simp only [hphase] at hstep
        cases hstep
        simp only [Request.Sound, hphase] at hsound
        have hanswered : Sound U ((s.setPhase id (.answered (.ok index))).release id) :=
          h.answerAndRelease hsearch ⟨revision, hsound⟩
        refine hanswered.cache ?_ (hsound.mono (List.drop_subset _ _))
        -- Nobody else holds the lock.
        intro other found revision' hfound hloaded
        have hother := hanswered.lock other found none revision' hfound hloaded
        rw [Service.release] at hother
        split_ifs at hother with hreleased
        exact hreleased hheld
    | _ => simp [hphase] at hstep
  | fail id =>
    obtain ⟨search, hsearch, hstep⟩ := Option.bind_eq_some_iff.mp hstep
    cases hphase : search.phase with
    | started | holding =>
      simp only [hphase] at hstep
      cases hstep
      exact h.answerAndRelease hsearch trivial
    | _ => simp [hphase] at hstep
  | cancel id =>
    cases hstep
    exact h.cancel
  | restart =>
    cases hstep
    refine ⟨h.last, h.texts, h.ordered, ?_, ?_, ?_, ?_, ?_⟩
    · rintro current ⟨⟩
    all_goals
      intro id search
      simp [EmptyCollection.emptyCollection, AList.lookup]

theorem Initial.sound (h : Initial U s) : Sound U s := by
  obtain ⟨htexts, hlog, hsnapshot, -, hsearches⟩ := h
  have hnone : ∀ id, s.searches.lookup id = none := by
    intro id
    rw [hsearches]
    rfl
  constructor
  case last => rw [hlog]; rfl
  case texts =>
    intro d hd
    rw [hlog, List.mem_singleton] at hd
    exact hd ▸ htexts
  case ordered => rw [hlog]; exact List.pairwise_singleton _ _
  case snapshot =>
    intro current hcurrent
    rw [hsnapshot] at hcurrent
    cases hcurrent
  all_goals
    intro id search
    simp [hnone id]

theorem Reachable.sound (h : Reachable U s) : Sound U s :=
  Transition.Reachable.invariant (fun _ hinitial => hinitial.sound)
    (fun _ _ _ hs hstep => hs.step hstep) h

end Sound

/-- However searches and writes interleave, the index a search answers from is the
one that a fresh load builds from some database committed no earlier than the
search began, and the texts of every committed database are those of its
entities, one each. -/
theorem search_never_stale {U : Unicode} {s : Service} (h : Reachable U s) :
    (∀ id search index, s.searches.lookup id = some search →
      search.phase = .answered (.ok index) →
      ∃ d ∈ s.log.drop search.since, Repository.load U d search.userId (fun _ => false) =
        .ok (some index, d.revision)) ∧
    s.log.getLast? = some s.db ∧
    ∀ d ∈ s.log, ∀ kind id,
      d.texts.lookup (kind, id) = (d.nameOf kind id).map fun name =>
        ⟨prepareStored U name kind, rulesVersion⟩ := by
  have hsound := h.sound
  refine ⟨?_, hsound.last, hsound.texts⟩
  intro id search index hsearch hanswered
  have hindex := hsound.searches id search hsearch
  simp only [Request.Sound, hanswered] at hindex
  obtain ⟨revision, d, hd, hload⟩ := hindex
  refine ⟨d, hd, ?_⟩
  rw [load_revision hload]
  exact hload

/-- Tables of letters only, for the example. -/
def plainLetters : Unicode where
  defaultCaseFold value := value
  nfc value := value
  nfd value := value
  generalCategory _ := .lowercaseLetter

/-- An Artist, an Album and a Track, whose name a search reads, and a second
search that the rename of the Track overtakes between its two reads. -/
def searchEvents : List Step :=
  [.write [.insertName .artists "ar" ⟨"a", ""⟩, .insertName .albums "al" ⟨"b", ""⟩,
      .insertTrack "t" ⟨"c", "al", none, false, ""⟩, .insertCredit .trackArtists ("t", "ar") 0],
    .search 0 "user", .currentRevision 0, .compare 0, .acquire 0, .load 0, .store 0,
    .search 1 "user", .currentRevision 1,
    .write [.updateTrack "t" ⟨none, some "d", none, none, none, none⟩],
    .compare 1,
    .search 2 "user", .currentRevision 2, .compare 2, .acquire 2, .load 2, .store 2]

def emptyService : Service :=
  let db : Database := ⟨∅, fun _ => ∅, ∅, fun _ => ∅, ∅, 0⟩
  ⟨db, [db], none, none, ∅⟩

/-- The names a search found. -/
def Service.found (s : Service) (id : ℕ) : Option (List String) :=
  match s.searches.lookup id with
  | some ⟨_, _, .answered (.ok index)⟩ =>
    some (index.entities.map fun entity => entity.primary.text.original)
  | _ => none

def searchedService : Option Service :=
    searchEvents.foldlM (Service.perform plainLetters) emptyService

theorem searched_never_stale :
    ∃ s, searchedService = some s ∧ s.found 1 = some ["b", "a", "c"] ∧
      s.found 2 = some ["b", "a", "d"] ∧
      (∀ id search index, s.searches.lookup id = some search →
        search.phase = .answered (.ok index) →
        ∃ d ∈ s.log.drop search.since,
          Repository.load plainLetters d search.userId (fun _ => false) =
            .ok (some index, d.revision)) ∧
      s.log.getLast? = some s.db ∧
      ∀ d ∈ s.log, ∀ kind id,
        d.texts.lookup (kind, id) = (d.nameOf kind id).map fun name =>
          ⟨prepareStored plainLetters name kind, rulesVersion⟩ := by
  have hfound : searchedService.map (fun s => (s.found 1, s.found 2)) =
      some (some ["b", "a", "c"], some ["b", "a", "d"]) := by decide +kernel
  cases hrun : searchedService with
  | none => simp [hrun] at hfound
  | some s =>
    rw [hrun] at hfound
    obtain ⟨hfirst, hsecond⟩ := Prod.mk.inj (Option.some.inj hfound)
    have hinitial : Initial plainLetters emptyService := by
      refine ⟨?_, rfl, rfl, rfl, rfl⟩
      intro kind id
      cases kind <;> rfl
    exact ⟨s, rfl, hfirst, hsecond,
      search_never_stale ⟨emptyService, searchEvents, hinitial, .of_option hrun⟩⟩

end Harmony.Search
