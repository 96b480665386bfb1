/-
# A tree of files

Files and directories filed under paths. A path is the list of names from the
root, which is the empty path and always there. What an entry lies in is a
directory; a tree carries that with it.

Operations either fail and change nothing or give the new tree. Their lemmas
speak of `entry`, the tree as a function, where a rename is `moved`.
Directories come and go without touching a file: `Grows` and `Shrinks`.
-/

import Mathlib.Data.List.Infix
import Harmony.Library.Table

/-- What a file operation reports. -/
inductive IoError
  | notFound
  | alreadyExists
  | notADirectory
  | isADirectory
  | directoryNotEmpty

inductive Entry (β : Type)
  | file (content : β)
  | directory

structure FileTree (κ β : Type) [DecidableEq κ] where
  entries : Table (List κ) (Entry β)
  /-- Every entry lies in a directory. -/
  rooted : ∀ path entry, entries.lookup path = some entry →
    path ≠ [] ∧ (path.dropLast = [] ∨ entries.lookup path.dropLast = some .directory)

namespace FileTree

variable {κ β : Type} [DecidableEq κ] {path : List κ} {t : FileTree κ β}

/-! ### Looking -/

def entry (t : FileTree κ β) (path : List κ) : Option (Entry β) := t.entries.lookup path

/-- The content of a file. -/
def file (t : FileTree κ β) (path : List κ) : Option β :=
  match t.entry path with
  | some (.file content) => some content
  | _ => none

def isDirectory (t : FileTree κ β) (path : List κ) : Bool :=
  match path, t.entry path with
  | [], _ => true
  | _, some .directory => true
  | _, _ => false

def empty : FileTree κ β := ⟨∅, by simp⟩

theorem isDirectory_iff :
    t.isDirectory path = true ↔ path = [] ∨ t.entry path = some .directory := by
  cases path with
  | nil => simp [isDirectory]
  | cons name names =>
    cases h : t.entry (name :: names) with
    | none => simp [isDirectory, h]
    | some e => cases e <;> simp [isDirectory, h]

/-- What an entry lies in is a directory. -/
theorem isDirectory_parent {e : Entry β} (h : t.entry path = some e) :
    t.isDirectory path.dropLast = true :=
  isDirectory_iff.mpr (t.rooted path e h).2

theorem file_eq_some {content : β} :
    t.file path = some content ↔ t.entry path = some (.file content) := by
  unfold file
  cases h : t.entry path with
  | none => simp
  | some e => cases e <;> simp

theorem file_congr {t u : FileTree κ β} (h : u.entry path = t.entry path) :
    u.file path = t.file path := by
  simp only [file, h]

/-! ### Single entries -/

/-- Puts a file under a path, in the place of a file that is there. -/
def hold (t : FileTree κ β) (path : List κ) (content : β) : Except IoError (FileTree κ β) :=
  if hparent : t.isDirectory path.dropLast = true then
    if hpath : t.isDirectory path = true then .error .isADirectory
    else .ok {
      entries := t.entries.insert path (.file content)
      rooted := by
        intro p e hp
        rw [isDirectory_iff, not_or] at hpath
        rw [isDirectory_iff] at hparent
        rw [Table.lookup_insert_eq] at hp ⊢
        split_ifs at hp with heq
        · subst heq
          refine ⟨hpath.1, hparent.imp_right fun h => ?_⟩
          split_ifs with hself
          · exact absurd (hself ▸ h) hpath.2
          · exact h
        · obtain ⟨hne, hin⟩ := t.rooted p e hp
          refine ⟨hne, hin.imp_right fun h => ?_⟩
          split_ifs with hself
          · exact absurd (hself ▸ h) hpath.2
          · exact h }
  else .error .notFound

/-- Removes a file. -/
def discard (t : FileTree κ β) (path : List κ) : Except IoError (FileTree κ β) :=
  match hentry : t.entry path with
  | none => .error .notFound
  | some .directory => .error .isADirectory
  | some (.file content) => .ok {
      entries := t.entries.erase path
      rooted := by
        intro p e hp
        rw [Table.lookup_erase_eq] at hp ⊢
        split_ifs at hp with heq
        obtain ⟨hne, hin⟩ := t.rooted p e hp
        refine ⟨hne, hin.imp_right fun h => ?_⟩
        split_ifs with hself
        · rw [hself] at h
          exact absurd (hentry.symm.trans h) (by simp)
        · exact h }

/-- Moves a file, in the place of a file that is there. Only files are moved. -/
def rename (t : FileTree κ β) (source target : List κ) : Except IoError (FileTree κ β) :=
  match t.entry source with
  | none => .error .notFound
  | some .directory => .error .isADirectory
  | some (.file content) => (t.discard source).bind fun t => t.hold target content

/-- Makes a file where nothing is. -/
def createNew (t : FileTree κ β) (path : List κ) (content : β) : Except IoError (FileTree κ β) :=
  match t.entry path with
  | some _ => .error .alreadyExists
  | none => t.hold path content

/-- Gives a file another content. -/
def write (t : FileTree κ β) (path : List κ) (content : β) : Except IoError (FileTree κ β) :=
  match t.entry path with
  | none => .error .notFound
  | some _ => t.hold path content

/-- A tree as a function, after a rename. -/
def moved {γ : Type} (e : List κ → Option γ) (source target : List κ) : List κ → Option γ :=
  Function.update (Function.update e source none) target (e source)

section Entries

variable {t t' : FileTree κ β} {path source target : List κ} {content : β}

theorem hold_eq_ok (h : t.hold path content = .ok t') :
    t'.entry = Function.update t.entry path (some (.file content)) := by
  unfold hold at h
  split_ifs at h
  cases h
  funext p
  simp [entry, Table.lookup_insert_eq, Function.update_apply]

theorem hold_isOk (hparent : t.isDirectory path.dropLast = true)
    (hpath : t.isDirectory path = false) : ∃ t', t.hold path content = .ok t' := by
  unfold hold
  simp [hparent, hpath]

theorem discard_eq_ok (h : t.discard path = .ok t') :
    (∃ content, t.entry path = some (.file content)) ∧
      t'.entry = Function.update t.entry path none := by
  unfold discard at h
  split at h
  · cases h
  · cases h
  · next content hentry =>
    cases h
    refine ⟨⟨content, hentry⟩, ?_⟩
    funext p
    simp [entry, Table.lookup_erase_eq, Function.update_apply]

theorem discard_isOk (h : t.entry path = some (.file content)) : ∃ t', t.discard path = .ok t' := by
  unfold discard
  split
  · next hnone => simp [h] at hnone
  · next hdirectory => simp [h] at hdirectory
  · exact ⟨_, rfl⟩

theorem discard_of_none (h : t.entry path = none) : t.discard path = .error .notFound := by
  unfold discard
  split
  · rfl
  · next hdirectory => simp [h] at hdirectory
  · next hfile => simp [h] at hfile

theorem rename_eq_ok (h : t.rename source target = .ok t') :
    (∃ content, t.entry source = some (.file content)) ∧ t.entry target ≠ some .directory ∧
      t'.entry = moved t.entry source target := by
  unfold rename at h
  split at h
  · cases h
  · cases h
  · next content hsource =>
    cases hdiscard : t.discard source with
    | error e =>
      rw [hdiscard] at h
      cases h
    | ok u =>
      rw [hdiscard] at h
      have hu := (discard_eq_ok hdiscard).2
      have ht := hold_eq_ok h
      refine ⟨⟨content, hsource⟩, ?_, ?_⟩
      · intro hdirectory
        have hne : target ≠ source := by
          rintro rfl
          simp [hsource] at hdirectory
        have hheld : u.isDirectory target = true :=
          isDirectory_iff.mpr (.inr (by rw [hu, Function.update_of_ne hne, hdirectory]))
        simp only [Except.bind, hold, hheld, dite_true] at h
        split_ifs at h
      · rw [ht, hu, moved, hsource]

theorem rename_isOk (hsource : t.entry source = some (.file content))
    (hparent : t.isDirectory target.dropLast = true) (htarget : t.isDirectory target = false) :
    ∃ t', t.rename source target = .ok t' := by
  obtain ⟨u, hu⟩ := discard_isOk hsource
  have hentry := (discard_eq_ok hu).2
  have hdirectory : ∀ p, u.isDirectory p = t.isDirectory p := by
    intro p
    rw [Bool.eq_iff_iff, isDirectory_iff, isDirectory_iff, hentry, Function.update_apply]
    split_ifs with heq
    · simp [heq, hsource]
    · rfl
  obtain ⟨t', ht'⟩ : ∃ t', u.hold target content = .ok t' :=
    hold_isOk ((hdirectory _).trans hparent) ((hdirectory _).trans htarget)
  exact ⟨t', by simp [rename, hsource, hu, Except.bind, ht']⟩

/-- A file can be moved to a free name beside it. -/
theorem rename_sibling (hsource : t.entry source = some (.file content))
    (hparent : target.dropLast = source.dropLast) (htarget : t.entry target = none)
    (hne : target ≠ []) :
    ∃ t', t.rename source target = .ok t' ∧ t'.entry = moved t.entry source target := by
  have hnot : t.isDirectory target = false := by
    rw [Bool.eq_false_iff, Ne, isDirectory_iff]
    simp [hne, htarget]
  obtain ⟨t', ht'⟩ := rename_isOk hsource (hparent ▸ isDirectory_parent hsource) hnot
  exact ⟨t', ht', (rename_eq_ok ht').2.2⟩

theorem createNew_eq_ok (h : t.createNew path content = .ok t') :
    t.entry path = none ∧ t'.entry = Function.update t.entry path (some (.file content)) := by
  unfold createNew at h
  split at h
  · cases h
  · next hnone => exact ⟨hnone, hold_eq_ok h⟩

theorem createNew_alreadyExists (h : t.createNew path content = .error .alreadyExists) :
    t.entry path ≠ none := by
  unfold createNew at h
  split at h
  · next hsome => simp [hsome]
  · unfold hold at h
    split_ifs at h
    · cases h
    · cases h

theorem createNew_isOk (hnone : t.entry path = none)
    (hparent : t.isDirectory path.dropLast = true) (hpath : path ≠ []) :
    ∃ t', t.createNew path content = .ok t' := by
  have hnot : t.isDirectory path = false := by
    rw [Bool.eq_false_iff, Ne, isDirectory_iff]
    simp [hpath, hnone]
  obtain ⟨t', ht'⟩ : ∃ t', t.hold path content = .ok t' := hold_isOk hparent hnot
  exact ⟨t', by simp [createNew, hnone, ht']⟩

theorem write_eq_ok (h : t.write path content = .ok t') :
    t'.entry = Function.update t.entry path (some (.file content)) := by
  unfold write at h
  split at h
  · cases h
  · exact hold_eq_ok h

end Entries

/-! ### Moves -/

section Moves

variable {γ : Type} {e : List κ → Option γ} {a b c d p : List κ}

theorem moved_target (e : List κ → Option γ) (a b : List κ) : moved e a b b = e a := by
  simp [moved]

theorem moved_source (h : a ≠ b) : moved e a b a = none := by
  simp [moved, h]

theorem moved_of_ne (ha : p ≠ a) (hb : p ≠ b) : moved e a b p = e p := by
  simp [moved, ha, hb]

/-- A move to a free path is undone by moving back. -/
theorem moved_back (hfree : e b = none) : moved (moved e a b) b a = e := by
  funext p
  unfold moved
  simp only [Function.update_apply]
  grind

/-- Moves between different paths can be made in any order. -/
theorem moved_comm (hac : a ≠ c) (had : a ≠ d) (hbc : b ≠ c) (hbd : b ≠ d) :
    moved (moved e a b) c d = moved (moved e c d) a b := by
  funext p
  unfold moved
  simp only [Function.update_apply]
  grind

theorem moved_update {v : Option γ} (ha : p ≠ a) (hb : p ≠ b) :
    moved (Function.update e p v) a b = Function.update (moved e a b) p v := by
  funext q
  unfold moved
  simp only [Function.update_apply]
  grind

end Moves

/-! ### Directories -/

/-- Makes a directory where nothing is. -/
def makeDirectory (t : FileTree κ β) (path : List κ) : Except IoError (FileTree κ β) :=
  if hpath : path ≠ [] ∧ t.entry path = none then
    if hparent : t.isDirectory path.dropLast = true then .ok {
      entries := t.entries.insert path .directory
      rooted := by
        intro p e hp
        rw [isDirectory_iff] at hparent
        rw [Table.lookup_insert_eq] at hp ⊢
        split_ifs at hp with heq
        · subst heq
          refine ⟨hpath.1, hparent.imp_right fun h => ?_⟩
          split_ifs with hself
          · rfl
          · exact h
        · obtain ⟨hne, hin⟩ := t.rooted p e hp
          refine ⟨hne, hin.imp_right fun h => ?_⟩
          split_ifs with hself
          · rfl
          · exact h }
    else .error .notFound
  else .error .alreadyExists

/-- Has a directory under the path, which is made when nothing is there. -/
def ensureDirectory (t : FileTree κ β) (path : List κ) : Except IoError (FileTree κ β) :=
  match t.entry path with
  | some .directory => .ok t
  | some (.file _) => .error .notADirectory
  | none => t.makeDirectory path

/-- The directories from one on the way down. -/
def stepsFrom (above : List κ) : List κ → List (List κ)
  | [] => []
  | name :: names => (above ++ [name]) :: stepsFrom (above ++ [name]) names

/-- The directories on the way to a path, and the path itself. -/
def steps (path : List κ) : List (List κ) := stepsFrom [] path

/-- Makes every missing directory of a path, from the top. -/
def makeDirectories (t : FileTree κ β) (path : List κ) : Except IoError (FileTree κ β) :=
  (steps path).foldlM ensureDirectory t

/-- What is made of a path when only its first directories are reached. -/
def makeSomeDirectories (t : FileTree κ β) (path : List κ) (n : ℕ) : FileTree κ β :=
  ((steps path).take n).foldl (fun t p => (t.ensureDirectory p).toOption.getD t) t

def isEmptyDirectory (t : FileTree κ β) (path : List κ) : Bool :=
  !t.entries.any fun p _ => p.dropLast = path

/-- Removes a directory that holds nothing. -/
def removeDirectory (t : FileTree κ β) (path : List κ) : Except IoError (FileTree κ β) :=
  match hentry : t.entry path with
  | none => .error .notFound
  | some (.file _) => .error .notADirectory
  | some .directory =>
    if hempty : t.isEmptyDirectory path = true then .ok {
      entries := t.entries.erase path
      rooted := by
        intro p e hp
        rw [Table.lookup_erase_eq] at hp ⊢
        split_ifs at hp with heq
        obtain ⟨hne, hin⟩ := t.rooted p e hp
        refine ⟨hne, hin.imp_right fun h => ?_⟩
        split_ifs with hself
        · simp only [isEmptyDirectory, Bool.not_eq_true', Table.any_eq_false] at hempty
          exact absurd hself (by simpa using hempty p e hp)
        · exact h }
    else .error .directoryNotEmpty

/-- Removes directories from a path upwards while they are empty, through at most
`n` of them, and not at `boundary` or above. -/
def pruneSome (boundary : List κ) : ℕ → FileTree κ β → List κ → Except IoError (FileTree κ β)
  | 0, t, _ => .ok t
  | n + 1, t, path =>
    if path = [] ∨ path = boundary then .ok t
    else match t.entry path with
      | none => pruneSome boundary n t path.dropLast
      | some (.file _) => .error .notADirectory
      | some .directory =>
        if t.isEmptyDirectory path then
          (t.removeDirectory path).bind fun t => pruneSome boundary n t path.dropLast
        else .ok t

/-- Removes every empty directory from a path upwards, down to `boundary`. -/
def prune (t : FileTree κ β) (boundary path : List κ) : Except IoError (FileTree κ β) :=
  pruneSome boundary path.length t path

/-- Directories were added on the way to a path, and nothing else changed. -/
def Grows (path : List κ) (t t' : FileTree κ β) : Prop :=
  ∀ p, t'.entry p = t.entry p ∨
    t.entry p = none ∧ t'.entry p = some .directory ∧ p ≠ [] ∧ p <+: path

/-- Directories were removed, and nothing else changed. -/
def Shrinks (t t' : FileTree κ β) : Prop :=
  ∀ p, t'.entry p = t.entry p ∨ t.entry p = some .directory ∧ t'.entry p = none

section Directories

variable {t t' u : FileTree κ β} {path p boundary : List κ}

theorem Grows.refl (path : List κ) (t : FileTree κ β) : Grows path t t := fun _ => .inl rfl

theorem Grows.trans (h : Grows path t t') (h' : Grows path t' u) : Grows path t u := by
  intro p
  rcases h p with heq | ⟨hnone, hdir, hp⟩ <;> rcases h' p with heq' | ⟨hnone', hdir', hp'⟩
  · exact .inl (heq'.trans heq)
  · exact .inr ⟨heq ▸ hnone', hdir', hp'⟩
  · exact .inr ⟨hnone, heq'.trans hdir, hp⟩
  · simp [hdir] at hnone'

/-- What is not on the way stays. -/
theorem Grows.entry_of_not_prefix (h : Grows path t t') (hp : ¬p <+: path) :
    t'.entry p = t.entry p :=
  (h p).resolve_right fun hnew => hp hnew.2.2.2

theorem Grows.entry_of_some {e : Entry β} (h : Grows path t t') (hp : t.entry p = some e) :
    t'.entry p = some e := by
  rcases h p with heq | hnew
  · exact heq.trans hp
  · simp [hnew.1] at hp

theorem Grows.file (h : Grows path t t') : t'.file = t.file := by
  funext p
  rcases h p with heq | hnew
  · exact file_congr heq
  · simp [FileTree.file, hnew.1, hnew.2.1]

theorem Shrinks.refl (t : FileTree κ β) : Shrinks t t := fun _ => .inl rfl

theorem Shrinks.trans (h : Shrinks t t') (h' : Shrinks t' u) : Shrinks t u := by
  intro p
  rcases h p with heq | ⟨hdir, hnone⟩ <;> rcases h' p with heq' | ⟨hdir', hnone'⟩
  · exact .inl (heq'.trans heq)
  · exact .inr ⟨heq ▸ hdir', hnone'⟩
  · exact .inr ⟨hdir, heq'.trans hnone⟩
  · simp [hnone] at hdir'

theorem Shrinks.file (h : Shrinks t t') : t'.file = t.file := by
  funext p
  rcases h p with heq | hgone
  · exact file_congr heq
  · simp [FileTree.file, hgone.1, hgone.2]

theorem makeDirectory_eq_ok (h : t.makeDirectory p = .ok t') :
    p ≠ [] ∧ t.entry p = none ∧ t'.entry = Function.update t.entry p (some .directory) := by
  unfold makeDirectory at h
  split_ifs at h with hpath
  cases h
  refine ⟨hpath.1, hpath.2, ?_⟩
  funext q
  simp [entry, Table.lookup_insert_eq, Function.update_apply]

theorem ensureDirectory_grows (hp : p <+: path) (h : t.ensureDirectory p = .ok t') :
    Grows path t t' := by
  unfold ensureDirectory at h
  split at h
  · cases h
    exact .refl path t
  · cases h
  · obtain ⟨hne, hnone, hentry⟩ := makeDirectory_eq_ok h
    intro q
    rw [hentry, Function.update_apply]
    split_ifs with heq
    · exact .inr ⟨heq ▸ hnone, rfl, heq ▸ hne, heq ▸ hp⟩
    · exact .inl rfl

theorem ensureDirectory_isDirectory (h : t.ensureDirectory p = .ok t') :
    t'.entry p = some .directory := by
  unfold ensureDirectory at h
  split at h
  · next hdir =>
    cases h
    exact hdir
  · cases h
  · rw [(makeDirectory_eq_ok h).2.2, Function.update_self]

omit [DecidableEq κ] in
theorem prefix_of_mem_steps (h : p ∈ steps path) : p <+: path := by
  have hall : ∀ names above : List κ, p ∈ stepsFrom above names → p <+: above ++ names := by
    intro names
    induction names with
    | nil => intro above h; simp [stepsFrom] at h
    | cons name names ih =>
      intro above h
      rcases List.mem_cons.mp h with rfl | h
      · simp
      · simpa using ih (above ++ [name]) h
  simpa using hall path [] h

theorem makeDirectories_grows (h : t.makeDirectories path = .ok t') : Grows path t t' := by
  have hall : ∀ ps : List (List κ), (∀ p ∈ ps, p <+: path) → ∀ t,
    ps.foldlM ensureDirectory t = .ok t' →
      Grows path t t' := by
    intro ps
    induction ps with
    | nil =>
      intro _ t h
      obtain rfl := Except.ok.inj h
      exact .refl path t
    | cons p ps ih =>
      intro hps t h
      rw [List.foldlM_cons] at h
      cases hensure : t.ensureDirectory p with
      | error e =>
        rw [hensure] at h
        cases h
      | ok u =>
        rw [hensure] at h
        exact (ensureDirectory_grows (hps p List.mem_cons_self) hensure).trans
          (ih (fun q hq => hps q (List.mem_cons_of_mem p hq)) u h)
  exact hall (steps path) (fun p hp => prefix_of_mem_steps hp) t h

theorem makeSomeDirectories_grows (n : ℕ) : Grows path t (t.makeSomeDirectories path n) := by
  have hall : ∀ ps : List (List κ), (∀ p ∈ ps, p <+: path) → ∀ t : FileTree κ β,
      Grows path t (ps.foldl (fun t p => (t.ensureDirectory p).toOption.getD t) t) := by
    intro ps
    induction ps with
    | nil => exact fun _ t => .refl path t
    | cons p ps ih =>
      intro hps t
      rw [List.foldl_cons]
      have hrest := ih fun q hq => hps q (List.mem_cons_of_mem p hq)
      cases hensure : t.ensureDirectory p with
      | error e => exact hrest t
      | ok u => exact (ensureDirectory_grows (hps p List.mem_cons_self) hensure).trans (hrest u)
  exact hall _ (fun p hp => prefix_of_mem_steps (List.mem_of_mem_take hp)) t

theorem removeDirectory_shrinks (h : t.removeDirectory p = .ok t') : Shrinks t t' := by
  unfold removeDirectory at h
  split at h
  · cases h
  · cases h
  · next hdir =>
    split_ifs at h
    cases h
    intro q
    simp only [entry, Table.lookup_erase_eq]
    split_ifs with heq
    · exact .inr ⟨heq ▸ hdir, rfl⟩
    · exact .inl rfl

theorem pruneSome_shrinks {n : ℕ} (h : pruneSome boundary n t path = .ok t') : Shrinks t t' := by
  induction n generalizing t path with
  | zero =>
    obtain rfl := Except.ok.inj h
    exact .refl t
  | succ n ih =>
    unfold pruneSome at h
    split at h
    · obtain rfl := Except.ok.inj h
      exact .refl t
    · split at h
      · exact ih h
      · cases h
      · split at h
        · cases hremove : t.removeDirectory path with
          | error e =>
            rw [hremove] at h
            cases h
          | ok u =>
            rw [hremove] at h
            exact (removeDirectory_shrinks hremove).trans (ih h)
        · obtain rfl := Except.ok.inj h
          exact .refl t

/-- Nothing stands in the way of a path's directories. -/
def Clear (t : FileTree κ β) (path : List κ) : Prop :=
  ∀ p content, p <+: path → t.entry p ≠ some (.file content)

theorem Clear.congr (h : t.Clear path) (hfile : u.file = t.file) : u.Clear path := by
  intro p content hp hentry
  rw [← file_eq_some, hfile, file_eq_some] at hentry
  exact h p content hp hentry

theorem Clear.parent (h : t.Clear path) : t.Clear path.dropLast :=
  fun p content hp => h p content (hp.trans (List.dropLast_prefix path))

/-- The directories of a clear path can be made. -/
theorem makeDirectories_isOk (h : t.Clear path) :
    ∃ t', t.makeDirectories path = .ok t' ∧ t'.isDirectory path = true := by
  have hall : ∀ (names above : List κ) (t : FileTree κ β), t.Clear (above ++ names) →
      t.isDirectory above = true →
      ∃ t', (stepsFrom above names).foldlM ensureDirectory t = .ok t' ∧
        t'.isDirectory (above ++ names) = true := by
    intro names
    induction names with
    | nil =>
      intro above t _ habove
      exact ⟨t, rfl, by simpa using habove⟩
    | cons name names ih =>
      intro above t hclear habove
      have hpre : above ++ [name] <+: above ++ name :: names := ⟨names, by simp⟩
      have hensure : ∃ u, t.ensureDirectory (above ++ [name]) = .ok u := by
        unfold ensureDirectory
        split
        · exact ⟨t, rfl⟩
        · next content hfile => exact absurd hfile (hclear _ content hpre)
        · next hnone => simp [makeDirectory, hnone, habove]
      obtain ⟨u, hu⟩ := hensure
      have hgrows := ensureDirectory_grows (List.prefix_refl _) hu
      obtain ⟨t', ht', hdir⟩ := ih (above ++ [name]) u
        (by simpa using hclear.congr hgrows.file)
        (isDirectory_iff.mpr (.inr (ensureDirectory_isDirectory hu)))
      refine ⟨t', ?_, by simpa using hdir⟩
      rw [stepsFrom, List.foldlM_cons, hu]
      exact ht'
  simpa [makeDirectories, steps] using hall path [] t (by simpa using h) rfl

theorem pruneSome_isOk {n : ℕ} (h : t.Clear path) : ∃ t', pruneSome boundary n t path = .ok t' := by
  induction n generalizing t path with
  | zero => exact ⟨t, rfl⟩
  | succ n ih =>
    unfold pruneSome
    split
    · exact ⟨t, rfl⟩
    · split
      · exact ih h.parent
      · next content hfile => exact absurd hfile (h path content (List.prefix_refl path))
      · next hdir =>
        split
        · next hempty =>
          have hremove : ∃ u, t.removeDirectory path = .ok u := by
            unfold removeDirectory
            split
            · next hnone => simp [hdir] at hnone
            · next hfile => simp [hdir] at hfile
            · simp [hempty]
          obtain ⟨u, hu⟩ := hremove
          rw [hu]
          exact ih (h.parent.congr (removeDirectory_shrinks hu).file)
        · exact ⟨t, rfl⟩

end Directories

end FileTree
