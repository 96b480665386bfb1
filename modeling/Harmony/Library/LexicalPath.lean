/-
# Paths as texts

A path is a text with separators. Read lexically it names its components one after
another; a dot stays where it is and two dots go back.
-/

import Harmony.Library.Chars

namespace LexicalPath

/-- A component that is a name: it is there, and it leads to where it says. -/
structure IsName (part : List Char) : Prop where
  ne_nil : part ≠ []
  plain : '/' ∉ part
  not_dot : part ≠ ['.']
  not_dots : part ≠ ['.', '.']

/-- The parts between the separators that say something. -/
def components (path : List Char) : List (List Char) :=
  (path.splitOn '/').filter fun part => part ≠ [] ∧ part ≠ ['.']

/-- Where the next component leads. -/
def descend (place : List (List Char)) (part : List Char) : List (List Char) :=
  if part = ['.', '.'] then place.dropLast else place ++ [part]

/-- Where the components lead from the root of all paths. -/
def clean (parts : List (List Char)) : List (List Char) := parts.foldl descend []

/-- The names with separators between them. -/
def text (names : List (List Char)) : List Char := ['/'].intercalate names

/-- A path beside or beneath another one. -/
def join (base path : List Char) : List Char :=
  if path.head? = some '/' then path
  else if base = [] ∨ base.getLast? = some '/' then base ++ path
  else base ++ '/' :: path

section Names

variable {names : List (List Char)}

theorem splitOn_text (hne : names ≠ []) (h : ∀ name ∈ names, IsName name) :
    (text names).splitOn '/' = names :=
  List.splitOn_intercalate '/' (fun name hname => (h name hname).plain) hne

theorem filter_names (h : ∀ name ∈ names, IsName name) :
    (names.filter fun part => part ≠ [] ∧ part ≠ ['.']) = names := by
  rw [List.filter_eq_self]
  intro name hname
  have hvalid := h name hname
  exact decide_eq_true ⟨hvalid.ne_nil, hvalid.not_dot⟩

theorem components_text (hne : names ≠ []) (h : ∀ name ∈ names, IsName name) :
    components (text names) = names := by
  rw [components, splitOn_text hne h, filter_names h]

/-- A separator more at the beginning changes nothing. -/
theorem components_cons (path : List Char) : components ('/' :: path) = components path := by
  rw [components, components, List.splitOn_cons_eq_if_modifyHead, if_pos (beq_self_eq_true _),
    List.filter_cons_of_neg (by simp)]

theorem components_append (first second : List Char) :
    components (first ++ '/' :: second) = components first ++ components second := by
  rw [components, components, components, List.splitOn_append_cons_self, List.filter_append]

/-- Names lead downwards. -/
theorem foldl_descend_names (place : List (List Char)) (h : ∀ name ∈ names, IsName name) :
    names.foldl descend place = place ++ names := by
  induction names generalizing place with
  | nil => exact (List.append_nil _).symm
  | cons name names ih =>
    have hname := h name List.mem_cons_self
    rw [List.foldl_cons, descend, if_neg hname.not_dots,
      ih _ fun other hother => h other (List.mem_cons_of_mem _ hother), List.append_assoc]
    rfl

theorem clean_names (h : ∀ name ∈ names, IsName name) : clean names = names :=
  foldl_descend_names [] h

/-- A clean path has names only, by induction along the path. -/
theorem isName_of_mem_clean (path : List Char) : ∀ name ∈ clean (components path), IsName name := by
  have hparts : ∀ part ∈ components path, part ≠ [] ∧ '/' ∉ part ∧ part ≠ ['.'] := by
    intro part hpart
    obtain ⟨hmem, hkept⟩ := List.mem_filter.mp hpart
    obtain ⟨hne, hdot⟩ := of_decide_eq_true hkept
    exact ⟨hne, fun hslash => absurd (Chars.not_sep_of_mem path part hmem hslash) (by decide), hdot⟩
  have hfold : ∀ (parts place : List (List Char)),
      (∀ part ∈ parts, part ≠ [] ∧ '/' ∉ part ∧ part ≠ ['.']) → (∀ name ∈ place, IsName name) →
      ∀ name ∈ parts.foldl descend place, IsName name := by
    intro parts
    induction parts with
    | nil => exact fun place _ hplace => hplace
    | cons part parts ih =>
      intro place hparts hplace
      rw [List.foldl_cons]
      refine ih _ (fun other hother => hparts other (List.mem_cons_of_mem _ hother)) ?_
      rw [descend]
      by_cases hdots : part = ['.', '.']
      · rw [if_pos hdots]
        exact fun name hname => hplace name (List.mem_of_mem_dropLast hname)
      · rw [if_neg hdots]
        obtain ⟨hne, hplain, hdot⟩ := hparts part List.mem_cons_self
        intro name hname
        rcases List.mem_append.mp hname with hold | hnew
        · exact hplace name hold
        · rw [List.mem_singleton.mp hnew]
          exact ⟨hne, hplain, hdot, hdots⟩
  exact hfold _ [] hparts nofun

theorem components_join (base : List Char) {path : List Char} (h : path.head? ≠ some '/') :
    components (join base path) = components base ++ components path := by
  rw [join, if_neg h]
  by_cases hempty : base = []
  · rw [if_pos (.inl hempty), hempty]
    rfl
  by_cases hlast : base.getLast? = some '/'
  · rw [if_pos (.inr hlast)]
    -- The separator at the end of the base is the one between the two.
    obtain ⟨front, rfl⟩ := List.getLast?_eq_some_iff.mp hlast
    rw [List.append_assoc, List.singleton_append, components_append, components_append]
    congr 1
    exact (List.append_nil _).symm
  · rw [if_neg (not_or.mpr ⟨hempty, hlast⟩), components_append]

theorem head_text_cons (c : Char) (rest : List Char) (others : List (List Char)) :
    (text ((c :: rest) :: others)).head? = some c := by
  cases others with
  | nil => rw [text, List.intercalate_singleton, List.head?_cons]
  | cons other others => rw [text, List.intercalate_cons_cons]; rfl

theorem head_text (hne : names ≠ []) (h : ∀ name ∈ names, IsName name) :
    (text names).head? ≠ some '/' := by
  obtain ⟨name, others, rfl⟩ := List.exists_cons_of_ne_nil hne
  obtain ⟨hname, hplain, -, -⟩ := h name List.mem_cons_self
  obtain ⟨c, rest, rfl⟩ := List.exists_cons_of_ne_nil hname
  rw [head_text_cons]
  rintro ⟨rfl⟩
  exact hplain List.mem_cons_self

/-- What is joined to a base is read off the end of it. -/
theorem join_injective (base : List Char) {path path' : List Char} (h : path.head? ≠ some '/')
    (h' : path'.head? ≠ some '/') (hjoin : join base path = join base path') : path = path' := by
  rw [join, join, if_neg h, if_neg h'] at hjoin
  split_ifs at hjoin
  · exact List.append_cancel_left hjoin
  · exact (List.cons.inj (List.append_cancel_left hjoin)).2

/-- The last name is what follows the last separator. -/
theorem takeWhile_reverse_text {name : List Char} (directory : List (List Char))
    (hname : '/' ∉ name) :
    (text (directory ++ [name])).reverse.takeWhile (· ≠ '/') = name.reverse := by
  have hplain : ∀ c ∈ name.reverse, decide (c ≠ '/') = true := by
    intro c hc
    refine decide_eq_true ?_
    rintro rfl
    exact hname (List.mem_reverse.mp hc)
  obtain ⟨front, htext, hfront⟩ : ∃ front, text (directory ++ [name]) = front ++ name ∧
      (front = [] ∨ ∃ before, front = before ++ ['/']) := by
    induction directory with
    | nil => exact ⟨[], List.intercalate_singleton, .inl rfl⟩
    | cons first directory ih =>
      obtain ⟨front, htext, hfront⟩ := ih
      have hcons : text (first :: directory ++ [name]) =
          first ++ ['/'] ++ text (directory ++ [name]) := by
        cases directory with
        | nil => exact List.intercalate_cons_cons
        | cons next directory => exact List.intercalate_cons_cons
      refine ⟨first ++ ['/'] ++ front, by rw [hcons, htext, ← List.append_assoc], .inr ?_⟩
      rcases hfront with rfl | ⟨before, rfl⟩
      · exact ⟨first, List.append_nil _⟩
      · exact ⟨first ++ ['/'] ++ before, (List.append_assoc _ _ _).symm⟩
  rw [htext, List.reverse_append, List.takeWhile_append_of_pos hplain]
  rcases hfront with rfl | ⟨before, rfl⟩
  · exact List.append_nil _
  · rw [List.reverse_append]
    exact List.append_nil _

theorem last_eq_of_text_eq {name name' : List Char} {directory directory' : List (List Char)}
    (hname : '/' ∉ name) (hname' : '/' ∉ name')
    (h : text (directory ++ [name]) = text (directory' ++ [name'])) : name = name' := by
  have hlast := takeWhile_reverse_text directory hname
  rw [h, takeWhile_reverse_text directory' hname'] at hlast
  exact (List.reverse_injective hlast).symm

end Names

end LexicalPath
