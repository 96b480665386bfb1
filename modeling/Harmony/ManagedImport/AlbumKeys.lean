/-
# Album keys

The key of an Album is its credits and its title with separators between them. What an
inspection accepts holds no control characters, so that the separators are read off a key
again, and the suffix of an edition as well. A library that imports have built therefore
finds the Albums of a file's own credits and title by their keys, and no others.
-/

import Harmony.ManagedImport.AlbumPlans
import Harmony.ManagedImport.CanonicalPaths

namespace Harmony.ManagedImport

open Transaction
open Chars (isControl)

/-! ### What an inspection accepts -/

def isUnsafeIdentityChar (c : Char) : Bool :=
  isControl c ∨ c.val = 0x61c ∨ c.val = 0x200e ∨ c.val = 0x200f ∨
    (0x202a ≤ c.val ∧ c.val ≤ 0x202e) ∨ (0x2066 ≤ c.val ∧ c.val ≤ 0x2069) ∨
    (0xfdd0 ≤ c.val ∧ c.val ≤ 0xfdef) ∨ c.val &&& 0xfffe = 0xfffe

/-- `MAX_IDENTITY_VALUE_BYTES`. -/
def maxIdentityValueBytes : ℕ := 200

/-- A text without control characters. -/
def IsPlainText (value : String) : Prop := ∀ c ∈ value.toList, isControl c = false

/-- Neither normalisation nor case folding introduces a control character. -/
structure NoNewControls (P : Platform) : Prop where
  nfc : ∀ value, IsPlainText value → IsPlainText (P.nfc value)
  defaultCaseFoldStr : ∀ value, IsPlainText value → IsPlainText (P.defaultCaseFoldStr value)

/-- The Album Artists and the title of an Album in the tags of a file. -/
structure AlbumTags where
  albumArtists : List String
  album : String

section Tags

variable (P : Platform)

def normalizeValue (value : String) : Option String :=
  if value.toList.any isUnsafeIdentityChar then none
  else
    let normal := P.nfc (String.ofList (Chars.trimMatches isWhiteSpace value.toList))
    if maxIdentityValueBytes < normal.utf8ByteSize ∨
      normal.toList.any isUnsafeIdentityChar then none
    else
      let collapsed := collapseWhitespace normal
      if collapsed = "" then none else some collapsed

namespace AlbumTags

variable (tags other : AlbumTags)

structure Accepted : Prop where
  credits : tags.albumArtists ≠ []
  artists : ∀ artist ∈ tags.albumArtists, ∃ value, normalizeValue P value = some artist
  album : ∃ value, normalizeValue P value = some tags.album

def key : String := albumKeyOf P tags.albumArtists tags.album

/-- The same Album Artists and the same title, once they are normalised. -/
def SameAlbum : Prop :=
  normalizeCredits P tags.albumArtists = normalizeCredits P other.albumArtists ∧
    normalizeIdentity P tags.album = normalizeIdentity P other.album

end AlbumTags

end Tags

section Plain

variable {P : Platform} {value : String}

theorem isPlainText_collapseWhitespace (h : IsPlainText value) :
    IsPlainText (collapseWhitespace value) := by
  have hwords : ∀ words : List (List Char), (∀ word ∈ words, ∀ c ∈ word, isControl c = false) →
      IsPlainText (" ".intercalate (words.map String.ofList)) := by
    intro words hplain c hc
    rw [String.toList_intercalate, List.map_map] at hc
    induction words with
    | nil => cases hc
    | cons word words ih =>
      obtain ⟨hword, hrest⟩ := List.forall_mem_cons.mp hplain
      cases words with
      | nil =>
        rw [List.map_cons, List.map_nil, List.intercalate_singleton] at hc
        exact hword c (by simpa using hc)
      | cons next words =>
        rw [List.map_cons, List.map_cons, List.intercalate_cons_cons] at hc
        rcases List.mem_append.mp hc with hhead | htail
        · rcases List.mem_append.mp hhead with hfirst | hspace
          · exact hword c (by simpa using hfirst)
          · rw [List.mem_singleton.mp hspace]
            decide
        · exact ih hrest htail
  refine hwords _ fun word hword c hc => h c ?_
  have hmem := (List.mem_filter.mp hword).1
  exact (Chars.mem_splitOnP (Chars.not_sep_of_mem _ word hmem hc) _).mp ⟨word, hmem, hc⟩

/-- What an inspection accepts has no control characters. -/
theorem isPlainText_of_normalizeValue {accepted : String}
    (h : normalizeValue P value = some accepted) : IsPlainText accepted := by
  simp only [normalizeValue] at h
  split_ifs at h with hraw hnormal hempty
  cases h
  refine isPlainText_collapseWhitespace fun c hc => ?_
  by_contra hcontrol
  refine (not_or.mp hnormal).2 (List.any_eq_true.mpr ⟨c, hc, ?_⟩)
  exact decide_eq_true (.inl (Bool.not_eq_false _ ▸ hcontrol))

theorem isPlainText_normalizeIdentity (hP : NoNewControls P) (h : IsPlainText value) :
    IsPlainText (normalizeIdentity P value) :=
  hP.defaultCaseFoldStr _ (isPlainText_collapseWhitespace (hP.nfc _ h))

end Plain

/-! ### Reading a key -/

/-- What may follow the title in a key: nothing, or a separator and more. -/
def IsKeyEnd (rest : List Char) : Prop := rest = [] ∨ rest.head? = some '\x1f'

/-- Where a text without the mark ends is read off what follows it. -/
theorem append_inj_of_mark {a : Char} {x x' y y' : List Char} (hx : a ∉ x) (hx' : a ∉ x')
    (hy : y = [] ∨ y.head? = some a) (hy' : y' = [] ∨ y'.head? = some a)
    (h : x ++ y = x' ++ y') : x = x' ∧ y = y' := by
  have htake : ∀ {x y : List Char}, a ∉ x → (y = [] ∨ y.head? = some a) →
      (x ++ y).takeWhile (· ≠ a) = x := by
    intro x y hx hy
    have hall : ∀ c ∈ x, decide (c ≠ a) = true := by
      intro c hc
      refine decide_eq_true ?_
      rintro rfl
      exact hx hc
    rw [List.takeWhile_append_of_pos hall]
    rcases hy with rfl | hhead
    · simp
    · obtain ⟨rest, rfl⟩ := List.head?_eq_some_iff.mp hhead
      simp
  have heq : x = x' := by
    rw [← htake hx hy, h, htake hx' hy']
  subst heq
  exact ⟨rfl, List.append_cancel_left h⟩

section Reading

variable {P : Platform} {tags tags' : AlbumTags}

theorem AlbumTags.key_toList (tags : AlbumTags) : (tags.key P).toList =
    ['\x1e'].intercalate ((normalizeCredits P tags.albumArtists).map String.toList) ++
      '\x1f' :: (normalizeIdentity P tags.album).toList := by
  rw [key, albumKeyOf, String.toList_append, String.toList_append, String.toList_intercalate,
    List.append_assoc]
  rfl

theorem not_mem_of_plain {value : String} {c : Char} (h : IsPlainText value)
    (hc : isControl c = true) : c ∉ value.toList := by
  intro hmem
  rw [h c hmem] at hc
  cases hc

theorem AlbumTags.Accepted.plain_credits (hP : NoNewControls P) (h : tags.Accepted P) :
    ∀ credit ∈ normalizeCredits P tags.albumArtists, IsPlainText credit := by
  intro credit hcredit
  obtain ⟨artist, hartist, rfl⟩ := List.mem_map.mp hcredit
  obtain ⟨value, hvalue⟩ := h.artists artist hartist
  exact isPlainText_normalizeIdentity hP (isPlainText_of_normalizeValue hvalue)

theorem AlbumTags.Accepted.plain_album (hP : NoNewControls P) (h : tags.Accepted P) :
    IsPlainText (normalizeIdentity P tags.album) := by
  obtain ⟨value, hvalue⟩ := h.album
  exact isPlainText_normalizeIdentity hP (isPlainText_of_normalizeValue hvalue)

theorem AlbumTags.Accepted.credits_ne_nil (h : tags.Accepted P) :
    (normalizeCredits P tags.albumArtists).map String.toList ≠ [] := by
  rw [normalizeCredits, ne_eq, List.map_eq_nil_iff, List.map_eq_nil_iff]
  exact h.credits

/-- A control character other than the separator is not among the credits. -/
theorem not_mem_credits {credits : List String} {c : Char}
    (hplain : ∀ credit ∈ credits, IsPlainText credit) (hc : isControl c = true)
    (hsep : c ≠ '\x1e') :
    c ∉ ['\x1e'].intercalate (credits.map String.toList) := by
  induction credits with
  | nil => exact List.not_mem_nil
  | cons credit credits ih =>
    obtain ⟨hcredit, hrest⟩ := List.forall_mem_cons.mp hplain
    have hnot := not_mem_of_plain hcredit hc
    cases credits with
    | nil =>
      rw [List.map_cons, List.map_nil, List.intercalate_singleton]
      exact hnot
    | cons next credits =>
      rw [List.map_cons, List.map_cons, List.intercalate_cons_cons, List.mem_append,
        List.mem_append, List.mem_singleton]
      exact not_or.mpr ⟨not_or.mpr ⟨hnot, hsep⟩, ih hrest⟩

/-- The credits, the title and the end of a key are read off it. -/
theorem key_append_inj (hP : NoNewControls P) (h : tags.Accepted P) (h' : tags'.Accepted P)
    {rest rest' : List Char} (hrest : IsKeyEnd rest) (hrest' : IsKeyEnd rest')
    (heq : (tags.key P).toList ++ rest = (tags'.key P).toList ++ rest') :
    tags.SameAlbum P tags' ∧ rest = rest' := by
  rw [AlbumTags.key_toList, AlbumTags.key_toList, List.append_assoc, List.append_assoc] at heq
  have hunit : isControl '\x1f' = true := by decide
  obtain ⟨hcredits, htitle⟩ := append_inj_of_mark
    (not_mem_credits (h.plain_credits hP) hunit (by decide))
    (not_mem_credits (h'.plain_credits hP) hunit (by decide)) (.inr rfl) (.inr rfl) heq
  obtain ⟨halbum, hends⟩ := append_inj_of_mark (not_mem_of_plain (h.plain_album hP) hunit)
    (not_mem_of_plain (h'.plain_album hP) hunit) hrest hrest' (List.cons.inj htitle).2
  refine ⟨⟨?_, String.toList_inj.mp halbum⟩, hends⟩
  -- the credits have no separator in them, and there is at least one
  have hparts : ∀ {tags : AlbumTags}, tags.Accepted P →
      (['\x1e'].intercalate ((normalizeCredits P tags.albumArtists).map String.toList)).splitOn
        '\x1e' = (normalizeCredits P tags.albumArtists).map String.toList := by
    intro tags h
    refine List.splitOn_intercalate '\x1e' (fun credit hcredit => ?_) h.credits_ne_nil
    obtain ⟨name, hname, rfl⟩ := List.mem_map.mp hcredit
    exact not_mem_of_plain (h.plain_credits hP name hname) (by decide)
  have hlists := hparts h
  rw [hcredits, hparts h'] at hlists
  exact (List.map_injective_iff.mpr (fun _ _ => String.toList_inj.mp) hlists).symm

theorem AlbumTags.SameAlbum.key_eq (h : tags.SameAlbum P tags') : tags.key P = tags'.key P := by
  rw [key, key, albumKeyOf, albumKeyOf, h.1, h.2]

/-- A key says which Album Artists and which title. -/
theorem key_eq_iff (hP : NoNewControls P) (h : tags.Accepted P) (h' : tags'.Accepted P) :
    tags.key P = tags'.key P ↔ tags.SameAlbum P tags' := by
  refine ⟨fun heq => ?_, AlbumTags.SameAlbum.key_eq⟩
  exact (key_append_inj hP h h' (.inl rfl) (.inl rfl) (by rw [heq])).1

end Reading

end Harmony.ManagedImport
