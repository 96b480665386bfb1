/-
# The pages of a codec family

AAC and AAC+ are two catalogs upstream and one family here. For each page both are asked for
their first stations up to its end, the unplayable ones are dropped from the answers, and the
page is cut out of what is left, merged by name.
-/

import Harmony.Library.Paging
import Mathlib.Data.String.Basic

namespace Harmony.Radio

open Paging (Sorter page)

structure SearchResult where
  stationUuid : String
  name : String
  streamUrl : String
  deriving DecidableEq

/-- What upstream has for the two codecs, in its own order. -/
structure Catalogs where
  aac : List SearchResult
  aacPlus : List SearchResult
  nodup : (aac ++ aacPlus).Nodup

section Search

variable (isHttpUrl : String → Bool) (toLowercase : Char → Char)

/-- Go's `strings.ToLower`, rune by rune. -/
def goLower (text : String) : String :=
  String.ofList (text.toList.map fun c => if c = 'İ' then 'i' else toLowercase c)

/-- The first stations of a catalog, without those that have no playable address. -/
def fetchSearch (catalog : List SearchResult) (limit : ℕ) : List SearchResult :=
  (catalog.take limit).filter fun result => isHttpUrl result.streamUrl

/-- The stable sort by the lower-cased name. -/
def sortByName (results : List SearchResult) : List SearchResult :=
  (Sorter.stable fun result : SearchResult => goLower toLowercase result.name).sort results

def searchAacFamily (catalogs : Catalogs) (limit offset : ℕ) : List SearchResult :=
  let upstreamLimit := offset + limit
  let all := sortByName toLowercase (fetchSearch isHttpUrl catalogs.aac upstreamLimit ++
    fetchSearch isHttpUrl catalogs.aacPlus upstreamLimit)
  if all.length ≤ offset then []
  else
    let stop := min (offset + limit) all.length
    (all.drop offset).take (stop - offset)

/-- The playable stations of both catalogs in the order of their names. -/
def family (catalogs : Catalogs) : List SearchResult :=
  sortByName toLowercase
    ((catalogs.aac ++ catalogs.aacPlus).filter fun result => isHttpUrl result.streamUrl)

/-- The pages at the offsets 0, `limit`, 2 · `limit`, … one after another. -/
def pages (catalogs : Catalogs) (limit count : ℕ) : List SearchResult :=
  (List.range count).flatMap fun i =>
    searchAacFamily isHttpUrl toLowercase catalogs limit (i * limit)

/-- The station is among the first ones that upstream has for its codec. -/
def Catalogs.Reaches (catalogs : Catalogs) (limit : ℕ) (station : SearchResult) : Prop :=
  station ∈ catalogs.aac.take limit ∨ station ∈ catalogs.aacPlus.take limit

instance (catalogs : Catalogs) (limit : ℕ) (station : SearchResult) :
    Decidable (catalogs.Reaches limit station) :=
  inferInstanceAs (Decidable (_ ∨ _))

end Search

/-! ### What a page shows -/

section Pages

variable {α : Type*} {l : List α} {p : α → Bool} {n : ℕ}

/-- Where all of the front is kept, it stays the front. -/
theorem take_filter (h : ∀ a ∈ l.take n, p a = true) : (l.filter p).take n = l.take n := by
  have hsplit : l.filter p = l.take n ++ (l.drop n).filter p := by
    conv_lhs => rw [← List.take_append_drop n l]
    rw [List.filter_append, List.filter_eq_self.mpr h]
  by_cases hn : n ≤ l.length
  · have hlength := List.length_take_of_le hn
    rw [hsplit, List.take_append_of_le_length hlength.ge, List.take_of_length_le hlength.le]
  · rw [List.drop_eq_nil_of_le (by omega), List.filter_nil, List.append_nil] at hsplit
    rw [hsplit, List.take_take, min_self]

theorem filter_mem_take [DecidableEq α] (h : l.Nodup) :
    l.filter (fun a => decide (a ∈ l.take n)) = l.take n := by
  have hsplit := List.take_append_drop n l
  rw [← hsplit, List.nodup_append] at h
  conv_lhs => rw [← hsplit]
  rw [List.filter_append, hsplit, List.filter_eq_self.mpr fun a ha => decide_eq_true ha,
    List.filter_eq_nil_iff.mpr, List.append_nil]
  intro a ha hmem
  exact h.2.2 a (of_decide_eq_true hmem) a ha rfl

theorem cut_eq_page {limit offset : ℕ} : (if l.length ≤ offset then []
    else (l.drop offset).take (min (offset + limit) l.length - offset)) = page limit offset l := by
  rw [page]
  split_ifs with hend
  · rw [List.drop_eq_nil_of_le hend, List.take_nil]
  · rw [List.take_eq_take_iff, List.length_drop]
    omega

/-- One page more. -/
theorem take_add_page {limit count : ℕ} :
    l.take ((count + 1) * limit) = l.take (count * limit) ++ page limit (count * limit) l := by
  rw [Nat.succ_mul, List.take_add]
  rfl

end Pages

section Family

variable {isHttpUrl : String → Bool} {toLowercase : Char → Char} {catalogs : Catalogs}
  {limit offset : ℕ}

theorem Catalogs.Reaches.mono {station : SearchResult} {more : ℕ}
    (h : catalogs.Reaches limit station) (hle : limit ≤ more) : catalogs.Reaches more station := by
  rcases h with h | h
  · exact .inl ((List.take_prefix_take_left hle).subset h)
  · exact .inr ((List.take_prefix_take_left hle).subset h)

/-- What is fetched are the playable stations that are reached. -/
theorem fetchSearch_append : fetchSearch isHttpUrl catalogs.aac limit ++
    fetchSearch isHttpUrl catalogs.aacPlus limit =
      ((catalogs.aac ++ catalogs.aacPlus).filter fun result => isHttpUrl result.streamUrl).filter
        fun result => decide (catalogs.Reaches limit result) := by
  obtain ⟨haac, hplus, hdisjoint⟩ := List.nodup_append.mp catalogs.nodup
  have hfirst : catalogs.aac.filter (fun result => decide (catalogs.Reaches limit result)) =
      catalogs.aac.take limit := by
    conv_rhs => rw [← filter_mem_take haac]
    apply List.filter_congr
    intro result hresult
    rw [decide_eq_decide]
    refine or_iff_left fun hother => ?_
    exact hdisjoint result hresult result (List.mem_of_mem_take hother) rfl
  have hsecond : catalogs.aacPlus.filter (fun result => decide (catalogs.Reaches limit result)) =
      catalogs.aacPlus.take limit := by
    conv_rhs => rw [← filter_mem_take hplus]
    apply List.filter_congr
    intro result hresult
    rw [decide_eq_decide]
    refine or_iff_right fun hother => ?_
    exact hdisjoint result (List.mem_of_mem_take hother) result hresult rfl
  rw [List.filter_filter, List.filter_append, fetchSearch, fetchSearch, ← hfirst, ← hsecond,
    List.filter_filter, List.filter_filter]
  simp only [Bool.and_comm]

/-- A page is cut out of the stations of the family that are reached. -/
theorem searchAacFamily_eq : searchAacFamily isHttpUrl toLowercase catalogs limit offset =
    page limit offset ((family isHttpUrl toLowercase catalogs).filter
      fun result => decide (catalogs.Reaches (offset + limit) result)) := by
  rw [searchAacFamily, fetchSearch_append, sortByName, Sorter.stable_filter]
  exact cut_eq_page

end Family

/-- The pages are the family, cut, just where every station of a page is among the first ones
up to its end that upstream has for its codec. -/
theorem pages_eq_family_iff (isHttpUrl : String → Bool) (toLowercase : Char → Char)
    (catalogs : Catalogs) (limit : ℕ) :
    (∀ count, pages isHttpUrl toLowercase catalogs limit count =
        (family isHttpUrl toLowercase catalogs).take (count * limit)) ↔
      ∀ count, ∀ station ∈ (family isHttpUrl toLowercase catalogs).take (count * limit),
        catalogs.Reaches (count * limit) station := by
  have hmore : ∀ count, pages isHttpUrl toLowercase catalogs limit (count + 1) =
      pages isHttpUrl toLowercase catalogs limit count ++ page limit (count * limit)
        ((family isHttpUrl toLowercase catalogs).filter
          fun result => decide (catalogs.Reaches ((count + 1) * limit) result)) := by
    intro count
    rw [pages, List.range_succ, List.flatMap_append, List.flatMap_singleton, searchAacFamily_eq,
      Nat.succ_mul]
    rfl
  constructor
  · intro h count
    induction count with
    | zero =>
      intro station hstation
      rw [Nat.zero_mul] at hstation
      exact absurd hstation List.not_mem_nil
    | succ count ih =>
      -- the page shows what was reached, and the pages before it were right
      have hpage := h (count + 1)
      rw [hmore, h count, take_add_page, List.append_cancel_left_eq] at hpage
      intro station hstation
      rw [take_add_page] at hstation
      rcases List.mem_append.mp hstation with hbefore | hon
      · exact (ih station hbefore).mono (Nat.mul_le_mul_right _ (Nat.le_succ _))
      · rw [← hpage] at hon
        have hkept := List.mem_of_mem_drop (List.mem_of_mem_take hon)
        exact of_decide_eq_true (List.mem_filter.mp hkept).2
  · intro h count
    induction count with
    | zero => rw [Nat.zero_mul, List.take_zero, pages, List.range_zero, List.flatMap_nil]
    | succ count ih =>
      have hfront := take_filter fun station hstation =>
        decide_eq_true (h (count + 1) station hstation)
      have hpage : ∀ l : List SearchResult, page limit (count * limit) l =
          (l.take ((count + 1) * limit)).drop (count * limit) := by
        intro l
        rw [Nat.succ_mul, ← List.take_drop, page]
      rw [hmore, ih, take_add_page, hpage, hpage, hfront]

/-! ### A catalog that begins with an unplayable station -/

def station (name url : String) : SearchResult := ⟨name, name, url⟩

def hiddenFirst : Catalogs :=
  ⟨[station "a" "", station "b" "http://b", station "c" "http://c"],
    [station "d" "http://d", station "e" "http://e"], by decide⟩

/-- Both catalogs are in the order of their names; the third station is on no page, and the
fourth is on two. -/
theorem pages_hiddenFirst : ¬ ∀ catalogs : Catalogs,
    sortByName Char.toLower catalogs.aac = catalogs.aac →
    sortByName Char.toLower catalogs.aacPlus = catalogs.aacPlus →
    ∀ limit count, pages (· ≠ "") Char.toLower catalogs limit count =
      (family (· ≠ "") Char.toLower catalogs).take (count * limit) := by
  intro h
  have htwo := h hiddenFirst (by decide +kernel) (by decide +kernel) 2 2
  revert htwo
  decide +kernel

end Harmony.Radio
