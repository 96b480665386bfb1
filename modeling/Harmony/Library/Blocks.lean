/-
# Blocks with two marks after them

A stream is cut into blocks wherever its mark stands twice in a row. A reader that keeps
what it has not cut yet finds the same blocks however the stream comes in.
-/

import Mathlib.Data.List.Basic

namespace Blocks

variable {α : Type*} [DecidableEq α]

/-- Where the first two marks in a row stand. -/
def blockEnd (mark : α) : List α → Option ℕ
  | a :: b :: rest =>
    if a = mark ∧ b = mark then some 0 else (blockEnd mark (b :: rest)).map (· + 1)
  | _ => none

/-- The blocks that have ended, and what is left. -/
def blocks (mark : α) : List α → List (List α) × List α
  | a :: b :: rest =>
    if a = mark ∧ b = mark then
      let cut := blocks mark rest
      ([] :: cut.1, cut.2)
    else
      match blocks mark (b :: rest) with
      | ([], left) => ([], a :: left)
      | (block :: others, left) => ((a :: block) :: others, left)
  | stream => ([], stream)

/-- The blocks that end in each chunk, after what was left before it. -/
def pieces (mark : α) : List α → List (List α) → List (List (List α))
  | _, [] => []
  | left, chunk :: chunks =>
    let cut := blocks mark (left ++ chunk)
    cut.1 :: pieces mark cut.2 chunks

/-- A block: its end is the first. -/
def IsBlock (mark : α) (block : List α) : Prop :=
  blockEnd mark (block ++ [mark, mark]) = some block.length

/-- A stream of whole blocks. -/
def ended (mark : α) (stream : List (List α)) : List α :=
  stream.flatMap fun block => block ++ [mark, mark]

section Cutting

variable {mark : α} {stream : List α}

@[simp] theorem blocks_nil : blocks mark ([] : List α) = ([], []) := rfl

theorem blocks_mark (rest : List α) :
    blocks mark (mark :: mark :: rest) = ([] :: (blocks mark rest).1, (blocks mark rest).2) := by
  rw [blocks, if_pos ⟨rfl, rfl⟩]

theorem blocks_cons {a b : α} {rest : List α} (h : ¬(a = mark ∧ b = mark)) :
    blocks mark (a :: b :: rest) =
      match blocks mark (b :: rest) with
      | ([], left) => ([], a :: left)
      | (block :: others, left) => ((a :: block) :: others, left) := by
  rw [blocks, if_neg h]

/-- Where no block has ended, all is left. -/
theorem blocks_snd_of_nil (h : (blocks mark stream).1 = []) : (blocks mark stream).2 = stream := by
  fun_induction blocks mark stream with
  | case1 a b rest hmark cut ih => cases h
  | case2 a b rest hmark left hblocks ih =>
    rw [hblocks] at ih
    exact congrArg (a :: ·) (ih rfl)
  | case3 a b rest hmark block others left hblocks ih => cases h
  | case4 stream hshort => rfl

/-- What is left has no end in it. -/
theorem blocks_left : (blocks mark (blocks mark stream).2).1 = [] := by
  fun_induction blocks mark stream with
  | case1 a b rest hmark cut ih => exact ih
  | case2 a b rest hmark left hblocks ih =>
    have hnil : (blocks mark (b :: rest)).1 = [] := by rw [hblocks]
    have hleft : left = b :: rest := by
      rw [← blocks_snd_of_nil hnil, hblocks]
    rw [hleft, blocks_cons hmark, hblocks]
  | case3 a b rest hmark block others left hblocks ih =>
    rw [hblocks] at ih
    exact ih
  | case4 stream hshort =>
    rcases stream with _ | ⟨a, _ | ⟨b, rest⟩⟩
    · rfl
    · rfl
    · exact absurd rfl (hshort a b rest)

theorem length_blocks_left (stream : List α) :
    (blocks mark stream).2.length ≤ stream.length := by
  fun_induction blocks mark stream with
  | case1 a b rest hmark cut ih =>
    rw [List.length_cons, List.length_cons]
    exact Nat.le_trans ih (by omega)
  | case2 a b rest hmark left hblocks ih =>
    rw [hblocks] at ih
    exact Nat.succ_le_succ ih
  | case3 a b rest hmark block others left hblocks ih =>
    rw [hblocks] at ih
    exact Nat.le_trans ih (Nat.le_succ _)
  | case4 stream hshort => exact Nat.le_refl _

/-- The first end is where the first block is cut off. -/
theorem blocks_eq (stream : List α) :
    blocks mark stream =
      match blockEnd mark stream with
      | none => ([], stream)
      | some place =>
        let cut := blocks mark (stream.drop (place + 2))
        (stream.take place :: cut.1, cut.2) := by
  fun_induction blockEnd mark stream with
  | case1 a b rest hmark =>
    rw [blocks, if_pos hmark]
    rfl
  | case2 a b rest hmark ih =>
    rw [blocks_cons hmark, ih]
    cases blockEnd mark (b :: rest) <;> rfl
  | case3 stream hshort =>
    rcases stream with _ | ⟨a, _ | ⟨b, rest⟩⟩
    · rfl
    · rfl
    · exact absurd rfl (hshort a b rest)

theorem blockEnd_lt {place : ℕ} (h : blockEnd mark stream = some place) :
    place + 2 ≤ stream.length := by
  fun_induction blockEnd mark stream generalizing place with
  | case1 a b rest hmark =>
    cases h
    rw [List.length_cons, List.length_cons]
    omega
  | case2 a b rest hmark ih =>
    obtain ⟨before, hbefore, rfl⟩ := Option.map_eq_some_iff.mp h
    have hle := ih hbefore
    rw [List.length_cons]
    omega
  | case3 stream hshort => cases h

/-- A reader that kept what was left goes on where it stopped, by induction along the
recursion that cuts the stream. -/
theorem blocks_append (stream later : List α) :
    blocks mark (stream ++ later) =
      ((blocks mark stream).1 ++ (blocks mark ((blocks mark stream).2 ++ later)).1,
        (blocks mark ((blocks mark stream).2 ++ later)).2) := by
  fun_induction blocks mark stream with
  | case1 a b rest hmark cut ih =>
    obtain ⟨rfl, rfl⟩ := hmark
    rw [List.cons_append, List.cons_append, blocks_mark, ih]
    rfl
  | case2 a b rest hmark left hblocks ih =>
    have hnil : (blocks mark (b :: rest)).1 = [] := by rw [hblocks]
    have hleft : left = b :: rest := by
      rw [← blocks_snd_of_nil hnil, hblocks]
    rw [hleft]
    rfl
  | case3 a b rest hmark block others left hblocks ih =>
    rw [hblocks] at ih
    rw [List.cons_append] at ih ⊢
    rw [List.cons_append, blocks_cons hmark, ih]
    rfl
  | case4 stream hshort => rfl

/-- However the stream is cut into chunks, the blocks are the same. -/
theorem flatten_pieces (left : List α) (chunks : List (List α))
    (hleft : (blocks mark left).1 = []) :
    (pieces mark left chunks).flatten = (blocks mark (left ++ chunks.flatten)).1 := by
  induction chunks generalizing left with
  | nil => rw [pieces, List.flatten_nil, List.flatten_nil, List.append_nil, hleft]
  | cons chunk chunks ih =>
    rw [pieces, List.flatten_cons, ih _ blocks_left, List.flatten_cons, ← List.append_assoc,
      blocks_append (left ++ chunk)]

omit [DecidableEq α] in
/-- A block of some piece, and those before and after it. -/
theorem exists_piece {cut : List (List (List α))} {before after : List (List α)}
    {block : List α} (h : cut.flatten = before ++ block :: after) :
    ∃ earlier front back later, cut = earlier ++ (front ++ block :: back) :: later ∧
      before = earlier.flatten ++ front := by
  induction cut generalizing before with
  | nil =>
    rw [List.flatten_nil] at h
    exact absurd h.symm (List.append_ne_nil_of_right_ne_nil _ (List.cons_ne_nil _ _))
  | cons piece cut ih =>
    rw [List.flatten_cons, List.append_eq_append_iff] at h
    rcases h with ⟨front, rfl, hcut⟩ | ⟨back, rfl, hback⟩
    · obtain ⟨earlier, front', back, later, rfl, rfl⟩ := ih hcut
      exact ⟨piece :: earlier, front', back, later, rfl, (List.append_assoc _ _ _).symm⟩
    · cases back with
      | nil =>
        obtain ⟨earlier, front', back, later, rfl, hfront⟩ := @ih [] hback.symm
        refine ⟨(before ++ []) :: earlier, front', back, later, rfl, ?_⟩
        rw [List.flatten_cons, List.append_assoc, ← hfront, List.append_nil, List.append_nil]
      | cons block' back =>
        obtain ⟨rfl, -⟩ := List.cons.inj hback
        exact ⟨[], before, back, cut, rfl, rfl⟩

end Cutting

/-! ### Streams of blocks -/

section Streams

variable {mark : α} {block : List α}

theorem IsBlock.blocks_append (h : IsBlock mark block) (rest : List α) :
    blocks mark (block ++ mark :: mark :: rest) =
      (block :: (blocks mark rest).1, (blocks mark rest).2) := by
  have hblock : blocks mark (block ++ [mark, mark]) = ([block], []) := by
    rw [blocks_eq, h]
    have hdrop : (block ++ [mark, mark]).drop (block.length + 2) = [] :=
      List.drop_eq_nil_of_le (Nat.le_of_eq List.length_append)
    simp only [hdrop, blocks_nil, List.take_left']
  have hsplit : block ++ mark :: mark :: rest = (block ++ [mark, mark]) ++ rest := by
    rw [List.append_assoc]
    rfl
  rw [hsplit, Blocks.blocks_append, hblock]
  rfl

/-- The blocks of a stream are those it was made of. -/
theorem blocks_ended {stream : List (List α)} (h : ∀ block ∈ stream, IsBlock mark block) :
    blocks mark (ended mark stream) = (stream, []) := by
  induction stream with
  | nil => rfl
  | cons block stream ih =>
    have hrest := ih fun other hother => h other (List.mem_cons_of_mem _ hother)
    have hsplit : ended mark (block :: stream) = block ++ mark :: mark :: ended mark stream := by
      rw [ended, List.flatMap_cons, List.append_assoc]
      rfl
    rw [hsplit, (h block List.mem_cons_self).blocks_append, hrest]

theorem blockEnd_cons_of_ne {a : α} (ha : a ≠ mark) (rest : List α) :
    blockEnd mark (a :: rest) = (blockEnd mark rest).map (· + 1) := by
  cases rest with
  | nil => rfl
  | cons b rest => rw [blockEnd, if_neg fun h => ha h.1]

theorem blockEnd_append_of_not_mem {line : List α} (hline : mark ∉ line) (rest : List α) :
    blockEnd mark (line ++ rest) = (blockEnd mark rest).map (· + line.length) := by
  induction line with
  | nil => simp
  | cons a line ih =>
    have ha : a ≠ mark := fun h => hline (h ▸ List.mem_cons_self)
    rw [List.cons_append, blockEnd_cons_of_ne ha, ih fun h => hline (List.mem_cons_of_mem _ h),
      Option.map_map]
    rfl

theorem isBlock_line {line : List α} (hline : mark ∉ line) : IsBlock mark line := by
  rw [IsBlock, blockEnd_append_of_not_mem hline, blockEnd, if_pos ⟨rfl, rfl⟩, Option.map_some,
    Nat.zero_add]

/-- A line more before a block that does not begin with the mark. -/
theorem IsBlock.cons_line {line : List α} (h : IsBlock mark block) (hline : mark ∉ line)
    (hfirst : ∃ b rest, block = b :: rest ∧ b ≠ mark) :
    IsBlock mark (line ++ mark :: block) := by
  obtain ⟨b, rest, rfl, hb⟩ := hfirst
  rw [IsBlock] at h
  rw [IsBlock, List.append_assoc, blockEnd_append_of_not_mem hline, List.cons_append,
    List.cons_append, blockEnd, if_neg fun h => hb h.2, ← List.cons_append, h, Option.map_some,
    Option.map_some, List.length_append, List.length_cons]
  simp only [List.length_cons, Option.some.injEq]
  omega

/-- Lines with something in them make a block. -/
theorem isBlock_intercalate {lines : List (List α)} (hne : lines ≠ [])
    (h : ∀ line ∈ lines, line ≠ [] ∧ mark ∉ line) : IsBlock mark ([mark].intercalate lines) := by
  induction lines with
  | nil => exact absurd rfl hne
  | cons line lines ih =>
    obtain ⟨-, hline⟩ := h line List.mem_cons_self
    have hrest := fun other hother => h other (List.mem_cons_of_mem _ hother)
    cases lines with
    | nil =>
      rw [List.intercalate_singleton]
      exact isBlock_line hline
    | cons next others =>
      rw [List.intercalate_cons_cons, List.append_assoc]
      refine (ih (List.cons_ne_nil _ _) hrest).cons_line hline ?_
      obtain ⟨hnext, hmark⟩ := hrest next List.mem_cons_self
      obtain ⟨b, next, rfl⟩ := List.exists_cons_of_ne_nil hnext
      have hfirst : ∃ tail, [mark].intercalate ((b :: next) :: others) = b :: tail := by
        cases others with
        | nil => exact ⟨_, List.intercalate_singleton⟩
        | cons other others => exact ⟨_, List.intercalate_cons_cons⟩
      obtain ⟨tail, htail⟩ := hfirst
      exact ⟨b, tail, htail, fun hb => hmark (hb ▸ List.mem_cons_self)⟩

end Streams

end Blocks
