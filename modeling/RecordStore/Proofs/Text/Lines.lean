import RecordStore.Text.Bytes

/-! # Cutting a file that was edited by lines

    The lines of a file are the only way to cut it into pieces of which each but the last is
    terminated.  So a file that is put together from such pieces has them as its lines, and a
    line can be replaced, taken out or added at the end without moving the cuts of the others.
    The route:

    * `Cut`: what the lines of a file look like, read off the pieces alone;
    * `cut_lines` and `Cut.lines_flatten`: the lines of a file are such pieces, and such pieces
      are the lines of the file they make;
    * `terminate`: the file with its last line terminated, behind which a line can be added. -/

namespace RecordStore.Text

/-- A line with its line feed, the only one it has. -/
def Terminated (line : Bytes) : Prop := ∃ body, lineFeed ∉ body ∧ line = body ++ [lineFeed]

/-- Pieces that are the lines of the file they make: all terminated, but for the last. -/
inductive Cut : List Bytes → Prop where
  | nil : Cut []
  | unterminated {line : Bytes} (ne : line ≠ []) (free : lineFeed ∉ line) : Cut [line]
  | cons {line : Bytes} {rest : List Bytes} (done : Terminated line) (more : Cut rest) :
      Cut (line :: rest)

/-! ## The lines of a file are the pieces it is cut into -/

/-- Lines are cut as lines are: each but the last is terminated. -/
theorem cut_lines (bytes : Bytes) : Cut (lines bytes) := by
  induction bytes with
  | nil => exact .nil
  | cons b rest ih =>
      rw [lines]
      by_cases hb : b = lineFeed
      · rw [if_pos hb, hb]
        exact .cons ⟨[], List.not_mem_nil, rfl⟩ ih
      · rw [if_neg hb]
        have hb' : lineFeed ≠ b := fun e => hb e.symm
        -- the byte goes in front of the first line of the rest, whichever form that has
        cases h : lines rest with
        | nil => exact .unterminated (by simp) (by simp [hb'])
        | cons line more =>
            rw [h] at ih
            cases ih with
            | unterminated ne free => exact .unterminated (by simp) (by simp [hb', free])
            | cons done hmore =>
                obtain ⟨body, free, rfl⟩ := done
                exact .cons ⟨b :: body, by simp [hb', free], rfl⟩ hmore

private theorem lines_of_notMem {bytes : Bytes} (free : lineFeed ∉ bytes) (ne : bytes ≠ []) :
    lines bytes = [bytes] := by
  induction bytes with
  | nil => exact absurd rfl ne
  | cons b rest ih =>
      have hb : b ≠ lineFeed := fun e => free (by simp [e])
      rw [lines, if_neg hb]
      by_cases hr : rest = []
      · rw [hr]
        rfl
      · rw [ih (fun h => free (List.mem_cons_of_mem _ h)) hr]

/-- A terminated line in front is the first of the lines. -/
theorem Terminated.lines_append {line : Bytes} (h : Terminated line) (rest : Bytes) :
    lines (line ++ rest) = line :: lines rest := by
  obtain ⟨body, free, rfl⟩ := h
  induction body with
  | nil => rw [List.nil_append, List.singleton_append, lines, if_pos rfl]
  | cons b body ih =>
      have hb : b ≠ lineFeed := fun e => free (by simp [e])
      have hrec := ih (fun h => free (List.mem_cons_of_mem _ h))
      rw [List.cons_append, List.cons_append, lines, if_neg hb, hrec]

/-- Joined and cut again, lines come back. -/
theorem Cut.lines_flatten {pieces : List Bytes} (h : Cut pieces) :
    lines pieces.flatten = pieces := by
  induction h with
  | nil => rfl
  | unterminated ne free => rw [List.flatten_singleton, lines_of_notMem free ne]
  | cons done _ ih => rw [List.flatten_cons, done.lines_append, ih]

/-! ## Pieces before and behind a line -/

/-- Terminated lines in front of lines are cut as lines are. -/
theorem Cut.append {before after : List Bytes} (hb : ∀ l ∈ before, Terminated l)
    (ha : Cut after) : Cut (before ++ after) := by
  induction before with
  | nil => exact ha
  | cons line before ih =>
      exact .cons (hb line List.mem_cons_self) (ih fun l hl => hb l (List.mem_cons_of_mem _ hl))

/-- So are terminated lines alone. -/
theorem Cut.of_terminated {pieces : List Bytes} (all : ∀ l ∈ pieces, Terminated l) :
    Cut pieces := by
  rw [← List.append_nil pieces]
  exact .append all .nil

/-- The pieces before a piece are terminated, and those behind it are cut themselves. -/
theorem Cut.split {before after : List Bytes} {line : Bytes} (h : Cut (before ++ line :: after)) :
    (∀ l ∈ before, Terminated l) ∧ Cut after := by
  induction before with
  | nil =>
      cases h with
      | unterminated => exact ⟨by simp, .nil⟩
      | cons _ more => exact ⟨by simp, more⟩
  | cons first before ih =>
      -- the tail is generalised, since `cases` cannot split on an append
      rw [List.cons_append] at h
      generalize hp : before ++ line :: after = pieces at h
      cases h with
      | unterminated => simp at hp
      | cons done more =>
          obtain ⟨hb, ha⟩ := ih (hp ▸ more)
          refine ⟨fun l hl => ?_, ha⟩
          rcases List.mem_cons.mp hl with rfl | hl
          · exact done
          · exact hb l hl

/-- Pieces are all terminated, or all but the last. -/
theorem Cut.terminated_or {pieces : List Bytes} (h : Cut pieces) :
    (∀ l ∈ pieces, Terminated l) ∨
      ∃ before last, pieces = before ++ [last] ∧ (∀ l ∈ before, Terminated l) ∧
        last ≠ [] ∧ lineFeed ∉ last := by
  induction h with
  | nil => exact .inl (by simp)
  | @unterminated line ne free => exact .inr ⟨[], line, rfl, by simp, ne, free⟩
  | @cons line rest done _ ih =>
      rcases ih with all | ⟨before, last, rfl, hb, ne, free⟩
      · exact .inl (List.forall_mem_cons.mpr ⟨done, all⟩)
      · exact .inr ⟨line :: before, last, rfl, List.forall_mem_cons.mpr ⟨done, hb⟩, ne, free⟩

/-- A file is made of a line and of what stands before and behind it. -/
theorem eq_around_line {bytes : Bytes} {before after : List Bytes} {line : Bytes}
    (h : lines bytes = before ++ line :: after) :
    bytes = before.flatten ++ line ++ after.flatten := by
  rw [← flatten_lines bytes, h, List.flatten_append, List.flatten_cons, List.append_assoc]

/-- The pieces before a line are the lines of what they make, and so are those behind it. -/
theorem lines_around_line {bytes : Bytes} {before after : List Bytes} {line : Bytes}
    (h : lines bytes = before ++ line :: after) :
    lines before.flatten = before ∧ lines after.flatten = after := by
  obtain ⟨hb, ha⟩ := (h ▸ cut_lines bytes).split
  exact ⟨(Cut.of_terminated hb).lines_flatten, ha.lines_flatten⟩

/-- Terminated pieces, one made of each element of a list, are the lines of what they make. -/
theorem lines_flatMap {α : Type} {piece : α → Bytes} {l : List α}
    (done : ∀ a ∈ l, Terminated (piece a)) : lines (l.flatMap piece) = l.map piece := by
  have all : ∀ line ∈ l.map piece, Terminated line := by
    intro line hline
    obtain ⟨a, ha, rfl⟩ := List.mem_map.mp hline
    exact done a ha
  rw [List.flatMap_def, (Cut.of_terminated all).lines_flatten]

/-- A line with another in its place, the others as they were. -/
theorem lines_replace {bytes line' : Bytes} {before after : List Bytes} {line : Bytes}
    (h : lines bytes = before ++ line :: after) (done : Terminated line') :
    lines (before.flatten ++ line' ++ after.flatten) = before ++ line' :: after := by
  obtain ⟨hb, ha⟩ := (h ▸ cut_lines bytes).split
  have hcut : Cut (before ++ line' :: after) := .append hb (.cons done ha)
  rw [← hcut.lines_flatten, List.flatten_append, List.flatten_cons, List.append_assoc]

/-- A line taken out, the others as they were. -/
theorem lines_remove {bytes : Bytes} {before after : List Bytes} {line : Bytes}
    (h : lines bytes = before ++ line :: after) :
    lines (before.flatten ++ after.flatten) = before ++ after := by
  obtain ⟨hb, ha⟩ := (h ▸ cut_lines bytes).split
  rw [← (Cut.append hb ha).lines_flatten, List.flatten_append]

/-! ## The end of a file -/

theorem isTerminated_iff {bytes : Bytes} :
    isTerminated bytes = true ↔ bytes = [] ∨ bytes.getLast? = some lineFeed := by
  rw [isTerminated, ← List.getLast?_eq_none_iff]
  cases bytes.getLast? with
  | none => exact iff_of_true rfl (.inl rfl)
  | some b => simp

/-- A file lacks a line feed if it has a last byte that is another. -/
theorem lacksLineFeed_iff {bytes : Bytes} :
    (!isTerminated bytes) = true ↔ bytes ≠ [] ∧ bytes.getLast? ≠ some lineFeed := by
  rw [Bool.not_eq_true', ← Bool.not_eq_true, isTerminated_iff, not_or]

/-- The file with a line feed behind a last line that has none. -/
def terminate (bytes : Bytes) : Bytes :=
  if isTerminated bytes then bytes else bytes ++ [lineFeed]

/-- Whether a file is terminated is told by its end. -/
theorem isTerminated_append {front last : Bytes} (ne : last ≠ []) :
    isTerminated (front ++ last) = isTerminated last := by
  rw [isTerminated, isTerminated, List.getLast?_append, List.getLast?_eq_some_getLast ne]
  rfl

private theorem isTerminated_of_notMem {last : Bytes} (ne : last ≠ []) (free : lineFeed ∉ last) :
    isTerminated last = false := by
  rw [isTerminated, List.getLast?_eq_some_getLast ne]
  have : last.getLast ne ≠ lineFeed := fun e => free (e ▸ List.getLast_mem ne)
  simpa using this

private theorem isTerminated_flatten {pieces : List Bytes} (h : ∀ l ∈ pieces, Terminated l) :
    isTerminated pieces.flatten := by
  rcases List.eq_nil_or_concat pieces with rfl | ⟨before, last, rfl⟩
  · rfl
  · obtain ⟨body, -, rfl⟩ := h last (by simp)
    rw [List.concat_eq_append, List.flatten_append, List.flatten_singleton,
      isTerminated_append (by simp), isTerminated_append (by simp)]
    rfl

/-- A file of terminated lines lacks no line feed. -/
theorem terminate_eq_self {bytes : Bytes} (all : ∀ l ∈ lines bytes, Terminated l) :
    terminate bytes = bytes := by
  have hterm : isTerminated bytes := by
    rw [← flatten_lines bytes]
    exact isTerminated_flatten all
  rw [terminate, if_pos hterm]

/-- Terminating a file completes its last line, if that lacks its line feed, and no other. -/
theorem lines_terminate (bytes : Bytes) :
    (lines (terminate bytes) = lines bytes ∨
      ∃ before last, lines bytes = before ++ [last] ∧
        lines (terminate bytes) = before ++ [last ++ [lineFeed]]) ∧
    ∀ l ∈ lines (terminate bytes), Terminated l := by
  rcases (cut_lines bytes).terminated_or with all | ⟨before, last, h, hb, ne, free⟩
  · rw [terminate_eq_self all]
    exact ⟨.inl rfl, all⟩
  · have hbytes : bytes = before.flatten ++ last := by
      rw [← flatten_lines bytes, h, List.flatten_append, List.flatten_singleton]
    have hterm : isTerminated bytes = false := by
      rw [hbytes, isTerminated_append ne, isTerminated_of_notMem ne free]
    -- with its line feed the last line is a piece like the others, so the cuts stay
    have hlast : Terminated (last ++ [lineFeed]) := ⟨last, free, rfl⟩
    have hcut : Cut (before ++ [last ++ [lineFeed]]) := .append hb (.cons hlast .nil)
    have hlines : lines (terminate bytes) = before ++ [last ++ [lineFeed]] := by
      rw [← hcut.lines_flatten, terminate, hterm, hbytes]
      simp
    rw [hlines]
    refine ⟨.inr ⟨before, last, h, rfl⟩, fun l hl => ?_⟩
    rcases List.mem_append.mp hl with hl | hl
    · exact hb l hl
    · exact List.mem_singleton.mp hl ▸ hlast

theorem isTerminated_terminate (bytes : Bytes) : isTerminated (terminate bytes) = true := by
  rw [terminate]
  by_cases h : isTerminated bytes = true
  · rw [if_pos h, h]
  · rw [if_neg h, isTerminated_append (by simp)]
    rfl

theorem terminate_terminate (bytes : Bytes) : terminate (terminate bytes) = terminate bytes := by
  rw [terminate, if_pos (isTerminated_terminate bytes)]

theorem map_terminate {ls : List Bytes} (all : ∀ l ∈ ls, Terminated l) :
    ls.map terminate = ls := by
  refine (List.map_congr_left fun l hl => ?_).trans (List.map_id' ls)
  obtain ⟨body, -, rfl⟩ := all l hl
  rw [terminate, isTerminated_append (by simp)]
  rfl

/-- Terminating a file terminates each of its lines. -/
theorem lines_terminate_eq_map (bytes : Bytes) :
    lines (terminate bytes) = (lines bytes).map terminate := by
  obtain ⟨same | ⟨before, last, h, ht⟩, all⟩ := lines_terminate bytes
  · rw [same] at all ⊢
    exact (map_terminate all).symm
  · rw [ht] at all ⊢
    have ne : last ≠ [] := ne_nil_of_mem_lines (h ▸ List.mem_append_right _ List.mem_cons_self)
    obtain ⟨body, free, hbody⟩ := all (last ++ [lineFeed]) (by simp)
    obtain rfl := List.append_cancel_right hbody
    have hlast : terminate last = last ++ [lineFeed] := by
      rw [terminate, isTerminated_of_notMem ne free]
      rfl
    rw [h, List.map_append, List.map_singleton, hlast,
      map_terminate fun l hl => all l (List.mem_append_left _ hl)]

/-- Text behind a line that is terminated is cut by itself. -/
theorem lines_append {front : Bytes} (done : isTerminated front = true) (back : Bytes) :
    lines (front ++ back) = lines front ++ lines back := by
  have hfront : terminate front = front := if_pos done
  have hcut : Cut (lines front ++ lines back) :=
    .append (hfront ▸ (lines_terminate front).2) (cut_lines back)
  rw [← hcut.lines_flatten, List.flatten_append, flatten_lines, flatten_lines]

/-- A line added behind a file whose last line is terminated. -/
theorem lines_terminate_append (bytes : Bytes) {line : Bytes} (done : Terminated line) :
    lines (terminate bytes ++ line) = lines (terminate bytes) ++ [line] := by
  have hcut : Cut (lines (terminate bytes) ++ [line]) :=
    .append (lines_terminate bytes).2 (.cons done .nil)
  rw [← hcut.lines_flatten, List.flatten_append, flatten_lines, List.flatten_singleton]

end RecordStore.Text
