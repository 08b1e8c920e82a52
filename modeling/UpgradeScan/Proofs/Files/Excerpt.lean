/-
`Proofs/Files/Excerpt.lean` -- an excerpt shows the lines that are shown one by one.

A finding names a line of a file, and a report shows either that line or some lines around it. The
two are computed in different ways. A single line is looked up by its number. An excerpt is cut out
by how many lines to leave out and how many to keep, and the two numbers are sums of machine words,
which stop at the largest one. Whether both show the same lines is a question about the arithmetic
at the ends: before the first line, behind the last one, and where a sum would not fit.

They do (`linesAround_eq_lines`). Leaving out more lines than there are leaves none, and keeping
more than are left keeps what is left. A sum that was cut at the largest word is still longer than
what is left of the file, since no file has more lines than a word can count (`min_windowSize`). So
an excerpt is the list of its lines, numbered from the first that it shows.

Both work on the same lines: the file up to the first line that is no text, with what ends a line
cut off. The line that was asked for is among those of the excerpt when the file has it, and in a
window of one line it is the only one.
-/
import UpgradeScan.Files.Excerpt
import Mathlib.Data.List.Basic

set_option autoImplicit false

namespace UpgradeScan.Disk

/-! ## 1. Numbered lines

The numbers of the lines that an excerpt shows, as a stretch of consecutive numbers. -/

/-- The numbers of the lines around a line, in a file of that many lines. -/
def numbersAround (count line before after : Nat) : List Nat :=
  let above := line - 1 - before
  List.range' (above + 1) (min (above + before + after + 1) count - above)

/-- Lines are counted from one; a line that is not there is shown as an empty text. -/
theorem lineAt_succ (d : Disk) (p : Path) (i : Nat) :
    d.lineAt p (i + 1) = String.ofList (((d.sourceLines p)[i]?).getD []) := by
  rw [lineAt, if_neg (Nat.succ_ne_zero i), Nat.add_sub_cancel]

/-- A part of a list, item after item. -/
theorem take_drop_eq_map_range' (ls : List (List Char)) (above size : Nat) :
    (ls.drop above).take size =
      (List.range' above (min size (ls.length - above))).map fun i => (ls[i]?).getD [] := by
  refine List.ext_getElem (by simp) fun i h _ => ?_
  rw [List.length_take, List.length_drop] at h
  have hi : above + i < ls.length := by omega
  simp [List.getElem?_eq_getElem hi]

/-- The lines with consecutive numbers, in the words of the two ways to show them. -/
theorem intercalate_lineAt (d : Disk) (p : Path) (above size : Nat) :
    String.ofList (Text.join ['\n'] (((d.sourceLines p).drop above).take size)) =
      "\n".intercalate ((List.range' (above + 1)
        (min size ((d.sourceLines p).length - above))).map (d.lineAt p)) := by
  rw [← String.toList_inj, String.toList_ofList, String.toList_intercalate,
    Text.join_eq_intercalate, take_drop_eq_map_range', List.range'_succ_left, List.map_map,
    List.map_map]
  refine congrArg _ (List.map_congr_left fun i _ => ?_)
  rw [Function.comp_apply, Function.comp_apply, lineAt_succ, String.toList_ofList]

/-! ## 2. Words that stop at their largest

Sums of words. Nothing is known of the words but that they are words, so the sums may stop anywhere.
-/

theorem addWords_le (a b : Nat) : addWords a b ≤ maxWord := Nat.min_le_right ..

/-- What is kept of a file does not depend on where the sums stop. -/
theorem min_windowSize {left : Nat} (h : left ≤ maxWord) (before after : Nat) :
    min (windowSize before after) left = min (before + after + 1) left := by
  rw [windowSize, addWords, addWords]
  omega

/-! ## 3. Excerpts

Both ways to show lines, compared. -/

/-- **Excerpts.** An excerpt of a file is the list of the lines around a line, each as it is
shown alone. No number on the way is larger than a word. The line itself is among them when the
file has it, their number is that of the window or of what is left of the file, and the window
of one line is that line. A file that cannot be read has no lines. -/
theorem linesAround_eq_lines (d : Disk) (p : Path) {line : Nat} (before after : Nat)
    (hfirst : 1 ≤ line) (hline : line < Nat.pow 2 64)
    (hfile : (d.sourceLines p).length < Nat.pow 2 64) :
    let count := (d.sourceLines p).length
    let above := line - 1 - before
    let shown := numbersAround count line before after
    d.linesAround p line before after = "\n".intercalate (shown.map (d.lineAt p)) ∧
    (linesAbove line before < Nat.pow 2 64 ∧ windowSize before after < Nat.pow 2 64) ∧
    (line ≤ count → line ∈ shown ∧ shown.length = min (before + after + 1) (count - above)) ∧
    d.linesAround p line 0 0 = d.lineAt p line := by
  intro count above shown
  have hword : maxWord + 1 = Nat.pow 2 64 := by decide
  -- the same lines for any window around the line
  have hexcerpt (before after : Nat) : d.linesAround p line before after =
      "\n".intercalate ((numbersAround count line before after).map (d.lineAt p)) := by
    rw [linesAround, intercalate_lineAt, linesAbove, min_windowSize (by omega), numbersAround]
    congr 3
    omega
  refine ⟨hexcerpt before after, ⟨?_, ?_⟩, fun hcount => ⟨?_, ?_⟩, ?_⟩
  · rw [linesAbove]
    omega
  · have hsize : windowSize before after ≤ maxWord := addWords_le _ 1
    omega
  · rw [show shown = numbersAround count line before after from rfl, numbersAround,
      List.mem_range'_1]
    omega
  · rw [show shown = numbersAround count line before after from rfl, numbersAround,
      List.length_range']
    omega
  · rw [hexcerpt]
    by_cases hcount : line ≤ count
    · have hone : numbersAround count line 0 0 = [line] := by
        rw [numbersAround, show min (line - 1 - 0 + 0 + 0 + 1) count - (line - 1 - 0) = 1 by omega,
          List.range'_one, show line - 1 - 0 + 1 = line by omega]
      rw [hone]
      rfl
    · have hnone : numbersAround count line 0 0 = [] := by
        rw [numbersAround, List.range'_eq_nil_iff]
        omega
      rw [hnone, ← Nat.sub_add_cancel hfirst, lineAt_succ, List.getElem?_eq_none (by omega)]
      rfl

/-- A window of the largest words around the second line shows the two lines that stand before
bytes that are no text. -/
theorem linesAround_eq_lines_largest :
    let d : Disk := ⟨.folder [("a.php", .file
      (Text.Utf8.encode "one\r\n  two \n".toList ++ [0xFF, 0x0A] ++
        Text.Utf8.encode "four".toList))], []⟩
    (d.sourceLines ⟨"/a.php"⟩).length = 2 ∧ 1 ≤ 2 ∧ 2 < Nat.pow 2 64 ∧
    2 ∈ numbersAround 2 2 maxWord maxWord ∧
    d.linesAround ⟨"/a.php"⟩ 2 maxWord maxWord = "\n".intercalate ["one", "two"] ∧
    d.linesAround ⟨"/a.php"⟩ 2 0 0 = "two" := by
  intro d
  have hcount : (d.sourceLines ⟨"/a.php"⟩).length = 2 := by decide +kernel
  have hlines : [1, 2].map (d.lineAt ⟨"/a.php"⟩) = ["one", "two"] := by decide +kernel
  have hnumbers : numbersAround 2 2 maxWord maxWord = [1, 2] := by decide +kernel
  obtain ⟨hexcerpt, -, hcontains, hsingle⟩ := linesAround_eq_lines d ⟨"/a.php"⟩ maxWord maxWord
    (by decide : 1 ≤ 2) (by decide) (by rw [hcount]; decide)
  rw [hcount] at hexcerpt hcontains
  refine ⟨hcount, by decide, by decide, (hcontains (by decide)).1, ?_, ?_⟩
  · rw [hexcerpt, hnumbers, hlines]
  · rw [hsingle]
    exact (List.cons.inj (List.cons.inj hlines).2).1

end UpgradeScan.Disk
