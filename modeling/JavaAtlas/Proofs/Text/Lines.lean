import Mathlib.Algebra.GroupWithZero.Nat
import JavaAtlas.Text.Lines
import JavaAtlas.Text.Blank
import JavaAtlas.Text.Pieces

/-!
# Counting lines

A text that is put together from lines has as many lines as were put in, plus
the line ends that the lines themselves contain.  So the number of lines tells
whether some line was broken by what stands in it.

Main results:

- Theorem `lineCount_ended`: the number of lines of lines that are ended one by
  one.
- Theorem `pieces_ended`: lines that hold no line end come back from their text.
- Theorem `withLineFeeds_eq_self`: a text without carriage returns stays as it is.
-/

namespace JavaAtlas.Text

/-- Number of line ends in a text. -/
def breaks (s : String) : Nat :=
  s.toList.count '\n'

theorem breaks_eq_zero {s : String} : breaks s = 0 ↔ '\n' ∉ s.toList :=
  List.count_eq_zero

@[simp]
theorem breaks_empty : breaks "" = 0 := rfl

@[simp]
theorem breaks_append (s t : String) : breaks (s ++ t) = breaks s + breaks t := by
  simp [breaks]

/-- Texts together have no line end if and only if none of them has one. -/
theorem sum_breaks_eq_zero {ls : List String} :
    (ls.map breaks).sum = 0 ↔ ∀ l ∈ ls, breaks l = 0 := by
  simp [List.sum_eq_zero_iff_forall_eq_nat]

/-- A character that is in none of the texts and not in the separator is not in the texts with
the separator between. -/
theorem not_mem_intercalate {c : Char} {sep : String} (hsep : c ∉ sep.toList) {ls : List String}
    (hls : ∀ l ∈ ls, c ∉ l.toList) : c ∉ (sep.intercalate ls).toList := by
  induction ls with
  | nil => exact List.not_mem_nil
  | cons l ls ih =>
      have hl := hls l List.mem_cons_self
      have hrest := ih fun m hm => hls m (List.mem_cons_of_mem l hm)
      cases ls with
      | nil => simpa using hl
      | cons m ms =>
          rw [String.intercalate_cons_cons, String.toList_append, String.toList_append]
          simp only [List.mem_append, hl, hsep, hrest, or_self, not_false_eq_true]

/-- Texts with a separator between have no line ends if none of them and not the
separator has one. -/
theorem breaks_intercalate {sep : String} (hsep : breaks sep = 0) {ls : List String}
    (hls : ∀ l ∈ ls, breaks l = 0) : breaks (sep.intercalate ls) = 0 :=
  breaks_eq_zero.mpr <| not_mem_intercalate (breaks_eq_zero.mp hsep) fun l hl =>
    breaks_eq_zero.mp (hls l hl)

/-- The lines in a row, each with its end. -/
def ended (ls : List String) : String :=
  String.join (ls.map (· ++ "\n"))

theorem breaks_ended (ls : List String) :
    breaks (ended ls) = (ls.map breaks).sum + ls.length := by
  induction ls with
  | nil => rfl
  | cons l ls ih =>
      have hcons : ended (l :: ls) = (l ++ "\n") ++ ended ls := by
        simp [ended, String.join_cons]
      have hend : breaks "\n" = 1 := by decide
      simp only [hcons, breaks_append, ih, hend, List.map_cons, List.sum_cons, List.length_cons]
      omega

private theorem getLast?_ended (ls : List String) (hls : ls ≠ []) :
    (ended ls).toList.getLast? = some '\n' := by
  induction ls with
  | nil => exact absurd rfl hls
  | cons l ls ih =>
      have hcons : (ended (l :: ls)).toList = l.toList ++ '\n' :: (ended ls).toList := by
        simp [ended, String.join_cons]
      rw [hcons]
      cases ls with
      | nil => simp [ended]
      | cons m ms =>
          have hlast := ih (by simp)
          rw [List.getLast?_append, List.getLast?_cons, hlast]
          rfl

/-- Lines that are ended one by one make a text of so many lines, plus the line
ends inside them. -/
theorem lineCount_ended (ls : List String) :
    lineCount (ended ls) = ls.length + (ls.map breaks).sum := by
  have hbreaks : (ended ls).toList.count '\n' = (ls.map breaks).sum + ls.length :=
    breaks_ended ls
  cases ls with
  | nil => rfl
  | cons l ls =>
      have hlast := getLast?_ended (l :: ls) (by simp)
      simp only [lineCount, hbreaks, hlast]
      simp
      omega

/-- Lines that hold no line end come back from their text, and nothing is behind them. -/
theorem pieces_ended {ls : List String} (h : ∀ l ∈ ls, breaks l = 0) :
    pieces '\n' (ended ls).toList = ls.map String.toList ++ [[]] := by
  induction ls with
  | nil => rfl
  | cons l ls ih =>
      have hcons : (ended (l :: ls)).toList = l.toList ++ '\n' :: (ended ls).toList := by
        simp [ended, String.join_cons]
      have hl : '\n' ∉ l.toList := breaks_eq_zero.mp (h l List.mem_cons_self)
      rw [hcons, pieces_append_cons hl, ih fun m hm => h m (List.mem_cons_of_mem l hm)]
      rfl

/-! ## One kind of line end -/

theorem unifyLineEnds_eq_self {cs : List Char} (h : '\r' ∉ cs) : unifyLineEnds cs = cs := by
  induction cs with
  | nil => rfl
  | cons c cs ih =>
      have hc : c ≠ '\r' := (List.ne_of_not_mem_cons h).symm
      rw [unifyLineEnds, if_neg hc, ih (List.not_mem_of_not_mem_cons h)]
      rintro rest rfl
      exact absurd rfl hc

/-- A text without carriage returns stays as it is. -/
theorem withLineFeeds_eq_self {s : String} (h : '\r' ∉ s.toList) : withLineFeeds s = s := by
  rw [withLineFeeds, unifyLineEnds_eq_self h, String.ofList_toList]

end JavaAtlas.Text
