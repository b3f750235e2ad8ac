import GolfAssist.Diagnostic
import GolfAssist.Proofs.Text.Encoding

/-!
# The order of a report

* `Diagnostic.Before` — what a report orders diagnostics by: their place, and the bytes of their
  messages where the places are the same.
* `Diagnostic.report_eq_of_sorted` — a report lists the diagnostics in that order.
* `Diagnostic.report_forgets_order` — so it does not depend on the order in which they come.

The order takes in all that a diagnostic is made of. Two diagnostics that each come before the other
are the same, hence there is only one way to sort them, and no tie that a sorting could break in its
own way.
-/

namespace GolfAssist.Diagnostic

open Text

/-- The diagnostic comes before the other one, or they are the same: it starts earlier, or it starts
where the other one does and ends earlier, or it is at the same place and the bytes of its message
are not greater. -/
def Before (a b : Diagnostic) : Prop :=
  a.span.start < b.span.start ∨ a.span.start = b.span.start ∧
    (a.span.stop < b.span.stop ∨ a.span.stop = b.span.stop ∧ bytes a.message ≤ bytes b.message)

/-- The comparison that a report is sorted with is that order. -/
theorem le_iff_before {a b : Diagnostic} : le a b = true ↔ a.Before b := by
  unfold le Before
  rw [bytes_le_iff]
  split_ifs with hstart hstop
  · simp [hstart]
  · simp [not_not.mp hstart, hstop]
  · simp [not_not.mp hstart, not_not.mp hstop]

/-- Two diagnostics that come before each other are the same. -/
theorem Before.antisymm {a b : Diagnostic} (h : a.Before b) (h' : b.Before a) : a = b := by
  obtain ⟨message, ⟨start, stop⟩⟩ := a
  obtain ⟨message', ⟨start', stop'⟩⟩ := b
  simp only [Before, bytes_le_iff] at h h'
  obtain rfl : start = start' := by omega
  obtain rfl : stop = stop' := by omega
  simp only [Nat.lt_irrefl, false_or, true_and] at h h'
  rw [le_antisymm h h']

/-- Coming before is transitive. -/
theorem Before.trans {a b c : Diagnostic} (h : a.Before b) (h' : b.Before c) : a.Before c := by
  simp only [Before, bytes_le_iff] at h h' ⊢
  rcases h with h | ⟨h, h₂ | ⟨h₂, h₃⟩⟩ <;> rcases h' with h' | ⟨h', h₂' | ⟨h₂', h₃'⟩⟩
  case inr.inr.inr.inr =>
    exact .inr ⟨h.trans h', .inr ⟨h₂.trans h₂', h₃.trans h₃'⟩⟩
  all_goals omega

/-- Of two diagnostics one comes before the other. -/
theorem Before.total (a b : Diagnostic) : a.Before b ∨ b.Before a := by
  simp only [Before, bytes_le_iff]
  rcases le_total a.message b.message with h | h
  · simp only [h, and_true]
    omega
  · simp only [h, and_true]
    omega

/-- The diagnostics of a report, sorted. -/
theorem mergeSort_pairwise (ds : List Diagnostic) : (ds.mergeSort le).Pairwise Before := by
  have hsorted : (ds.mergeSort le).Pairwise fun a b => le a b = true := by
    apply List.pairwise_mergeSort
    · intro a b c hab hbc
      exact le_iff_before.mpr ((le_iff_before.mp hab).trans (le_iff_before.mp hbc))
    · intro a b
      rw [Bool.or_eq_true, le_iff_before, le_iff_before]
      exact Before.total a b
  exact hsorted.imp le_iff_before.mp

/-- **A report lists the diagnostics in order.** However they are brought into order, the report is
made of the lines for each of them, one after the other. -/
theorem report_eq_of_sorted {source : String} {ds sorted : List Diagnostic} (hperm : sorted.Perm ds)
    (hsorted : sorted.Pairwise Before) :
    report source ds = String.join (sorted.map (lines (lineStarts source.toList))) := by
  have hsame : ds.mergeSort le = sorted :=
    ((List.mergeSort_perm ds le).trans hperm.symm).eq_of_pairwise
      (fun _ _ _ _ hab hba => hab.antisymm hba) (mergeSort_pairwise ds) hsorted
  rw [report, hsame]

/-- The two lines of a diagnostic: the message, and the position and the span that it is about. -/
theorem lines_lineStarts (source : String) (d : Diagnostic) :
    lines (lineStarts source.toList) d =
      "error: " ++ d.message ++ "\n" ++
        "  --> <input>:" ++ toString (position source.toList d.span.start).line ++ ":" ++
          toString (position source.toList d.span.start).column ++
          " [" ++ toString d.span.start ++ ".." ++ toString d.span.stop ++ "]\n" := by
  have hbreak : "error: " ++ d.message ++ "\n" ++ "  --> <input>:" =
      "error: " ++ d.message ++ "\n  --> <input>:" := String.append_assoc
  rw [hbreak]
  rfl

/-- **A report does not depend on the order in which diagnostics are found.** Two lists with the
same diagnostics, in whatever order, have the same report. It is made of two lines for each
diagnostic, with the diagnostics ordered by start, by end and by the bytes of the message. -/
theorem report_forgets_order (source : String) {ds ds' : List Diagnostic} (hperm : ds.Perm ds') :
    report source ds = report source ds' ∧
      ∃ sorted : List Diagnostic, sorted.Perm ds ∧ sorted.Pairwise Before ∧
        report source ds = String.join (sorted.map fun d =>
          "error: " ++ d.message ++ "\n" ++
            "  --> <input>:" ++ toString (position source.toList d.span.start).line ++ ":" ++
              toString (position source.toList d.span.start).column ++
              " [" ++ toString d.span.start ++ ".." ++ toString d.span.stop ++ "]\n") := by
  have hsorted := mergeSort_pairwise ds
  have hmerge := List.mergeSort_perm ds le
  refine ⟨?_, ds.mergeSort le, hmerge, hsorted, ?_⟩
  · rw [report_eq_of_sorted hmerge hsorted, report_eq_of_sorted (hmerge.trans hperm) hsorted]
  · rw [report_eq_of_sorted hmerge hsorted]
    exact congrArg String.join (List.map_congr_left fun d _ => lines_lineStarts source d)

/-- Two messages about one place behind the source, found in one order and in the other. -/
theorem report_forgets_order_tie :
    [⟨"b", ⟨7, 7⟩⟩, ⟨"a", ⟨7, 7⟩⟩].Perm [(⟨"a", ⟨7, 7⟩⟩ : Diagnostic), ⟨"b", ⟨7, 7⟩⟩] ∧
      report "x\ny" [⟨"b", ⟨7, 7⟩⟩, ⟨"a", ⟨7, 7⟩⟩] =
        report "x\ny" [⟨"a", ⟨7, 7⟩⟩, ⟨"b", ⟨7, 7⟩⟩] ∧
      report "x\ny" [⟨"b", ⟨7, 7⟩⟩, ⟨"a", ⟨7, 7⟩⟩] =
        "error: a\n  --> <input>:2:6 [7..7]\nerror: b\n  --> <input>:2:6 [7..7]\n" := by
  have hperm : [⟨"b", ⟨7, 7⟩⟩, ⟨"a", ⟨7, 7⟩⟩].Perm
      [(⟨"a", ⟨7, 7⟩⟩ : Diagnostic), ⟨"b", ⟨7, 7⟩⟩] := .swap _ _ _
  have hsorted : [(⟨"a", ⟨7, 7⟩⟩ : Diagnostic), ⟨"b", ⟨7, 7⟩⟩].Pairwise Before :=
    List.pairwise_pair.mpr (le_iff_before.mp (by decide))
  refine ⟨hperm, (report_forgets_order "x\ny" hperm).1, ?_⟩
  rw [report_eq_of_sorted hperm.symm hsorted]
  decide

end GolfAssist.Diagnostic
