import Mathlib.Control.Monad.Basic
import ThreeAddress.Proofs.Fate

namespace ThreeAddress

namespace Batch

variable {o : Options} {input : Path} {w w' : World}

theorem overwrites_of_written (h : ((fate o w input).written? o).isSome) :
    overwrites o input = false := by
  cases hskip : overwrites o input with
  | false => rfl
  | true =>
    rw [fate, if_pos hskip] at h
    cases h

theorem Handled.lookup {path : Path} (h : Handled o input (fate o w input) w w')
    (hpath : overwrites o input = false → w.files.place path ≠ w.files.place (outputPath o input))
    {node : FileNode} (hnode : w.files.lookup path = .ok node) :
    w'.files.lookup path = .ok node := by
  obtain ⟨hdirectories, hkept⟩ := h.files.kept
  have hplace := hkept (w.files.place path) fun hwritten => hpath (overwrites_of_written hwritten)
  rwa [hdirectories.lookup_eq_ok_iff hplace]

theorem lookup_run {files : List Path} {path : Path}
    (hpath : ∀ input ∈ files, overwrites o input = false →
      w.files.place path ≠ w.files.place (outputPath o input))
    {node : FileNode} (hnode : w.files.lookup path = .ok node) (status : Nat) :
    (run o files status w).2.files.lookup path = .ok node := by
  induction files generalizing w status with
  | nil => exact hnode
  | cons input rest ih =>
    obtain ⟨w', hhandled, hrun⟩ := run_cons o input rest status w
    obtain ⟨hinput, hrest⟩ := List.forall_mem_cons.mp hpath
    have hnext := hhandled.lookup hinput hnode
    rw [hrun, proceed]
    split
    · exact hnext
    · refine ih ?_ hnext _
      simpa only [hhandled.files.kept.1.place_eq] using hrest

end Batch

/-- A batch leaves every file as it is that no other of its arguments has for its output. An
argument is also safe from its own output, as far as the two paths can be compared. -/
theorem Command.run_keeps_files {arguments : List Bytes} {o : Options} {files : List Path}
    (hparse : Options.parse {} arguments = .ok (o, files)) (hbatch : o.interactive = false)
    (input : Source) (w : World) {path : Path} {content : Bytes}
    (hcontent : w.files.lookup path = .ok (.file content))
    (hothers : ∀ other ∈ files, w.files.place other ≠ w.files.place path →
      w.files.place (Batch.outputPath o other) ≠ w.files.place path)
    (hown : ∀ own ∈ files, w.files.place own = w.files.place path →
      own.Comparable (Batch.outputPath o own)) :
    (run arguments input w).2.files.lookup path = .ok (.file content) := by
  by_cases hfiles : files = []
  · subst hfiles
    simp only [run, hparse, hbatch]
    exact hcontent
  rw [run_batch hparse hbatch hfiles]
  refine Batch.lookup_run (w := w.complain signature) ?_ hcontent 0
  intro other hother hskip hplace
  by_cases hsame : w.files.place other = w.files.place path
  · -- The output has the name of the file itself, so the file is skipped.
    have hclean : Path.clean other = Path.clean (Batch.outputPath o other) :=
      FileTree.clean_eq_of_place (hown other hother hsame) (hsame.trans hplace)
    have hoverwrites : Batch.overwrites o other = true := decide_eq_true hclean.symm
    rw [hoverwrites] at hskip
    cases hskip
  · exact hothers other hother hsame hplace.symm

/-- Three arguments, of which one is skipped and the others have their own outputs. One of these
starts at the root and goes through the working directory. -/
theorem Command.run_keeps_files_of_three :
    let path : Path := utf8 "d/../c.tac"
    let arguments : List Path := [utf8 "/work/a.txt", path, utf8 "d/b.txt"]
    let content := utf8 "PROGRAM z = 3 END."
    let files := (FileTree.addFile {} (utf8 "a.txt") (utf8 "PROGRAM x = 1 END.")).addFile
      (utf8 "d/b.txt") (utf8 "PROGRAM y = ) END.")
    let w : World := { files := files.addFile path content }
    Options.parse {} arguments = .ok ({}, arguments) ∧
      w.files.lookup path = .ok (.file content) ∧
      (∀ other ∈ arguments, w.files.place other ≠ w.files.place path →
        w.files.place (Batch.outputPath {} other) ≠ w.files.place path) ∧
      (∀ own ∈ arguments, w.files.place own = w.files.place path →
        own.Comparable (Batch.outputPath {} own)) ∧
      (run arguments [] w).2.files.lookup path = .ok (.file content) := by
  intro path arguments content files w
  have hparse : Options.parse {} arguments = .ok ({}, arguments) := rfl
  have hcontent : w.files.lookup path = .ok (.file content) := by decide +kernel
  have hothers : ∀ other ∈ arguments, w.files.place other ≠ w.files.place path →
      w.files.place (Batch.outputPath {} other) ≠ w.files.place path := by decide +kernel
  have hown : ∀ own ∈ arguments, w.files.place own = w.files.place path →
      own.Comparable (Batch.outputPath {} own) := by decide +kernel
  exact ⟨hparse, hcontent, hothers, hown,
    run_keeps_files hparse rfl [] w hcontent hothers hown⟩

-- An output that leads out of the working directory and back is not compared with its file.
example :
    let files := (FileTree.addDirectory {} (utf8 "a")).addFile (utf8 "a.txt")
      (utf8 "PROGRAM x = 1 END.")
    (Command.run [utf8 "-ext", utf8 "/../../work/a.txt", utf8 "a.txt"] [] { files }).2.files.lookup
      (utf8 "a.txt") = .ok (.file (utf8 "MOV, 1, x\n")) := by
  decide +kernel

/-- The second argument of this batch is the output of the first, and its content is lost. -/
theorem Command.run_overwrites_argument :
    let arguments := [utf8 "a.txt", utf8 "a.tac"]
    let files := (FileTree.addFile {} (utf8 "a.txt") (utf8 "PROGRAM x = 1 END.")).addFile
      (utf8 "a.tac") (utf8 "PROGRAM y = 2 END.")
    let w : World := { files }
    Options.parse {} arguments = .ok ({}, arguments) ∧
      w.files.lookup (utf8 "a.tac") = .ok (.file (utf8 "PROGRAM y = 2 END.")) ∧
      (run arguments [] w).2.files.lookup (utf8 "a.tac") = .ok (.file (utf8 "MOV, 1, x\n")) := by
  intro arguments files w
  exact ⟨rfl, by decide +kernel, by decide +kernel⟩

end ThreeAddress
