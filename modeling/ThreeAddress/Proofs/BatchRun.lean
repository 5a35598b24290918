import Mathlib.Data.List.Forall2
import ThreeAddress.Proofs.Fate

namespace ThreeAddress

namespace Batch

/-- Neither file is in the way of the code of the other. -/
def Apart (o : Options) (p q : Path) : Prop :=
  Path.clean (outputPath o p) ≠ Path.clean q ∧ Path.clean (outputPath o q) ≠ Path.clean p ∧
    Path.clean (outputPath o p) ≠ Path.clean (outputPath o q)

instance (o : Options) (p q : Path) : Decidable (Apart o p q) :=
  inferInstanceAs (Decidable (_ ∧ _ ∧ _))

theorem Apart.place_ne {o : Options} {p q : Path} (h : Apart o p q)
    (hp : (outputPath o p).Inside) (hq : q.Inside ∧ (outputPath o q).Inside) (t : FileTree) :
    t.place (outputPath o p) ≠ t.place q ∧ t.place (outputPath o p) ≠ t.place (outputPath o q) :=
  ⟨fun hplace => h.1 (FileTree.clean_eq_of_place (.inr ⟨hp, hq.1⟩) hplace),
    fun hplace => h.2.2 (FileTree.clean_eq_of_place (.inr ⟨hp, hq.2⟩) hplace)⟩

def reached (x : Path → Fate) (files : List Path) : List Path :=
  files.take (files.findIdx (fun input => (x input).fatal) + 1)

theorem reached_cons (x : Path → Fate) (input : Path) (rest : List Path) :
    reached x (input :: rest) = input :: if (x input).fatal then [] else reached x rest := by
  cases h : (x input).fatal <;> simp [reached, List.findIdx_cons, h]

structure Done (o : Options) (x : Path → Fate) (files : List Path) (w w' : World) : Prop where
  /-- Every file has its report on standard error. -/
  told : ∃ reports, List.Forall₂ (fun input => (x input).Told o w.files input) files reports ∧
    w'.errorText = w.errorText ++ reports.flatten
  /-- Every file has its two lines on standard output. -/
  printed : w'.out = files.foldl (fun out input =>
    (out.write (title input ++ [Bytes.newline])).write (separator ++ [Bytes.newline])) w.out
  /-- The code of every file is in its output. -/
  written : ∀ input ∈ files, ∀ code, (x input).written? o = some code →
    w'.files.lookup (outputPath o input) = .ok (.file code)
  /-- Nothing changes but these outputs. -/
  kept : ∀ l, (∀ input ∈ files, ((x input).written? o).isSome →
    l ≠ w.files.place (outputPath o input)) → w'.files.get? l = w.files.get? l
  directories : w.files.SameDirectories w'.files

variable {o : Options} {x : Path → Fate} {w w' w'' : World} {input : Path} {rest : List Path}

theorem Done.nil (o : Options) (x : Path → Fate) (w : World) : Done o x [] w w where
  told := ⟨[], .nil, (List.append_nil _).symm⟩
  printed := rfl
  written := nofun
  kept := fun _ _ => rfl
  directories := .refl _

theorem Done.cons (h : Handled o input (x input) w w') (hd : Done o x rest w' w'')
    (hapart : ∀ other ∈ rest,
      w.files.place (outputPath o input) ≠ w.files.place (outputPath o other)) :
    Done o x (input :: rest) w w'' := by
  obtain ⟨report, htold, herror⟩ := h.told
  obtain ⟨reports, htolds, herrors⟩ := hd.told
  obtain ⟨hdirectories, hkept⟩ := h.files.kept
  have htolds' := htolds.imp fun _ _ => Fate.Told.congr hdirectories
  refine ⟨⟨report :: reports, .cons htold htolds', ?_⟩, ?_, ?_, ?_, ?_⟩
  · rw [herrors, herror, List.append_assoc, List.flatten_cons]
  · rw [hd.printed, h.printed, List.foldl_cons]
  · apply List.forall_mem_cons.mpr ⟨?_, hd.written⟩
    intro code hcode
    have hwrite := h.files
    rw [Fate.Writes, hcode] at hwrite
    have hplace : w''.files.get? (w'.files.place (outputPath o input)) =
        w'.files.get? (w'.files.place (outputPath o input)) := by
      apply hd.kept
      intro other hother _
      rw [hdirectories.place_eq, hdirectories.place_eq]
      exact hapart other hother
    rw [hd.directories.lookup_eq_ok_iff hplace]
    exact FileTree.lookup_write_self hwrite
  · intro l hl
    obtain ⟨hinput, hrest⟩ := List.forall_mem_cons.mp hl
    refine (hd.kept l fun other hother hwritten => ?_).trans (hkept l hinput)
    rw [hdirectories.place_eq]
    exact hrest other hother hwritten
  · exact hdirectories.trans hd.directories

theorem fate_congr (hdirectories : w.files.SameDirectories w'.files)
    (hplace : w'.files.get? (w.files.place input) = w.files.get? (w.files.place input)) :
    fate o w' input = fate o w input := by
  have hlookup : ∀ node, w'.files.lookup input = .ok node ↔ w.files.lookup input = .ok node :=
    fun _ => hdirectories.lookup_eq_ok_iff hplace
  have hwritable : (w'.files.write (outputPath o input) []).isOk =
      (w.files.write (outputPath o input) []).isOk := by
    rw [Bool.eq_iff_iff, isOk_write_iff, isOk_write_iff]
    exact ⟨hdirectories.symm.takes, hdirectories.takes⟩
  rw [fate, fate, hwritable, World.openSource, World.openSource]
  cases h : w.files.lookup input with
  | ok node => rw [(hlookup node).mpr h]
  | error e =>
    cases h' : w'.files.lookup input with
    | ok node =>
      rw [(hlookup node).mp h'] at h
      cases h
    | error e' => rfl

theorem Fate.not_succeeds_of_fatal {y : Fate} (h : y.fatal = true) : y.succeeds = false := by
  cases y with
  | skipped => cases h
  | unopened => rfl
  | translated source writable =>
    rw [succeeds]
    rw [fatal] at h
    cases hanswer : (translate source).1 with
    | error f => rfl
    | ok =>
      rw [hanswer] at h
      cases writable
      · rfl
      · cases h

/-- Files that are apart have the fates that they have at the start, and the batch deals with them
one after the other. -/
theorem run_of_apart {files : List Path}
    (hapart : files.Pairwise fun p q =>
      w.files.place (outputPath o p) ≠ w.files.place q ∧
        w.files.place (outputPath o p) ≠ w.files.place (outputPath o q))
    (hx : ∀ input ∈ files, fate o w input = x input) (status : Nat) :
    (run o files status w).1 = (if (reached x files).all fun input => (x input).succeeds
        then status else 1) ∧
      Done o x (reached x files) w (run o files status w).2 := by
  induction files generalizing w status with
  | nil => exact ⟨rfl, .nil o x w⟩
  | cons input rest ih =>
    obtain ⟨hinput, hrest⟩ := List.pairwise_cons.mp hapart
    obtain ⟨hfate, hfates⟩ := List.forall_mem_cons.mp hx
    obtain ⟨w', hhandled, hrun⟩ := run_cons o input rest status w
    rw [hfate] at hhandled hrun
    rw [hrun, reached_cons, proceed]
    cases hfatal : (x input).fatal with
    | true =>
      refine ⟨?_, .cons hhandled (.nil o x w') (List.forall_mem_nil _)⟩
      simp [Fate.not_succeeds_of_fatal hfatal]
    | false =>
      -- The step has left the other files of the batch as they were.
      obtain ⟨hdirectories, hkept⟩ := hhandled.files.kept
      have hx' : ∀ other ∈ rest, fate o w' other = x other := by
        intro other hother
        rw [← hfates other hother]
        apply fate_congr hdirectories
        apply hkept
        intro _ hplace
        exact (hinput other hother).1 hplace.symm
      have hrest' : rest.Pairwise fun p q =>
          w'.files.place (outputPath o p) ≠ w'.files.place q ∧
            w'.files.place (outputPath o p) ≠ w'.files.place (outputPath o q) := by
        simpa only [hdirectories.place_eq] using hrest
      obtain ⟨hstatus, hdone⟩ := ih hrest' hx' (if (x input).succeeds then status else 1)
      refine ⟨?_, .cons hhandled ?_ ?_⟩
      · simp only [Bool.false_eq_true, if_false, hstatus, List.all_cons]
        cases (x input).succeeds <;> simp
      · exact hdone
      · exact fun other hmem => (hinput other (List.mem_of_mem_take hmem)).2

end Batch

/-- A batch of files that are apart translates each of them by itself, up to the first fatal one.
The outputs get the code of the files as they are before, nothing else changes, and the status
tells whether all went well. -/
theorem Command.run_translates_each_file {arguments : List Bytes} {o : Options}
    {files : List Path} (hparse : Options.parse {} arguments = .ok (o, files))
    (hbatch : o.interactive = false) (hfiles : files ≠ [])
    (hinside : ∀ file ∈ files, file.Inside ∧ (Batch.outputPath o file).Inside)
    (hapart : files.Pairwise (Batch.Apart o)) (input : Source) (w : World) :
    let x := Batch.fate o w
    let done := Batch.reached x files
    (run arguments input w).1 = (if done.all fun input => (x input).succeeds then 0 else 1) ∧
      Batch.Done o x done (w.complain signature) (run arguments input w).2 := by
  intro x done
  rw [run_batch hparse hbatch hfiles]
  refine Batch.run_of_apart (hapart.imp_of_mem fun hp hq h => ?_) (fun _ _ => rfl) 0
  exact h.place_ne (hinside _ hp).2 (hinside _ hq) _

/-- Of these files the first is translated, the second is skipped, the third is rejected, the fourth
is not there, and the fifth is not reached. -/
theorem Command.run_translates_each_file_of_five :
    let names : List Path :=
      [utf8 "a.txt", utf8 "b.tac", utf8 "d/../c.txt", utf8 "x.txt", utf8 "e.txt"]
    let o : Options := { resolve := true }
    let first := FileTree.addFile {} (utf8 "a.txt") (utf8 "PROGRAM WHILE x < 1 DO x = 2 END.")
    let second := first.addFile (utf8 "b.tac") (utf8 "PROGRAM y = 2 END.")
    let third := second.addFile (utf8 "d/../c.txt") (utf8 "PROGRAM IF x < 1 THEN x = ) END.")
    let w : World := { files := third.addFile (utf8 "e.txt") (utf8 "PROGRAM z = 3 END.") }
    let after := run (utf8 "-resolve" :: names) [] w
    (∀ file ∈ names, file.Inside ∧ (Batch.outputPath o file).Inside) ∧
      names.Pairwise (Batch.Apart o) ∧ Batch.reached (Batch.fate o w) names = names.take 4 ∧
      after.1 = 1 ∧
      after.2.files.lookup (utf8 "a.tac") =
        .ok (.file (utf8 "TST, x, 1, 1, 3\nJMP, 5\nMOV, 2, x\nJMP, 1\nHALT\n")) ∧
      after.2.files.lookup (utf8 "d/../c.tac") =
        .ok (.file (utf8 "TST, x, 1, 1, L0\nJMP, L1\nL0\n")) ∧
      after.2.files.get? (w.files.place (utf8 "e.tac")) = none := by
  intro names o first second third w
  have hparse : Options.parse {} (utf8 "-resolve" :: names) = .ok (o, names) := by
    decide +kernel
  have hinside : ∀ file ∈ names, file.Inside ∧ (Batch.outputPath o file).Inside := by
    decide +kernel
  have hapart : names.Pairwise (Batch.Apart o) := by decide +kernel
  have hreached : Batch.reached (Batch.fate o w) names = names.take 4 := by decide +kernel
  have hfirst : Batch.outputPath o (utf8 "a.txt") = utf8 "a.tac" := by decide +kernel
  have hthird : Batch.outputPath o (utf8 "d/../c.txt") = utf8 "d/../c.tac" := by decide +kernel
  have hfailed : ((names.take 4).all fun input => (Batch.fate o w input).succeeds) = false := by
    decide +kernel
  obtain ⟨hstatus, hdone⟩ :=
    run_translates_each_file hparse rfl (List.cons_ne_nil _ _) hinside hapart [] w
  generalize run (utf8 "-resolve" :: names) [] w = result at hstatus hdone ⊢
  rw [hreached] at hstatus hdone
  rw [hfailed, if_neg Bool.false_ne_true] at hstatus
  have hresolved := hdone.written (utf8 "a.txt") (by decide +kernel)
    (utf8 "TST, x, 1, 1, 3\nJMP, 5\nMOV, 2, x\nJMP, 1\nHALT\n") (by decide +kernel)
  have hbroken := hdone.written (utf8 "d/../c.txt") (by decide +kernel)
    (utf8 "TST, x, 1, 1, L0\nJMP, L1\nL0\n") (by decide +kernel)
  have hlast := hdone.kept (w.files.place (utf8 "e.tac")) (by decide +kernel)
  have hnone : (w.complain signature).files.get? (w.files.place (utf8 "e.tac")) = none := by
    decide +kernel
  rw [hfirst] at hresolved
  rw [hthird] at hbroken
  exact ⟨hinside, hapart, hreached, hstatus, hresolved, hbroken, hlast.trans hnone⟩

end ThreeAddress
