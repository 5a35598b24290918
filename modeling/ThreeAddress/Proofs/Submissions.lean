import Mathlib.Control.Monad.Basic
import ThreeAddress.Proofs.Fate
import ThreeAddress.Proofs.Session

namespace ThreeAddress

namespace Submission

def text (p : Submission) : Bytes := p.lines.flatMap fun line => line ++ [Bytes.newline]

def quads (p : Submission) : Bytes := (translate (.ofText p.text)).2

def report (p : Submission) : Bytes :=
  (Source.ofText p.text).warnings.flatMap Diagnostic.line ++
    match (translate (.ofText p.text)).1 with
    | .ok () => []
    | .error f => World.failureLine p.file f

def savable (p : Submission) (t : FileTree) : Bool := (t.write p.file p.text).isOk

def save (p : Submission) (t : FileTree) : FileTree :=
  match t.write p.file p.text with
  | .ok t' => t'
  | .error _ => t

def answer (p : Submission) (t : FileTree) : Bytes := if p.savable t then p.quads else []

def complaint (p : Submission) (t : FileTree) : Bytes :=
  match t.write p.file p.text with
  | .ok _ => p.report
  | .error e =>
    utf8 "Could not create file " ++ p.file ++ utf8 ": " ++ (World.openFailure p.file e).message ++
      [Bytes.newline]

def complaints : List Submission → FileTree → Bytes
  | [], _ => []
  | p :: rest, t => p.complaint t ++ complaints rest (p.save t)

variable {p : Submission} {t t' : FileTree}

theorem sameDirectories_save (p : Submission) (t : FileTree) : t.SameDirectories (p.save t) := by
  unfold save
  split
  · next h => exact FileTree.sameDirectories_write h
  · exact .refl t

theorem savable_congr (h : t.SameDirectories t') : p.savable t' = p.savable t := by
  rw [savable, savable, Bool.eq_iff_iff, Batch.isOk_write_iff, Batch.isOk_write_iff]
  exact ⟨h.symm.takes, h.takes⟩

theorem answer_congr (h : t.SameDirectories t') : p.answer t' = p.answer t := by
  rw [answer, answer, savable_congr h]

/-- A program has just been saved. Its file holds its lines; and a batch of the file, without
resolved labels, writes the code of the program and says the same of it. -/
structure Saved (p : Submission) (w : World) : Prop where
  content : w.files.lookup p.file = .ok (.file p.text)
  batch : ∀ (arguments : List Bytes) (o : Options) (input : Source),
    Options.parse {} arguments = .ok (o, [p.file]) → o.interactive = false → o.resolve = false →
    Batch.overwrites o p.file = false → w.files.Takes (Batch.outputPath o p.file) →
    (Command.run arguments input w).2.files.lookup (Batch.outputPath o p.file) =
        .ok (.file p.quads) ∧
      (Command.run arguments input w).2.errorText =
        (w.complain Command.signature).errorText ++ p.report

theorem saved_of_savable {w : World} (h : p.savable t = true) (hw : w.files = p.save t) :
    p.Saved w := by
  have hcontent : w.files.lookup p.file = .ok (.file p.text) := by
    rw [hw, save]
    cases hwrite : t.write p.file p.text with
    | ok t' => exact FileTree.lookup_write_self hwrite
    | error e =>
      rw [savable, hwrite] at h
      cases h
  refine ⟨hcontent, ?_⟩
  intro arguments o input hparse hbatch hresolve hskip htakes
  rw [Command.run_batch hparse hbatch (List.cons_ne_nil _ _)]
  let told := w.complain Command.signature
  obtain ⟨w', hhandled, hrun⟩ := Batch.run_cons o p.file [] 0 told
  have hworld : (Batch.run o [p.file] 0 told).2 = w' := by
    rw [hrun, Batch.proceed]
    split <;> rfl
  have hfate : Batch.fate o told p.file = .translated (.ofText p.text) true :=
    Batch.fate_of_file hskip hcontent htakes
  rw [hfate] at hhandled
  rw [hworld]
  constructor
  · have hcode : Batch.code o (.ofText p.text) = p.quads := by
      rw [Batch.code, quads, hresolve]
      split <;> rfl
    rw [← hcode]
    exact FileTree.lookup_write_self hhandled.files
  · obtain ⟨report, htold, herror⟩ := hhandled.told
    have hreport : report = p.report := by
      cases htold with
      | translated hok => rw [Submission.report, hok, List.append_nil]
      | rejected hf => rw [Submission.report, hf]
    rw [herror, hreport]

end Submission

theorem Sink.text_write {s : Sink} (h : s.limit = none) (piece : Bytes) :
    (s.write piece).text = s.text ++ piece := by
  have hfull : s.full = false := by rw [full, h]
  simp [write, hfull, text]

namespace TextLines.Collector

def Unfailing (c : Collector) : Prop :=
  c.stopped.getD none = none → ∀ line ∈ c.delivered, line.failure = none

theorem Unfailing.accept {c : Collector} (h : c.Unfailing) (s : Signal) :
    (c.accept s).Unfailing := by
  unfold Collector.accept
  split
  · exact h
  · next b hstopped =>
    have hdelivered : ∀ line ∈ c.delivered, line.failure = none := by
      apply h
      rw [hstopped, Option.getD_none]
    unfold push
    split
    · exact fun _ => List.forall_mem_cons.mpr ⟨rfl, hdelivered⟩
    · split
      · exact nofun
      · exact fun _ => hdelivered
  · exact nofun
  · next hstopped =>
    have hdelivered : ∀ line ∈ c.delivered, line.failure = none := by
      apply h
      rw [hstopped, Option.getD_none]
    intro _
    unfold stop
    split
    · exact hdelivered
    · exact List.forall_mem_cons.mpr ⟨rfl, hdelivered⟩

theorem Unfailing.foldl_accept {c : Collector} (h : c.Unfailing) (signals : List Signal) :
    (signals.foldl Collector.accept c).Unfailing := by
  induction signals generalizing c with
  | nil => exact h
  | cons s signals ih => exact ih (h.accept s)

end TextLines.Collector

theorem Source.failure_eq_none_of_mem {source : Source} (h : source.textLines.failure = none) :
    ∀ line ∈ source.textLines.lines, line.failure = none := by
  have hstart : TextLines.Collector.Unfailing {} := fun _ => nofun
  intro line hline
  exact hstart.foldl_accept _ h line (List.mem_reverse.mp hline)

namespace Conversation

def question : Bytes := utf8 "Filename to save to: "

variable {w : World} {line : Bytes} {lines : List Bytes}

theorem step_of_continues (h : Continues line) (program : List Bytes) :
    step ⟨w, .writing program⟩ line = ⟨w, .writing (line :: program)⟩ := by
  simp only [step, if_neg h.1, if_neg (mt completes_iff.mp h.2)]

theorem step_of_completes (h : Completes line) (program : List Bytes) :
    step ⟨w, .writing program⟩ line = ⟨w.print question, .naming (line :: program)⟩ := by
  simp only [step, if_neg h.ne_exit, if_pos (completes_iff.mpr h)]
  rfl

theorem foldl_step_of_continues (h : ∀ line ∈ lines, Continues line)
    (program : List Bytes) :
    lines.foldl step ⟨w, .writing program⟩ = ⟨w, .writing (lines.reverse ++ program)⟩ := by
  induction lines generalizing program with
  | nil => rfl
  | cons line lines ih =>
    obtain ⟨hline, hlines⟩ := List.forall_mem_cons.mp h
    rw [List.foldl_cons, step_of_continues hline, ih hlines, List.reverse_cons,
      List.append_assoc, List.singleton_append]

theorem foldl_step_of_closed {c : Conversation} (h : c.phase = .closed) (lines : List Bytes) :
    lines.foldl step c = c := by
  induction lines with
  | nil => rfl
  | cons line lines ih =>
    have hstep : c.step line = c := by simp only [step, h]
    rw [List.foldl_cons, hstep, ih]

theorem converse_eq_foldl {lines : List DeliveredLine} (h : ∀ line ∈ lines, line.failure = none)
    (c : Conversation) :
    converse none c lines = (none, (lines.map DeliveredLine.text).foldl step c) := by
  induction lines generalizing c with
  | nil => rfl
  | cons line lines ih =>
    obtain ⟨hline, hlines⟩ := List.forall_mem_cons.mp h
    rw [converse, List.map_cons, List.foldl_cons]
    split
    · next hclosed => rw [hline, foldl_step_of_closed hclosed]
    · exact ih hlines _

theorem submit_eq (p : Submission) {w : World} (h : w.out.limit = none) :
    let w' := submit w p.file p.text
    w'.files = p.save w.files ∧ w'.out.limit = none ∧
      w'.out.text = w.out.text ++ p.answer w.files ∧
      w'.errorText = w.errorText ++ p.complaint w.files := by
  intro w'
  cases hwrite : w.files.write p.file p.text with
  | error e =>
    have hsavable : p.savable w.files = false := by
      rw [Submission.savable, hwrite]
      rfl
    have hw' : w' = w.complain
        (utf8 "Could not create file " ++ p.file ++ utf8 ": " ++
          (World.openFailure p.file e).message) := by
      simp only [w', submit, World.save, hwrite]
    rw [hw', Submission.save, Submission.complaint, hwrite, Submission.answer, hsavable]
    exact ⟨rfl, h, (List.append_nil _).symm, World.errorText_complain _ _⟩
  | ok files =>
    have hsavable : p.savable w.files = true := by
      rw [Submission.savable, hwrite]
      rfl
    obtain ⟨sink, htranslate, hlimit, htext⟩ :=
      World.translateTo_eq { w with files } (.ofText p.text) h
    let told : World := { World.warned { w with files } (.ofText p.text) with out := sink }
    have herror : told.errorText = w.errorText ++
        (Source.ofText p.text).warnings.flatMap Diagnostic.line :=
      World.errorText_warned { w with files } (.ofText p.text)
    rw [Submission.save, Submission.complaint, hwrite, Submission.answer, hsavable]
    cases hanswer : (translate (.ofText p.text)).1 with
    | ok =>
      have hw' : w' = told := by
        simp only [w', submit, World.save, hwrite, htranslate, hanswer, told]
      rw [hw']
      refine ⟨rfl, hlimit, htext, ?_⟩
      rw [herror, Submission.report, hanswer, List.append_nil]
    | error f =>
      have hw' : w' = told.reportFailure p.file f := by
        simp only [w', submit, World.save, hwrite, htranslate, hanswer, told]
      rw [hw']
      refine ⟨rfl, hlimit, htext, ?_⟩
      rw [World.errorText_reportFailure, herror, Submission.report, hanswer, List.append_assoc]

end Conversation

namespace Session

open Conversation

def lastQuestion : Session → Bytes
  | unnamed .. => question
  | submitted _ _ _ _ _ _ _ next => next.lastQuestion
  | _ => []

/-- What a conversation does, where `t` has the directories that there are. -/
structure Outcome (s : Session) (t : FileTree) (w w' : World) : Prop where
  /-- The programs are saved one after the other. -/
  files : w'.files = s.submissions.foldl (fun files p => p.save files) w.files
  /-- For every program its file is asked for, and what can be saved is answered with its code. -/
  printed : w'.out.text = w.out.text ++
    (s.submissions.flatMap fun p => question ++ [Bytes.newline] ++ p.answer t) ++ s.lastQuestion
  /-- Every program has its report on standard error. -/
  told : w'.errorText = w.errorText ++ Submission.complaints s.submissions w.files

theorem outcome_of_no_submission {s : Session} {t : FileTree} {w w' : World}
    (hs : s.submissions = []) (hfiles : w'.files = w.files)
    (hout : w'.out.text = w.out.text ++ s.lastQuestion) (herror : w'.errorText = w.errorText) :
    s.Outcome t w w' := by
  refine ⟨?_, ?_, ?_⟩
  · rw [hs, hfiles, List.foldl_nil]
  · rw [hs, hout, List.flatMap_nil, List.append_nil]
  · rw [hs, herror, Submission.complaints, List.append_nil]

theorem outcome_foldl_step (s : Session) {t : FileTree} {w : World}
    (ht : t.SameDirectories w.files) (hout : w.out.limit = none) :
    s.Outcome t w (s.lines.foldl step ⟨w, .writing []⟩).world := by
  induction s generalizing w with
  | ended lines h =>
    rw [Session.lines, foldl_step_of_continues h]
    exact outcome_of_no_submission rfl rfl (List.append_nil _).symm rfl
  | exited lines h ignored =>
    have hstep : step ⟨w, .writing (lines.reverse ++ [])⟩ (utf8 "exit") = ⟨w, .closed⟩ := rfl
    rw [Session.lines, List.foldl_append, foldl_step_of_continues h, List.foldl_cons, hstep,
      foldl_step_of_closed rfl]
    exact outcome_of_no_submission rfl rfl (List.append_nil _).symm rfl
  | unnamed lines h last hlast =>
    rw [Session.lines, List.foldl_append, foldl_step_of_continues h, List.foldl_cons,
      step_of_completes hlast, List.foldl_nil]
    exact outcome_of_no_submission rfl rfl (Sink.text_write hout _) rfl
  | submitted lines h last hlast name file hfile next ih =>
    let p : Submission := ⟨lines ++ [last], file⟩
    let asked := (w.print question).printLine []
    have htext : programText (last :: (lines.reverse ++ [])) = p.text := by
      simp [programText, Submission.text, p]
    have hname : fileName name = p.file := namesFile_iff.mp hfile
    have hstep : step ⟨w.print question, .naming (last :: (lines.reverse ++ []))⟩ name =
        ⟨submit asked p.file p.text, .writing []⟩ := by
      rw [← htext, ← hname]
      rfl
    have hasked : asked.out.text = w.out.text ++ question ++ [Bytes.newline] :=
      (Sink.text_write (s := w.out.write question) hout _).trans
        (congrArg (· ++ _) (Sink.text_write hout question))
    obtain ⟨hfiles, hlimit, hprinted, herror⟩ := submit_eq p (w := asked) hout
    have hsaved : t.SameDirectories (submit asked p.file p.text).files := by
      rw [hfiles]
      exact ht.trans (p.sameDirectories_save _)
    have hnext := ih hsaved hlimit
    rw [Session.lines, List.foldl_append, foldl_step_of_continues h, List.foldl_cons,
      step_of_completes hlast, List.foldl_cons, hstep]
    refine ⟨?_, ?_, ?_⟩
    · rw [hnext.files, hfiles]
      rfl
    · have hanswer : p.answer asked.files = p.answer t := Submission.answer_congr ht
      rw [hnext.printed, hprinted, hasked, hanswer]
      simp only [Session.submissions, Session.lastQuestion, List.flatMap_cons, List.append_assoc, p]
    · rw [hnext.told, herror, hfiles, List.append_assoc]
      rfl

end Session

/-- A conversation cuts its lines into programs, in the only way there is, and saves and translates
each of them as a batch of its file would. -/
theorem Command.run_submits_each_program {arguments : List Bytes} {o : Options}
    {files : List Path} (hparse : Options.parse {} arguments = .ok (o, files))
    (hinteractive : o.interactive = true) {input : Source}
    (hinput : input.textLines.failure = none) {w : World} (hout : w.out.limit = none) :
    ∃ s : Session,
      (∀ s' : Session, s'.lines = input.textLines.lines.map DeliveredLine.text ↔ s' = s) ∧
      (run arguments input w).1 = 0 ∧
      s.Outcome w.files ((w.complain signature).printLine (utf8 "Write your program:"))
        (run arguments input w).2 ∧
      ∀ p ∈ s.submissions, ∀ (t : FileTree) (w' : World),
        p.savable t = true → w'.files = p.save t → p.Saved w' := by
  obtain ⟨s, hs⟩ := Session.exists_lines_append (List.forall_mem_nil _)
    (input.textLines.lines.map DeliveredLine.text)
  rw [List.nil_append] at hs
  have hrun : run arguments input w =
      (0, (s.lines.foldl Conversation.step (Conversation.start (w.complain signature))).world) := by
    simp only [run, hparse, hinteractive, if_true, Conversation.run, hinput,
      Conversation.converse_eq_foldl (Source.failure_eq_none_of_mem hinput), hs]
  refine ⟨s, ?_, ?_, ?_, ?_⟩
  · intro s'
    rw [← hs]
    exact ⟨Session.eq_of_lines_eq, fun h => h ▸ rfl⟩
  · rw [hrun]
  · rw [hrun]
    exact s.outcome_foldl_step (.refl _) hout
  · exact fun p _ t w' => Submission.saved_of_savable

/-- Of these programs the first is translated, the second is rejected, the third cannot be saved,
the fourth is not finished, and the fifth is not taken. -/
theorem Command.run_submits_each_program_of_five :
    let input := Source.ofText (utf8 "PROGRAM\nx = 1 END.\n a \nPROGRAM y = ) END.\nb.prg\n" ++
      utf8 "PROGRAM z = 3 END.\nd/c\nPROGRAM\nexit\nPROGRAM u = 5 END.\ne\n")
    let after := run [utf8 "-i"] input {}
    input.textLines.failure = none ∧ after.1 = 0 ∧
      after.2.files.lookup (utf8 "a.txt") = .ok (.file (utf8 "PROGRAM\nx = 1 END.\n")) ∧
      after.2.files.lookup (utf8 "b.prg") = .ok (.file (utf8 "PROGRAM y = ) END.\n")) ∧
      after.2.files.lookup (utf8 "d/c.txt") = .error .notFound ∧
      after.2.out.text = utf8 "Write your program:\nFilename to save to: \nMOV, 1, x\n" ++
        utf8 "Filename to save to: \nFilename to save to: \n" := by
  intro input
  have hparse : Options.parse {} [utf8 "-i"] = .ok ({ interactive := true }, []) := by
    decide +kernel
  have hinput : input.textLines.failure = none := by decide +kernel
  obtain ⟨s, hs, hstatus, houtcome, -⟩ :=
    run_submits_each_program hparse rfl hinput (w := {}) rfl
  let session : Session :=
    .submitted [utf8 "PROGRAM"] (by decide +kernel) (utf8 "x = 1 END.") (by decide +kernel)
      (utf8 " a ") (utf8 "a.txt") (by decide +kernel) <|
    .submitted [] nofun (utf8 "PROGRAM y = ) END.") (by decide +kernel)
      (utf8 "b.prg") (utf8 "b.prg") (by decide +kernel) <|
    .submitted [] nofun (utf8 "PROGRAM z = 3 END.") (by decide +kernel)
      (utf8 "d/c") (utf8 "d/c.txt") (by decide +kernel) <|
    .exited [utf8 "PROGRAM"] (by decide +kernel) [utf8 "PROGRAM u = 5 END.", utf8 "e"]
  have hsession : session = s := (hs session).mp (by decide +kernel)
  have hfiles := houtcome.files
  have hprinted := houtcome.printed
  rw [← hsession] at hfiles hprinted
  generalize run [utf8 "-i"] input {} = result at hstatus hfiles hprinted ⊢
  refine ⟨hinput, hstatus, ?_, ?_, ?_, ?_⟩
  · rw [hfiles]
    decide +kernel
  · rw [hfiles]
    decide +kernel
  · rw [hfiles]
    decide +kernel
  · rw [hprinted]
    decide +kernel

end ThreeAddress
