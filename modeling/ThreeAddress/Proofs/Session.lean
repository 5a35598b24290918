import ThreeAddress.Command.Conversation
import ThreeAddress.Proofs.WhiteSpace

namespace ThreeAddress

def Path.HasExtension (path : Path) : Prop :=
  ∃ before after, path = before ++ dot :: after ∧ slash ∉ after

/-- A program ends with the line: apart from white space, a period is the last of it. -/
def Completes (line : Bytes) : Prop := ∃ text, line.Strips text ∧ utf8 "." <:+ text

/-- The line names the file, for which white space at its ends does not count. -/
inductive NamesFile (line : Bytes) : Path → Prop
  | typed {name : Path} (h : line.Strips name) (hname : name.HasExtension) : NamesFile line name
  | extended {name : Path} (h : line.Strips name) (hname : ¬name.HasExtension) :
      NamesFile line (name ++ utf8 ".txt")

def Continues (line : Bytes) : Prop := line ≠ utf8 "exit" ∧ ¬Completes line

structure Submission where
  lines : List Bytes
  file : Path

/-- The lines that a conversation takes, cut into programs. Each part begins with lines after which
the program goes on. -/
inductive Session where
  | ended (lines : List Bytes) (h : ∀ line ∈ lines, Continues line)
  /-- The line `exit` ends the conversation, and what follows is not taken. -/
  | exited (lines : List Bytes) (h : ∀ line ∈ lines, Continues line) (ignored : List Bytes)
  /-- The program is complete, but there is no line to name its file. -/
  | unnamed (lines : List Bytes) (h : ∀ line ∈ lines, Continues line) (last : Bytes)
      (hlast : Completes last)
  | submitted (lines : List Bytes) (h : ∀ line ∈ lines, Continues line) (last : Bytes)
      (hlast : Completes last) (name : Bytes) (file : Path) (hfile : NamesFile name file)
      (next : Session)

theorem Path.hasExtension_iff {path : Path} : path.HasExtension ↔ extension path ≠ [] := by
  have hextension : extension path ≠ [] ↔ dot ∈ path.rtakeWhile (· ≠ slash) := by
    simp [extension, lastElement, List.rtakeWhile]
  rw [hextension]
  constructor
  · rintro ⟨before, after, rfl, hafter⟩
    have hreverse : ∀ b ∈ after.reverse, decide (b ≠ slash) = true := by
      intro b hb
      exact decide_eq_true fun heq => hafter (heq ▸ List.mem_reverse.mp hb)
    have hdot : decide (dot ≠ slash) = true := rfl
    rw [List.rtakeWhile, List.reverse_append, List.reverse_cons, List.append_assoc,
      List.takeWhile_append_of_pos hreverse, List.singleton_append, List.takeWhile_cons,
      if_pos hdot]
    simp
  · intro hdot
    obtain ⟨before, after, hlast⟩ := List.append_of_mem hdot
    refine ⟨path.rdropWhile (· ≠ slash) ++ before, after, ?_, ?_⟩
    · rw [List.append_assoc, ← hlast, List.rdropWhile_append_rtakeWhile]
    · intro hslash
      have hmem : slash ∈ path.rtakeWhile (· ≠ slash) := by
        rw [hlast]
        simp [hslash]
      simpa using List.mem_rtakeWhile_imp hmem

namespace Conversation

variable {line : Bytes}

theorem completes_iff : completes line = true ↔ Completes line := by
  have hdot : ∀ text : Bytes, text.getLast? = some Path.dot ↔ utf8 "." <:+ text := by
    intro text
    rw [List.getLast?_eq_some_iff]
    exact ⟨fun ⟨before, h⟩ => ⟨before, h.symm⟩, fun ⟨before, h⟩ => ⟨before, h.symm⟩⟩
  rw [completes, decide_eq_true_iff, hdot]
  constructor
  · exact fun h => ⟨_, line.strips_trimBlanks, h⟩
  · rintro ⟨text, hstrips, htext⟩
    rwa [Bytes.strips_iff.mp hstrips]

theorem namesFile_iff {file : Path} : NamesFile line file ↔ fileName line = file := by
  constructor
  · rintro (⟨h, hname⟩ | ⟨h, hname⟩)
    · rw [fileName, Bytes.strips_iff.mp h]
      exact if_neg (Path.hasExtension_iff.mp hname)
    · rw [fileName, Bytes.strips_iff.mp h]
      exact if_pos (not_not.mp (mt Path.hasExtension_iff.mpr hname))
  · rintro rfl
    unfold fileName
    dsimp only
    split
    · next h => exact .extended line.strips_trimBlanks fun hname => Path.hasExtension_iff.mp hname h
    · next h => exact .typed line.strips_trimBlanks (Path.hasExtension_iff.mpr h)

end Conversation

open Conversation

instance (line : Bytes) : Decidable (Completes line) := decidable_of_iff _ completes_iff

instance (line : Bytes) (file : Path) : Decidable (NamesFile line file) :=
  decidable_of_iff _ namesFile_iff.symm

instance (line : Bytes) : Decidable (Continues line) :=
  inferInstanceAs (Decidable (_ ∧ _))

theorem Completes.ne_exit {line : Bytes} (h : Completes line) : line ≠ utf8 "exit" := by
  rintro rfl
  exact absurd h (by decide +kernel)

theorem NamesFile.unique {line : Bytes} {file file' : Path} (h : NamesFile line file)
    (h' : NamesFile line file') : file = file' :=
  (namesFile_iff.mp h).symm.trans (namesFile_iff.mp h')

namespace Session

def first : Session → List Bytes
  | ended lines _ | exited lines _ _ | unnamed lines _ _ _ | submitted lines _ _ _ _ _ _ _ => lines

def lines : Session → List Bytes
  | ended lines _ => lines
  | exited lines _ ignored => lines ++ utf8 "exit" :: ignored
  | unnamed lines _ last _ => lines ++ [last]
  | submitted lines _ last _ name _ _ next => lines ++ last :: name :: next.lines

def rest : Session → List Bytes
  | ended _ _ => []
  | exited _ _ ignored => utf8 "exit" :: ignored
  | unnamed _ _ last _ => [last]
  | submitted _ _ last _ name _ _ next => last :: name :: next.lines

def submissions : Session → List Submission
  | submitted lines _ last _ _ file _ next => ⟨lines ++ [last], file⟩ :: next.submissions
  | _ => []

theorem exists_lines_append {pending : List Bytes} (h : ∀ line ∈ pending, Continues line) :
    ∀ lines, ∃ s : Session, s.lines = pending ++ lines
  | [] => ⟨ended pending h, (List.append_nil _).symm⟩
  | line :: rest => by
    by_cases hcontinues : Continues line
    · have hnext : ∀ line' ∈ pending ++ [line], Continues line' :=
        List.forall_mem_append.mpr ⟨h, List.forall_mem_singleton.mpr hcontinues⟩
      obtain ⟨s, hs⟩ := exists_lines_append hnext rest
      exact ⟨s, by rw [hs, List.append_assoc, List.singleton_append]⟩
    by_cases hexit : line = utf8 "exit"
    · subst hexit
      exact ⟨exited pending h rest, rfl⟩
    have hlast : Completes line := not_not.mp fun h => hcontinues ⟨hexit, h⟩
    match rest with
    | [] => exact ⟨unnamed pending h line hlast, rfl⟩
    | name :: rest =>
      obtain ⟨s, hs⟩ := exists_lines_append (List.forall_mem_nil _) rest
      refine ⟨submitted pending h line hlast name _ (namesFile_iff.mpr rfl) s, ?_⟩
      rw [lines, hs, List.nil_append]

theorem takeWhile_lines (s : Session) :
    s.lines.takeWhile (fun line => decide (Continues line)) = s.first ∧
      s.lines.dropWhile (fun line => decide (Continues line)) = s.rest := by
  have hcut : ∀ {lines rest : List Bytes}, (∀ line ∈ lines, Continues line) →
      (∀ line ∈ rest.head?, ¬Continues line) →
      (lines ++ rest).takeWhile (fun line => decide (Continues line)) = lines ∧
        (lines ++ rest).dropWhile (fun line => decide (Continues line)) = rest :=
    fun hlines hrest => Segment.takeWhile_append_of_boundary
      (fun line h => decide_eq_true (hlines line h)) fun line h => decide_eq_false (hrest line h)
  cases s with
  | ended lines h =>
    have hnone : ∀ line ∈ ([] : List Bytes).head?, ¬Continues line := nofun
    have hlines := hcut h hnone
    rwa [List.append_nil] at hlines
  | exited lines h ignored =>
    apply hcut h
    rintro _ ⟨⟩ hexit
    exact hexit.1 rfl
  | unnamed lines h last hlast | submitted lines h last hlast name file hfile next =>
    apply hcut h
    rintro _ ⟨⟩ hcontinues
    exact hcontinues.2 hlast

theorem first_eq_and_rest_eq {s s' : Session} (h : s.lines = s'.lines) :
    s.first = s'.first ∧ s.rest = s'.rest := by
  obtain ⟨hfirst, hrest⟩ := takeWhile_lines s
  obtain ⟨hfirst', hrest'⟩ := takeWhile_lines s'
  rw [← h] at hfirst' hrest'
  exact ⟨hfirst.symm.trans hfirst', hrest.symm.trans hrest'⟩

/-- There is one way only to cut lines into programs. -/
theorem eq_of_lines_eq {s s' : Session} (h : s.lines = s'.lines) : s = s' := by
  induction s generalizing s' with
  | ended lines hlines =>
    obtain ⟨hfirst, hrest⟩ := first_eq_and_rest_eq h
    cases s' with
    | ended => cases hfirst; rfl
    | exited | unnamed | submitted => cases hrest
  | exited lines hlines ignored =>
    obtain ⟨hfirst, hrest⟩ := first_eq_and_rest_eq h
    cases s' with
    | exited => cases hfirst; cases hrest; rfl
    | ended => cases hrest
    | unnamed _ _ last hlast | submitted _ _ last hlast =>
      exact absurd (List.cons.inj hrest).1.symm hlast.ne_exit
  | unnamed lines hlines last hlast =>
    obtain ⟨hfirst, hrest⟩ := first_eq_and_rest_eq h
    cases s' with
    | unnamed => cases hfirst; cases hrest; rfl
    | ended | submitted => cases hrest
    | exited => exact absurd (List.cons.inj hrest).1 hlast.ne_exit
  | submitted lines hlines last hlast name file hfile next ih =>
    obtain ⟨hfirst, hrest⟩ := first_eq_and_rest_eq h
    cases s' with
    | submitted _ _ last' _ name' file' hfile' next' =>
      obtain ⟨hlast', hname, hnext⟩ : last = last' ∧ name = name' ∧ next.lines = next'.lines := by
        simpa [rest] using hrest
      cases hfirst
      cases hlast'
      cases hname
      cases hfile.unique hfile'
      rw [ih hnext]
    | ended | unnamed => cases hrest
    | exited => exact absurd (List.cons.inj hrest).1 hlast.ne_exit

end Session

end ThreeAddress
