import Mathlib.Data.List.Infix
import ThreeAddress.Command.FileTree

namespace ThreeAddress

namespace Path

def Rooted (path : Path) : Prop := path.head? = some slash

instance (path : Path) : Decidable path.Rooted := inferInstanceAs (Decidable (_ = _))

/-- A relative path that stays in the directory it starts from: on no part of the way has it gone up
more often than down. -/
def Inside (path : Path) : Prop :=
  ¬path.Rooted ∧ ∀ names ∈ (elements path).inits,
    names.count above ≤ names.countP fun name => name ≠ here ∧ name ≠ above

instance (path : Path) : Decidable path.Inside := inferInstanceAs (Decidable (_ ∧ _))

/-- Paths whose cleaned forms can be compared, wherever the working directory is. -/
def Comparable (p q : Path) : Prop := p.Rooted ∧ q.Rooted ∨ p.Inside ∧ q.Inside

instance (p q : Path) : Decidable (p.Comparable q) := inferInstanceAs (Decidable (_ ∨ _))

/-- How deep a path has gone after a name. -/
theorem length_addElement (rooted : Bool) {seen : List Bytes} {name : Bytes} (hseen : above ∉ seen)
    (h : name = above → seen ≠ []) :
    (addElement rooted seen name).length + [name].count above =
      seen.length + [name].countP fun name => name ≠ here ∧ name ≠ above := by
  have hne : here ≠ above := by decide
  by_cases hhere : name = here
  · simp [addElement, hhere, hne]
  by_cases habove : name = above
  · obtain ⟨last, rest, rfl⟩ := List.exists_cons_of_ne_nil (h habove)
    have hlast : last ≠ above := fun hl => hseen (hl ▸ List.mem_cons_self ..)
    simp [addElement, habove, hlast, hne.symm]
  · simp [addElement, hhere, habove]

end Path

namespace Location

/-- A name moves the place as it changes the path. The names `base` are those of the place where the
path starts, and it can only go above that at the root. -/
theorem follow_append (rooted : Bool) {seen : List Bytes} (base : List Bytes) (name : Bytes)
    (hseen : Path.above ∉ seen)
    (h : name = Path.above → seen = [] → rooted = true ∧ base = []) :
    (Location.mk (seen ++ base)).follow name = ⟨Path.addElement rooted seen name ++ base⟩ ∧
      Path.above ∉ Path.addElement rooted seen name := by
  unfold follow Path.addElement
  by_cases hhere : name = Path.here
  · rw [if_pos hhere, if_pos hhere]
    exact ⟨rfl, hseen⟩
  rw [if_neg hhere, if_neg hhere]
  by_cases habove : name = Path.above
  · rw [if_pos habove, if_pos habove]
    cases seen with
    | nil =>
      obtain ⟨rfl, rfl⟩ := h habove rfl
      exact ⟨rfl, List.not_mem_nil⟩
    | cons last rest =>
      have hlast : last ≠ Path.above := fun hl => hseen (hl ▸ List.mem_cons_self ..)
      simp only [if_neg hlast]
      exact ⟨rfl, fun hmem => hseen (List.mem_cons_of_mem last hmem)⟩
  · rw [if_neg habove, if_neg habove]
    refine ⟨rfl, fun hmem => ?_⟩
    rcases List.mem_cons.mp hmem with hname | hmem
    · exact habove hname.symm
    · exact hseen hmem

theorem foldl_follow_root {seen : List Bytes} (hseen : Path.above ∉ seen) (names : List Bytes) :
    names.foldl follow ⟨seen⟩ = ⟨names.foldl (Path.addElement true) seen⟩ := by
  induction names generalizing seen with
  | nil => rfl
  | cons name names ih =>
    have hstep := follow_append true [] name hseen fun _ _ => ⟨rfl, rfl⟩
    simp only [List.append_nil] at hstep
    rw [List.foldl_cons, List.foldl_cons, hstep.1, ih hstep.2]

theorem foldl_follow_inside {seen : List Bytes} (hseen : Path.above ∉ seen) (base : List Bytes)
    {names : List Bytes}
    (h : ∀ ns ∈ names.inits, ns.count Path.above ≤
      (ns.countP fun name => name ≠ Path.here ∧ name ≠ Path.above) + seen.length) :
    names.foldl follow ⟨seen ++ base⟩ = ⟨names.foldl (Path.addElement false) seen ++ base⟩ := by
  induction names generalizing seen with
  | nil => rfl
  | cons name names ih =>
    have hcount (ns : List Bytes) (hns : ns ∈ names.inits) :=
      h (name :: ns) (List.mem_inits _ _ |>.mpr
        (List.cons_prefix_cons.mpr ⟨rfl, (List.mem_inits _ _).mp hns⟩))
    have hdepth : name = Path.above → seen ≠ [] := by
      rintro rfl rfl
      have hfirst := hcount [] (List.mem_inits _ _ |>.mpr List.nil_prefix)
      simp at hfirst
    obtain ⟨hstep, hnext⟩ := follow_append false base name hseen
      fun habove hnil => absurd hnil (hdepth habove)
    rw [List.foldl_cons, List.foldl_cons, hstep]
    refine ih hnext fun ns hns => ?_
    have hle := hcount ns hns
    have hlength := Path.length_addElement false hseen hdepth
    rw [← List.singleton_append, List.count_append, List.countP_append] at hle
    omega

end Location

namespace FileTree

theorem bind_eq_ok_iff {α β : Type} {x : Except FileError α} {f : α → Except FileError β} {b : β} :
    (x >>= f) = .ok b ↔ ∃ a, x = .ok a ∧ f a = .ok b := by
  cases x with
  | error e => exact ⟨nofun, fun ⟨_, h, _⟩ => nomatch h⟩
  | ok a => exact ⟨fun h => ⟨a, rfl, h⟩, fun ⟨_, ha, h⟩ => by cases ha; exact h⟩

variable {t t' : FileTree} {l l' : Location} {path : Path}

def place (t : FileTree) (path : Path) : Location :=
  (Path.elements path).foldl Location.follow (t.origin path)

theorem place_of_rooted (h : path.Rooted) :
    t.place path = ⟨(Path.elements path).foldl (Path.addElement true) []⟩ := by
  have horigin : t.origin path = {} := if_pos h
  rw [place, horigin]
  exact Location.foldl_follow_root List.not_mem_nil _

theorem place_of_inside (h : path.Inside) :
    t.place path =
      ⟨(Path.elements path).foldl (Path.addElement false) [] ++ t.working.names⟩ := by
  have horigin : t.origin path = t.working := if_neg h.1
  rw [place, horigin]
  exact Location.foldl_follow_inside List.not_mem_nil _ h.2

theorem clean_eq_of_place {p q : Path} (hpq : p.Comparable q) (h : t.place p = t.place q) :
    Path.clean p = Path.clean q := by
  rcases hpq with ⟨hp, hq⟩ | ⟨hp, hq⟩
  · rw [place_of_rooted hp, place_of_rooted hq] at h
    have hnames : (Path.elements p).foldl (Path.addElement true) [] =
        (Path.elements q).foldl (Path.addElement true) [] := congrArg Location.names h
    have hp' : p.head? = some Path.slash := hp
    have hq' : q.head? = some Path.slash := hq
    simp only [Path.clean, hp', hq', decide_true, hnames]
  · rw [place_of_inside hp, place_of_inside hq] at h
    have hnames := List.append_cancel_right (congrArg Location.names h)
    have hp' : p.head? ≠ some Path.slash := hp.1
    have hq' : q.head? ≠ some Path.slash := hq.1
    simp only [Path.clean, hp', hq', decide_false, hnames]

theorem checkDirectory_eq_ok_iff : t.checkDirectory l = .ok () ↔ t.get? l = some .directory := by
  unfold checkDirectory
  split
  · next h => simp [h]
  · next h => simp [h]
  · next h => simp [h]

theorem enter_eq_ok_iff {name : Bytes} :
    t.enter l name = .ok l' ↔
      t.get? l = some .directory ∧ name.length ≤ nameLimit ∧ l' = l.follow name := by
  unfold enter
  rw [bind_eq_ok_iff]
  constructor
  · rintro ⟨_, hdirectory, hname⟩
    rw [checkDirectory_eq_ok_iff] at hdirectory
    by_cases hlong : nameLimit < name.length
    · rw [if_pos hlong] at hname
      cases hname
    · rw [if_neg hlong] at hname
      cases hname
      exact ⟨hdirectory, Nat.le_of_not_lt hlong, rfl⟩
  · rintro ⟨hdirectory, hname, rfl⟩
    refine ⟨(), checkDirectory_eq_ok_iff.mpr hdirectory, ?_⟩
    rw [if_neg (Nat.not_lt_of_le hname)]
    rfl

structure SameDirectories (t t' : FileTree) : Prop where
  working : t'.working = t.working
  directories : ∀ l, t.get? l = some .directory ↔ t'.get? l = some .directory

theorem SameDirectories.refl (t : FileTree) : t.SameDirectories t := ⟨rfl, fun _ => Iff.rfl⟩

theorem SameDirectories.trans {t'' : FileTree} (h : t.SameDirectories t')
    (h' : t'.SameDirectories t'') : t.SameDirectories t'' :=
  ⟨h'.working.trans h.working, fun l => (h.directories l).trans (h'.directories l)⟩

theorem SameDirectories.symm (h : t.SameDirectories t') : t'.SameDirectories t :=
  ⟨h.working.symm, fun l => (h.directories l).symm⟩

theorem SameDirectories.origin_eq (h : t.SameDirectories t') (path : Path) :
    t'.origin path = t.origin path := by
  rw [origin, origin, h.working]

theorem SameDirectories.place_eq (h : t.SameDirectories t') (path : Path) :
    t'.place path = t.place path := by
  rw [place, place, h.origin_eq]

theorem foldlM_enter_eq {names : List Bytes} (h : names.foldlM t.enter l = .ok l') :
    l' = names.foldl Location.follow l := by
  induction names generalizing l with
  | nil =>
    cases h
    rfl
  | cons name names ih =>
    rw [List.foldlM_cons, bind_eq_ok_iff] at h
    obtain ⟨m, hm, h⟩ := h
    obtain ⟨-, -, rfl⟩ := enter_eq_ok_iff.mp hm
    exact ih h

theorem SameDirectories.foldlM_enter (h : t.SameDirectories t') {names : List Bytes}
    (hn : names.foldlM t.enter l = .ok l') : names.foldlM t'.enter l = .ok l' := by
  induction names generalizing l with
  | nil => exact hn
  | cons name names ih =>
    rw [List.foldlM_cons, bind_eq_ok_iff] at hn ⊢
    obtain ⟨m, hm, hn⟩ := hn
    refine ⟨m, ?_, ih hn⟩
    rw [enter_eq_ok_iff] at hm ⊢
    rwa [← h.directories l]

/-- A path can be followed to its place. -/
def Leads (t : FileTree) (path : Path) : Prop :=
  checkPath path = .ok () ∧
    (Path.elements path).foldlM t.enter (t.origin path) = .ok (t.place path)

theorem SameDirectories.leads (h : t.SameDirectories t') (hp : t.Leads path) :
    t'.Leads path := by
  rw [Leads, h.origin_eq, h.place_eq]
  exact ⟨hp.1, h.foldlM_enter hp.2⟩

theorem lookup_eq_ok_iff {node : FileNode} :
    t.lookup path = .ok node ↔
      t.Leads path ∧ t.get? (t.place path) = some node ∧
        (node = .directory ∨ meansDirectory path = false) := by
  unfold lookup
  rw [bind_eq_ok_iff]
  simp only [bind_eq_ok_iff]
  constructor
  · rintro ⟨_, hcheck, l, hl, h⟩
    obtain rfl : l = t.place path := foldlM_enter_eq hl
    refine ⟨⟨hcheck, hl⟩, ?_⟩
    cases hnode : t.get? (t.place path) with
    | none =>
      rw [hnode] at h
      cases h
    | some found =>
      rw [hnode] at h
      cases found with
      | directory =>
        cases h
        exact ⟨rfl, .inl rfl⟩
      | file content =>
        cases hd : meansDirectory path with
        | true =>
          simp only [hd] at h
          cases h
        | false =>
          simp only [hd] at h
          cases h
          exact ⟨rfl, .inr rfl⟩
  · rintro ⟨⟨hcheck, hl⟩, hnode, hd⟩
    refine ⟨(), hcheck, t.place path, hl, ?_⟩
    rw [hnode]
    cases node with
    | directory => rfl
    | file content =>
      have hfile : meansDirectory path = false := hd.resolve_left nofun
      simp only [hfile]
      rfl

/-- What a path leads to depends on the directories and on what is at its place. -/
theorem SameDirectories.lookup_eq_ok_iff (h : t.SameDirectories t')
    (hp : t'.get? (t.place path) = t.get? (t.place path)) {node : FileNode} :
    t'.lookup path = .ok node ↔ t.lookup path = .ok node := by
  rw [FileTree.lookup_eq_ok_iff, FileTree.lookup_eq_ok_iff, h.place_eq, hp]
  constructor
  · rintro ⟨hleads, hnode⟩
    exact ⟨h.symm.leads hleads, hnode⟩
  · rintro ⟨hleads, hnode⟩
    exact ⟨h.leads hleads, hnode⟩

def NamesFile (path : Path) : Prop :=
  meansDirectory path = false ∧
    ∃ name, (Path.elements path).getLast? = some name ∧ name ≠ Path.here ∧ name ≠ Path.above

theorem target_eq_ok_iff :
    t.target path = .ok l ↔ t.Leads path ∧ NamesFile path ∧ l = t.place path := by
  have hsplit : ∀ name, (Path.elements path).getLast? = some name → ∀ l',
      ((Path.elements path).foldlM t.enter (t.origin path) = .ok l' ↔
        ∃ m, (Path.elements path).dropLast.foldlM t.enter (t.origin path) = .ok m ∧
          t.enter m name = .ok l') := by
    intro name hlast l'
    obtain ⟨names, helements⟩ := List.getLast?_eq_some_iff.mp hlast
    rw [helements, List.foldlM_append, bind_eq_ok_iff, List.dropLast_concat]
    simp only [List.foldlM_cons, List.foldlM_nil, bind_pure]
  unfold target
  simp only [bind_eq_ok_iff]
  constructor
  · rintro ⟨_, hcheck, m, hm, _, -, h⟩
    cases hlast : (Path.elements path).getLast? with
    | none =>
      rw [hlast] at h
      cases h
    | some name =>
      rw [hlast] at h
      by_cases hname : meansDirectory path ∨ name = Path.here ∨ name = Path.above
      · simp only [if_pos hname] at h
        cases h
      · simp only [if_neg hname] at h
        obtain ⟨hd, hhere, habove⟩ : meansDirectory path = false ∧ name ≠ Path.here ∧
            name ≠ Path.above := by simpa using hname
        have hl := (hsplit name hlast l).mpr ⟨m, hm, h⟩
        obtain rfl : l = t.place path := foldlM_enter_eq hl
        exact ⟨⟨hcheck, hl⟩, ⟨hd, name, hlast, hhere, habove⟩, rfl⟩
  · rintro ⟨⟨hcheck, hl⟩, ⟨hd, name, hlast, hhere, habove⟩, rfl⟩
    obtain ⟨m, hm, henter⟩ := (hsplit name hlast _).mp hl
    have hdirectory := (enter_eq_ok_iff.mp henter).1
    refine ⟨(), hcheck, m, hm, (), checkDirectory_eq_ok_iff.mpr hdirectory, ?_⟩
    rw [hlast]
    have hname : ¬(meansDirectory path ∨ name = Path.here ∨ name = Path.above) := by
      simp [hd, hhere, habove]
    simp only [if_neg hname]
    exact henter

def Takes (t : FileTree) (path : Path) : Prop :=
  t.Leads path ∧ NamesFile path ∧ t.get? (t.place path) ≠ some .directory

theorem write_eq_ok_iff {content : Bytes} :
    t.write path content = .ok t' ↔ t.Takes path ∧ t' = t.put (t.place path) (.file content) := by
  unfold write
  rw [bind_eq_ok_iff]
  constructor
  · rintro ⟨l, hl, h⟩
    obtain ⟨hleads, hname, rfl⟩ := target_eq_ok_iff.mp hl
    by_cases hnode : t.get? (t.place path) = some .directory
    · rw [if_pos hnode] at h
      cases h
    · rw [if_neg hnode] at h
      cases h
      exact ⟨⟨hleads, hname, hnode⟩, rfl⟩
  · rintro ⟨⟨hleads, hname, hnode⟩, rfl⟩
    refine ⟨t.place path, target_eq_ok_iff.mpr ⟨hleads, hname, rfl⟩, ?_⟩
    rw [if_neg hnode]
    rfl

theorem SameDirectories.takes (h : t.SameDirectories t') (hp : t.Takes path) : t'.Takes path := by
  rw [Takes, h.place_eq]
  exact ⟨h.leads hp.1, hp.2.1, fun hnode => hp.2.2 ((h.directories _).mpr hnode)⟩

theorem lookup_filter_ne (entries : List (Location × FileNode)) (hl : l' ≠ l) :
    (entries.filter fun e => e.1 ≠ l).lookup l' = entries.lookup l' := by
  induction entries with
  | nil => rfl
  | cons e entries ih =>
    obtain ⟨m, node⟩ := e
    by_cases hm : m = l
    · subst hm
      rw [List.filter_cons_of_neg (by simp), ih, List.lookup_cons, beq_false_of_ne hl]
    · rw [List.filter_cons_of_pos (by simpa using hm), List.lookup_cons, List.lookup_cons, ih]

theorem get?_put_self (hl : t.get? l ≠ some .directory) (node : FileNode) :
    (t.put l node).get? l = some node := by
  have hworking : ¬l.names <:+ t.working.names := fun h => hl (if_pos h)
  simp [get?, put, hworking]

theorem get?_put_of_ne (hl : l' ≠ l) (node : FileNode) : (t.put l node).get? l' = t.get? l' := by
  have hlookup : (t.put l node).entries.lookup l' = t.entries.lookup l' := by
    have hentries : (t.put l node).entries = (l, node) :: t.entries.filter fun e => e.1 ≠ l := rfl
    rw [hentries, List.lookup_cons, beq_false_of_ne hl, lookup_filter_ne _ hl]
  have hworking : (t.put l node).working = t.working := rfl
  rw [get?, get?, hlookup, hworking]

theorem get?_write {content : Bytes} (h : t.write path content = .ok t') :
    t'.get? (t.place path) = some (.file content) ∧
      ∀ l, l ≠ t.place path → t'.get? l = t.get? l := by
  obtain ⟨⟨-, -, hnode⟩, rfl⟩ := write_eq_ok_iff.mp h
  exact ⟨get?_put_self hnode _, fun l hl => get?_put_of_ne hl _⟩

theorem sameDirectories_write {content : Bytes} (h : t.write path content = .ok t') :
    t.SameDirectories t' := by
  obtain ⟨hself, hother⟩ := get?_write h
  obtain ⟨⟨-, -, hnode⟩, hput⟩ := write_eq_ok_iff.mp h
  refine ⟨by rw [hput, put], fun l => ?_⟩
  by_cases hl : l = t.place path
  · subst hl
    rw [hself]
    exact ⟨fun hd => absurd hd hnode, nofun⟩
  · rw [hother l hl]

theorem lookup_write_self {content : Bytes} (h : t.write path content = .ok t') :
    t'.lookup path = .ok (.file content) := by
  obtain ⟨⟨hleads, hname, -⟩, -⟩ := write_eq_ok_iff.mp h
  rw [lookup_eq_ok_iff, (sameDirectories_write h).place_eq]
  exact ⟨(sameDirectories_write h).leads hleads, (get?_write h).1, .inr hname.1⟩

end FileTree

end ThreeAddress
