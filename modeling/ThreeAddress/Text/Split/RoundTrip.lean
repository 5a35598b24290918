import Mathlib.Data.List.Basic
import ThreeAddress.Text.Split

namespace ThreeAddress

theorem join_cons_cons (separator x y : Bytes) (xs : List Bytes) :
    Bytes.join separator (x :: y :: xs) = x ++ separator ++ Bytes.join separator (y :: xs) := by
  simp [Bytes.join]

theorem not_mem_join {separator : Bytes} {xs : List Bytes} {b : UInt8} (hb : b ∉ separator)
    (h : ∀ x ∈ xs, b ∉ x) : b ∉ Bytes.join separator xs := by
  match xs with
  | [] => simp [Bytes.join]
  | [x] => simpa [Bytes.join] using h
  | x :: y :: xs =>
    obtain ⟨hx, hxs⟩ := List.forall_mem_cons.mp h
    simp only [join_cons_cons, List.mem_append, not_or]
    exact ⟨⟨hx, hb⟩, not_mem_join hb hxs⟩

namespace Split

theorem fieldsFrom_push {b : UInt8} {rest : Bytes} (h : ¬(b = 44 ∧ rest.head? = some 32))
    (p : Pieces) : fieldsFrom p (b :: rest) = fieldsFrom (p.push b) rest := by
  rw [fieldsFrom]
  rintro rest rfl rfl
  exact h ⟨rfl, rfl⟩

/-- A piece without the field mark is read as it is, if the end of the text or a mark follows. -/
theorem fieldsFrom_append {x r : Bytes} (hx : ¬fieldMark <:+: x) (hr : r.head? ≠ some 32)
    (p : Pieces) :
    fieldsFrom p (x ++ r) = fieldsFrom { p with current := x.reverse ++ p.current } r := by
  induction x generalizing p with
  | nil => rfl
  | cons b x ih =>
    have hmark : ¬(b = 44 ∧ (x ++ r).head? = some 32) := by
      rintro ⟨rfl, hc⟩
      cases x with
      | nil => exact hr hc
      | cons c x =>
        obtain rfl : c = 32 := by simpa using hc
        exact hx ⟨[], x, rfl⟩
    rw [List.cons_append, fieldsFrom_push hmark, ih fun h => hx (List.infix_cons h)]
    simp [Pieces.push]

theorem fieldsFrom_join {x : Bytes} {xs : List Bytes}
    (h : ∀ y ∈ x :: xs, ¬fieldMark <:+: y) (p : Pieces) :
    (fieldsFrom p (Bytes.join fieldMark (x :: xs))).toList =
      p.done.reverse ++ (p.current.reverse ++ x) :: xs := by
  induction xs generalizing x p with
  | nil =>
    have hx := fieldsFrom_append (h x (List.mem_cons_self ..)) (r := []) nofun p
    rw [List.append_nil] at hx
    simp [Bytes.join, hx, fieldsFrom, Pieces.toList, Pieces.cut]
  | cons y xs ih =>
    obtain ⟨hx, hxs⟩ := List.forall_mem_cons.mp h
    have hjoin : Bytes.join fieldMark (x :: y :: xs) =
        x ++ 44 :: 32 :: Bytes.join fieldMark (y :: xs) := by
      rw [join_cons_cons, List.append_assoc]
      rfl
    rw [hjoin, fieldsFrom_append hx (by simp), fieldsFrom, ih hxs]
    simp [Pieces.cut]

theorem foldl_push {mark : UInt8} {x : Bytes} (h : mark ∉ x) (p : Pieces) :
    x.foldl (fun p b => if b = mark then p.cut else p.push b) p =
      { p with current := x.reverse ++ p.current } := by
  induction x generalizing p with
  | nil => rfl
  | cons b x ih =>
    obtain ⟨hb, hx⟩ := List.forall_mem_cons.mp fun c hc (he : c = mark) => h (he ▸ hc)
    rw [List.foldl_cons, if_neg hb, ih fun hm => hx mark hm rfl]
    simp [Pieces.push]

end Split

theorem fields_join {xs : List Bytes} (hne : xs ≠ []) (h : ∀ x ∈ xs, ¬fieldMark <:+: x) :
    fields (Bytes.join fieldMark xs) = xs := by
  obtain ⟨x, xs, rfl⟩ := List.exists_cons_of_ne_nil hne
  exact Split.fieldsFrom_join h {}

/-- Every text consists of pieces without the field mark. -/
theorem exists_eq_join (text : Bytes) : ∃ x xs, text = Bytes.join fieldMark (x :: xs) ∧
    ∀ y ∈ x :: xs, ¬fieldMark <:+: y := by
  induction text with
  | nil => exact ⟨[], [], rfl, by decide⟩
  | cons b text ih =>
    obtain ⟨x, xs, rfl, h⟩ := ih
    obtain ⟨hx, hxs⟩ := List.forall_mem_cons.mp h
    by_cases hb : b = 44 ∧ x.head? = some 32
    · obtain ⟨rfl, hhead⟩ := hb
      obtain ⟨x, rfl⟩ := List.head?_eq_some_iff.mp hhead
      refine ⟨[], x :: xs, ?_, ?_⟩
      · cases xs <;> simp [Bytes.join, fieldMark]
      · refine List.forall_mem_cons.mpr ⟨by decide, List.forall_mem_cons.mpr ⟨?_, hxs⟩⟩
        exact fun hmark => hx (List.infix_cons hmark)
    · refine ⟨b :: x, xs, ?_, List.forall_mem_cons.mpr ⟨?_, hxs⟩⟩
      · cases xs <;> simp [Bytes.join]
      · intro hmark
        rcases List.infix_cons_iff.mp hmark with hfront | hmark
        · obtain ⟨rest, hrest⟩ := hfront
          obtain ⟨rfl, rfl⟩ := List.cons.inj hrest
          exact hb ⟨rfl, rfl⟩
        · exact hx hmark

theorem fields_ne_nil (text : Bytes) : fields text ≠ [] := by
  obtain ⟨y, ys, rfl, hys⟩ := exists_eq_join text
  rw [fields_join (List.cons_ne_nil y ys) hys]
  exact List.cons_ne_nil y ys

theorem not_infix_of_mem_fields {text x : Bytes} (h : x ∈ fields text) : ¬fieldMark <:+: x := by
  obtain ⟨y, ys, rfl, hys⟩ := exists_eq_join text
  rw [fields_join (List.cons_ne_nil y ys) hys] at h
  exact hys x h

theorem join_fields (text : Bytes) : Bytes.join fieldMark (fields text) = text := by
  obtain ⟨y, ys, rfl, hys⟩ := exists_eq_join text
  rw [fields_join (List.cons_ne_nil y ys) hys]

theorem mem_join (separator : Bytes) {x : Bytes} {xs : List Bytes} (hx : x ∈ xs) {b : UInt8}
    (hb : b ∈ x) : b ∈ Bytes.join separator xs := by
  match xs with
  | [] => cases hx
  | [y] =>
    obtain rfl := List.mem_singleton.mp hx
    simpa [Bytes.join] using hb
  | y :: z :: xs =>
    rw [join_cons_cons, List.mem_append, List.mem_append]
    rcases List.mem_cons.mp hx with rfl | hx
    · exact .inl (.inl hb)
    · exact .inr (mem_join separator hx hb)

theorem mem_of_mem_fields {text x : Bytes} (hx : x ∈ fields text) {b : UInt8} (hb : b ∈ x) :
    b ∈ text := by
  have h := mem_join fieldMark hx hb
  rwa [join_fields] at h

namespace Split

variable {mark : UInt8}

theorem toList_foldl (p : Pieces) (text : Bytes) :
    (text.foldl (fun p b => if b = mark then p.cut else p.push b) p).toList =
      p.done.reverse ++ (text.foldl (fun p b => if b = mark then p.cut else p.push b)
        ({ current := p.current } : Pieces)).toList := by
  induction text generalizing p with
  | nil => simp [Pieces.toList, Pieces.cut]
  | cons b text ih =>
    rw [List.foldl_cons, List.foldl_cons, ih]
    by_cases hb : b = mark
    · rw [if_pos hb, if_pos hb, ih (Pieces.cut { current := p.current })]
      simp [Pieces.cut]
    · rw [if_neg hb, if_neg hb]
      rfl

end Split

theorem cutAt_of_not_mem {mark : UInt8} {x : Bytes} (h : mark ∉ x) : cutAt mark x = [x] := by
  rw [cutAt, Split.foldl_push h]
  simp [Split.Pieces.toList, Split.Pieces.cut]

theorem cutAt_append_cons {mark : UInt8} {x : Bytes} (h : mark ∉ x) (rest : Bytes) :
    cutAt mark (x ++ mark :: rest) = x :: cutAt mark rest := by
  rw [cutAt, List.foldl_append, Split.foldl_push h, List.foldl_cons, if_pos rfl,
    Split.toList_foldl]
  simp [Split.Pieces.cut, cutAt]

theorem not_mem_of_mem_cutAt {mark : UInt8} {text x : Bytes} (h : x ∈ cutAt mark text) :
    mark ∉ x := by
  induction hn : text.length using Nat.strongRecOn generalizing text with
  | ind n ih =>
  by_cases hm : mark ∈ text
  · obtain ⟨a, b, rfl, ha⟩ := List.eq_append_cons_of_mem hm
    rw [cutAt_append_cons ha] at h
    rcases List.mem_cons.mp h with rfl | hb
    · exact ha
    · have hlt : b.length < n := by
        rw [← hn, List.length_append, List.length_cons]
        omega
      exact ih _ hlt hb rfl
  · rw [cutAt_of_not_mem hm, List.mem_singleton] at h
    rwa [h]

theorem lines_flatten {xs : List Bytes} (h : ∀ x ∈ xs, Bytes.newline ∉ x) :
    lines (xs.map (· ++ [Bytes.newline])).flatten = xs ++ [[]] := by
  induction xs with
  | nil => rfl
  | cons x xs ih =>
    obtain ⟨hx, hxs⟩ := List.forall_mem_cons.mp h
    rw [List.map_cons, List.flatten_cons, List.append_assoc, List.singleton_append]
    exact (cutAt_append_cons hx _).trans (congrArg _ (ih hxs))

end ThreeAddress
