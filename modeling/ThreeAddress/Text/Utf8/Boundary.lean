import ThreeAddress.Text.Utf8.RoundTrip

namespace ThreeAddress

namespace Utf8

variable {a x : UInt8} {c : Char}

theorem of_first?_eq_some {rest : Bytes} {more : Nat} (h : first? (a :: rest) = some (c, more)) :
    more = 0 ∧ c.toNat = a.toNat ∨ more ≤ rest.length ∧ 128 ≤ c.toNat := by
  simp only [first?] at h
  split at h
  · obtain ⟨-, hc, hmore⟩ := of_map_scalar? h
    exact .inl ⟨hmore, hc⟩
  · -- two, three or four bytes: each number has a least value above ASCII
    right
    repeat' split at h
    all_goals try cases h
    all_goals
      obtain ⟨hleast, hc, hmore⟩ := of_map_scalar? h
      simp only [List.length_cons]
      omega

theorem not_continuation_of_first? {rest : Bytes} {r : Char × Nat}
    (h : first? (x :: rest) = some r) : isContinuation x = false := by
  rw [Bool.eq_false_iff, ne_eq, isContinuation_iff]
  rintro ⟨hlow, hhigh⟩
  simp [first?, UInt8.lt_iff_toNat_lt, hhigh, Nat.not_lt.mpr hlow] at h

/-- A sequence that lacks a byte is not completed by a byte that continues none. -/
theorem first?_append {text : Bytes} (ht : text ≠ []) (hx : isContinuation x = false)
    (rest : Bytes) : first? (text ++ x :: rest) = first? text := by
  rcases text with _ | ⟨p, _ | ⟨q, _ | ⟨r, _ | ⟨s, text⟩⟩⟩⟩
  · exact absurd rfl ht
  · rcases rest with _ | ⟨y, _ | ⟨z, rest⟩⟩ <;> simp [first?, hx]
  · rcases rest with _ | ⟨y, rest⟩ <;> simp [first?, hx]
  · simp [first?, hx]
  · simp [first?]

theorem unitsOnto_append (hx : isContinuation x = false) (seen : List TextUnit) {skip : Nat}
    {text : Bytes} (hskip : skip ≤ text.length) (rest : Bytes) :
    unitsOnto seen skip (text ++ x :: rest) =
      unitsOnto (unitsOnto seen skip text) 0 (x :: rest) := by
  induction text generalizing seen skip with
  | nil =>
    obtain rfl := Nat.le_zero.mp hskip
    rfl
  | cons a text ih =>
    cases skip with
    | succ skip =>
      simp only [List.cons_append, unitsOnto]
      exact ih seen (Nat.le_of_succ_le_succ hskip)
    | zero =>
      have hfirst := first?_append (List.cons_ne_nil a text) hx rest
      rw [List.cons_append] at hfirst ⊢
      rw [unitsOnto, hfirst, unitsOnto.eq_def seen 0 (a :: text)]
      simp only
      split
      · next c more hc =>
        have hmore : more ≤ text.length := by
          rcases of_first?_eq_some hc with ⟨rfl, -⟩ | ⟨h, -⟩
          · exact Nat.zero_le _
          · exact h
        rw [ih _ hmore, List.take_append_of_le_length hmore]
      · exact ih _ (Nat.zero_le _)

theorem unitsOnto_eq_append (seen : List TextUnit) (skip : Nat) (text : Bytes) :
    unitsOnto seen skip text = unitsOnto [] skip text ++ seen := by
  induction text generalizing seen skip with
  | nil => simp [unitsOnto]
  | cons a text ih =>
    cases skip with
    | succ skip =>
      rw [unitsOnto, unitsOnto]
      exact ih seen skip
    | zero =>
      rw [unitsOnto, unitsOnto]
      split
      · rw [ih, ih [_], List.append_assoc]
        rfl
      · rw [ih, ih [_], List.append_assoc]
        rfl

theorem mem_of_mem_unitsOnto {seen : List TextUnit} {skip : Nat} {text : Bytes} {u : TextUnit}
    (h : u ∈ unitsOnto seen skip text) (hu : u.char.toNat < 128) :
    u ∈ seen ∨ ∃ b ∈ text, b.toNat = u.char.toNat := by
  induction text generalizing seen skip with
  | nil => exact .inl h
  | cons a text ih =>
    have hlater : (∃ b ∈ text, b.toNat = u.char.toNat) → ∃ b ∈ a :: text, b.toNat = u.char.toNat :=
      fun ⟨b, hb, heq⟩ => ⟨b, List.mem_cons_of_mem a hb, heq⟩
    have hpush : ∀ {v : TextUnit} {more : Nat}, u ∈ unitsOnto (v :: seen) more text →
        (u = v → v.char.toNat = a.toNat) → u ∈ seen ∨ ∃ b ∈ a :: text, b.toNat = u.char.toNat := by
      intro v more h hv
      rcases ih h with hm | hm
      · rcases List.mem_cons.mp hm with rfl | hm
        · exact .inr ⟨a, List.mem_cons_self .., (hv rfl).symm⟩
        · exact .inl hm
      · exact .inr (hlater hm)
    cases skip with
    | succ skip =>
      rw [unitsOnto] at h
      exact (ih h).imp_right hlater
    | zero =>
      rw [unitsOnto] at h
      split at h
      · next c more hc =>
        refine hpush h ?_
        rintro rfl
        rcases of_first?_eq_some hc with ⟨-, heq⟩ | ⟨-, hle⟩
        · exact heq
        · exact absurd hu (Nat.not_lt.mpr hle)
      · refine hpush h ?_
        rintro rfl
        exact absurd hu (by decide : ¬replacement.toNat < 128)

end Utf8

@[simp] theorem decode_nil : decode [] = [] := rfl

theorem units_encode_append (cs : List Char) (rest : Bytes) :
    units (encode cs ++ rest) = cs.map TextUnit.ofChar ++ units rest := by
  rw [units, Utf8.unitsOnto_encode, Utf8.unitsOnto_eq_append, List.append_nil,
    List.reverse_append, List.reverse_reverse, units]

/-- A character does not continue what stands before it, also if that is no character. -/
theorem units_append_encode (text : Bytes) (cs : List Char) :
    units (text ++ encode cs) = units text ++ cs.map TextUnit.ofChar := by
  cases cs with
  | nil => simp [encode]
  | cons c cs =>
    have hfirst := Utf8.first?_utf8EncodeChar c (encode cs)
    rw [← units_encode, encode, List.flatMap_cons, ← encode]
    cases hbytes : String.utf8EncodeChar c ++ encode cs with
    | nil => simp at hbytes
    | cons x rest =>
      rw [hbytes] at hfirst
      rw [units, Utf8.unitsOnto_append (Utf8.not_continuation_of_first? hfirst) _ (Nat.zero_le _),
        Utf8.unitsOnto_eq_append, List.reverse_append]
      rfl

/-- An ASCII byte divides a text, whatever stands before it. -/
theorem decode_append_cons {x : UInt8} (hx : x.toNat < 128) (text rest : Bytes) :
    decode (text ++ x :: rest) = decode text ++ Char.ofNat x.toNat :: decode rest := by
  have hvalid : x.toNat.isValidChar := .inl (by omega)
  have hfirst : Utf8.first? (x :: rest) = some (Char.ofNat x.toNat, 0) := by
    rw [Utf8.first?_one hx]
    simp [Utf8.scalar?, hvalid]
  have hunits : units (text ++ x :: rest) =
      units text ++ ⟨Char.ofNat x.toNat, [x]⟩ :: units rest := by
    rw [units, Utf8.unitsOnto_append (Utf8.not_continuation_of_first? hfirst) _ (Nat.zero_le _),
      Utf8.unitsOnto, hfirst]
    simp only
    rw [Utf8.unitsOnto_eq_append]
    simp [units]
  simp [decode, hunits]

theorem mem_of_mem_decode {c : Char} {text : Bytes} (h : c ∈ decode text) (hc : c.toNat < 128) :
    ∃ b ∈ text, b.toNat = c.toNat := by
  obtain ⟨u, hu, rfl⟩ := List.mem_map.mp h
  rcases Utf8.mem_of_mem_unitsOnto (List.mem_reverse.mp hu) hc with hnil | hb
  · cases hnil
  · exact hb

end ThreeAddress
