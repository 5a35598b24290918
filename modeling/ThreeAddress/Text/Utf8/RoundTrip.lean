import ThreeAddress.Text.Utf8

namespace ThreeAddress

def TextUnit.ofChar (c : Char) : TextUnit := ⟨c, String.utf8EncodeChar c⟩

namespace Utf8

theorem scalar?_toNat {least : Nat} {c : Char} (h : least ≤ c.toNat) :
    scalar? least c.toNat = some c := by
  have valid : c.toNat.isValidChar := c.valid
  simp [scalar?, h, valid, Char.ofNat_toNat]

theorem of_scalar?_eq_some {least n : Nat} {c : Char} (h : scalar? least n = some c) :
    least ≤ n ∧ c.toNat = n := by
  unfold scalar? at h
  split at h
  · next hn =>
    obtain rfl := Option.some.inj h
    refine ⟨hn.1, ?_⟩
    rw [Char.ofNat, dif_pos hn.2]
    rfl
  · cases h

theorem of_map_scalar? {least n k more : Nat} {c : Char}
    (h : (scalar? least n).map (·, k) = some (c, more)) : least ≤ n ∧ c.toNat = n ∧ more = k := by
  obtain ⟨d, hd, heq⟩ := Option.map_eq_some_iff.mp h
  obtain ⟨rfl, rfl⟩ := Prod.mk.inj heq
  obtain ⟨hleast, hn⟩ := of_scalar?_eq_some hd
  exact ⟨hleast, hn, rfl⟩

theorem isContinuation_iff (b : UInt8) : isContinuation b ↔ 128 ≤ b.toNat ∧ b.toNat < 192 := by
  simp [isContinuation, UInt8.lt_iff_toNat_lt, UInt8.le_iff_toNat_le]

theorem first?_one {a : UInt8} (ha : a.toNat < 128) (rest : Bytes) :
    first? (a :: rest) = (scalar? 0 a.toNat).map (·, 0) := by
  simp [first?, UInt8.lt_iff_toNat_lt, ha]

theorem first?_two {a b : UInt8} (ha : 192 ≤ a.toNat ∧ a.toNat < 224) (hb : isContinuation b)
    (rest : Bytes) :
    first? (a :: b :: rest) = (scalar? 0x80 (extend (a.toNat % 32) b)).map (·, 1) := by
  have h1 : ¬ a.toNat < 128 := by omega
  have h2 : ¬ a.toNat < 192 := by omega
  simp [first?, UInt8.lt_iff_toNat_lt, h1, h2, ha.2, hb]

theorem first?_three {a b c : UInt8} (ha : 224 ≤ a.toNat ∧ a.toNat < 240) (hb : isContinuation b)
    (hc : isContinuation c) (rest : Bytes) :
    first? (a :: b :: c :: rest) =
      (scalar? 0x800 (extend (extend (a.toNat % 16) b) c)).map (·, 2) := by
  have h1 : ¬ a.toNat < 128 := by omega
  have h2 : ¬ a.toNat < 192 := by omega
  have h3 : ¬ a.toNat < 224 := by omega
  simp [first?, UInt8.lt_iff_toNat_lt, h1, h2, h3, ha.2, hb, hc]

theorem first?_four {a b c d : UInt8} (ha : 240 ≤ a.toNat ∧ a.toNat < 248) (hb : isContinuation b)
    (hc : isContinuation c) (hd : isContinuation d) (rest : Bytes) :
    first? (a :: b :: c :: d :: rest) =
      (scalar? 0x10000 (extend (extend (extend (a.toNat % 8) b) c) d)).map (·, 3) := by
  have h1 : ¬ a.toNat < 128 := by omega
  have h2 : ¬ a.toNat < 192 := by omega
  have h3 : ¬ a.toNat < 224 := by omega
  have h4 : ¬ a.toNat < 240 := by omega
  simp [first?, UInt8.lt_iff_toNat_lt, h1, h2, h3, h4, ha.2, hb, hc, hd]

theorem first?_utf8EncodeChar (c : Char) (rest : Bytes) :
    first? (String.utf8EncodeChar c ++ rest) =
      some (c, (String.utf8EncodeChar c).length - 1) := by
  have bound : c.toNat < 0x110000 := by
    rcases c.valid with h | h <;> simp only [← Char.toNat_val] <;> omega
  unfold String.utf8EncodeChar
  simp only [Char.toNat_val]
  split
  · next h =>
    have value : (UInt8.ofNat c.toNat).toNat = c.toNat := by simp; omega
    simp only [List.cons_append, List.nil_append, List.length_cons, List.length_nil]
    rw [first?_one (by omega), value, scalar?_toNat (Nat.zero_le _)]
    rfl
  · split
    · simp only [List.cons_append, List.nil_append, List.length_cons, List.length_nil]
      rw [first?_two (by simp; omega) (by simp [isContinuation_iff]; omega)]
      have value : extend ((UInt8.ofNat (c.toNat / 64 % 32 + 192)).toNat % 32)
          (UInt8.ofNat (c.toNat % 64 + 128)) = c.toNat := by
        simp [extend]; omega
      rw [value, scalar?_toNat (by omega)]
      rfl
    · split
      · simp only [List.cons_append, List.nil_append, List.length_cons, List.length_nil]
        rw [first?_three (by simp; omega) (by simp [isContinuation_iff]; omega)
          (by simp [isContinuation_iff]; omega)]
        have value : extend (extend ((UInt8.ofNat (c.toNat / 4096 % 16 + 224)).toNat % 16)
            (UInt8.ofNat (c.toNat / 64 % 64 + 128))) (UInt8.ofNat (c.toNat % 64 + 128)) =
              c.toNat := by
          simp [extend]; omega
        rw [value, scalar?_toNat (by omega)]
        rfl
      · simp only [List.cons_append, List.nil_append, List.length_cons, List.length_nil]
        rw [first?_four (by simp; omega) (by simp [isContinuation_iff]; omega)
          (by simp [isContinuation_iff]; omega) (by simp [isContinuation_iff]; omega)]
        have value : extend (extend (extend ((UInt8.ofNat (c.toNat / 262144 % 8 + 240)).toNat % 8)
            (UInt8.ofNat (c.toNat / 4096 % 64 + 128))) (UInt8.ofNat (c.toNat / 64 % 64 + 128)))
              (UInt8.ofNat (c.toNat % 64 + 128)) = c.toNat := by
          simp [extend]; omega
        rw [value, scalar?_toNat (by omega)]
        rfl

/-- No other sequence stands for the character that is read. -/
theorem utf8EncodeChar_of_first? {a : UInt8} {rest : Bytes} {c : Char} {more : Nat}
    (h : first? (a :: rest) = some (c, more)) :
    String.utf8EncodeChar c = a :: rest.take more := by
  simp only [first?, UInt8.lt_iff_toNat_lt, UInt8.reduceToNat] at h
  simp only [String.utf8EncodeChar, Char.toNat_val]
  split at h
  · obtain ⟨-, hc, rfl⟩ := of_map_scalar? h
    rw [if_pos (by omega), hc, UInt8.ofNat_toNat, List.take_zero]
  · -- two, three or four bytes; the least number of each length leaves one branch of the writer
    repeat' split at h
    all_goals try cases h
    all_goals
      next hcontinuation =>
      obtain ⟨hleast, hc, rfl⟩ := of_map_scalar? h
      simp only [Bool.and_eq_true, isContinuation_iff] at hcontinuation
      simp only [extend] at hleast hc
      simp only [hc, List.take_succ_cons, List.take_zero]
      repeat' split
      all_goals
        simp only [List.cons.injEq, ← UInt8.toNat_inj, UInt8.toNat_ofNat', reduceCtorEq, and_true]
        omega

theorem unitsOnto_skip (seen : List TextUnit) (passed rest : Bytes) :
    unitsOnto seen passed.length (passed ++ rest) = unitsOnto seen 0 rest := by
  induction passed with
  | nil => rfl
  | cons b passed ih => simpa [unitsOnto] using ih

theorem unitsOnto_utf8EncodeChar (seen : List TextUnit) (c : Char) (rest : Bytes) :
    unitsOnto seen 0 (String.utf8EncodeChar c ++ rest) =
      unitsOnto (.ofChar c :: seen) 0 rest := by
  have start := first?_utf8EncodeChar c rest
  obtain ⟨a, more, shape⟩ : ∃ a more, String.utf8EncodeChar c = a :: more := by
    cases h : String.utf8EncodeChar c with
    | nil => simp at h
    | cons a more => exact ⟨a, more, rfl⟩
  rw [shape] at start ⊢
  simp only [List.cons_append, List.length_cons, Nat.add_sub_cancel] at start ⊢
  rw [unitsOnto, start]
  simp [unitsOnto_skip, TextUnit.ofChar, shape]

theorem unitsOnto_encode (seen : List TextUnit) (cs : List Char) (rest : Bytes) :
    unitsOnto seen 0 (encode cs ++ rest) =
      unitsOnto ((cs.map TextUnit.ofChar).reverse ++ seen) 0 rest := by
  induction cs generalizing seen with
  | nil => rfl
  | cons c cs ih =>
    have step := unitsOnto_utf8EncodeChar seen c (encode cs ++ rest)
    simp only [encode, List.flatMap_cons, List.append_assoc] at step ih ⊢
    rw [step, ih]
    simp

theorem bytes_of_mem_unitsOnto {seen : List TextUnit} {skip : Nat} {text : Bytes} {u : TextUnit}
    (h : u ∈ unitsOnto seen skip text) (hu : u.char ≠ replacement) :
    u ∈ seen ∨ u = .ofChar u.char := by
  induction text generalizing seen skip with
  | nil => exact .inl h
  | cons a text ih =>
    cases skip with
    | succ skip =>
      rw [unitsOnto] at h
      exact ih h
    | zero =>
      rw [unitsOnto] at h
      split at h
      · next c more hc =>
        rcases ih h with hm | hm
        · rcases List.mem_cons.mp hm with rfl | hm
          · exact .inr (by rw [TextUnit.ofChar, utf8EncodeChar_of_first? hc])
          · exact .inl hm
        · exact .inr hm
      · rcases ih h with hm | hm
        · rcases List.mem_cons.mp hm with rfl | hm
          · exact absurd rfl hu
          · exact .inl hm
        · exact .inr hm

theorem flatMap_bytes_unitsOnto (seen : List TextUnit) (skip : Nat) (text : Bytes) :
    (unitsOnto seen skip text).reverse.flatMap TextUnit.bytes =
      seen.reverse.flatMap TextUnit.bytes ++ text.drop skip := by
  induction text generalizing seen skip with
  | nil => simp [unitsOnto]
  | cons a rest ih =>
    cases skip with
    | succ skip => simpa [unitsOnto] using ih seen skip
    | zero =>
      rw [unitsOnto]
      split
      · next c more _ =>
        rw [ih]
        simp
      · rw [ih]
        simp

end Utf8

theorem flatMap_bytes_units (text : Bytes) : (units text).flatMap TextUnit.bytes = text := by
  simpa [units] using Utf8.flatMap_bytes_unitsOnto [] 0 text

theorem units_encode (cs : List Char) : units (encode cs) = cs.map TextUnit.ofChar := by
  have h := Utf8.unitsOnto_encode [] cs []
  rw [List.append_nil, List.append_nil] at h
  rw [units, h, Utf8.unitsOnto, List.reverse_reverse]

theorem decode_encode (cs : List Char) : decode (encode cs) = cs := by
  simp [decode, units_encode, Function.comp_def, TextUnit.ofChar]

theorem eq_ofChar_of_mem_units {text : Bytes} {u : TextUnit} (h : u ∈ units text)
    (hu : u.char ≠ replacement) : u = .ofChar u.char := by
  rcases Utf8.bytes_of_mem_unitsOnto (List.mem_reverse.mp h) hu with hnil | heq
  · cases hnil
  · exact heq

end ThreeAddress
