import ThreeAddress.CharClass
import ThreeAddress.Quad.Names
import ThreeAddress.Text.Utf8.RoundTrip

namespace ThreeAddress

namespace Bytes

def isLetter (b : UInt8) : Bool := (65 ≤ b && b ≤ 90) || (97 ≤ b && b ≤ 122)

def isDigit (b : UInt8) : Bool := 48 ≤ b && b ≤ 57

def Alphanumeric (x : Bytes) : Prop := ∀ b ∈ x, isLetter b = true ∨ isDigit b = true

theorem alphanumeric_of_all {x : Bytes} (h : x.all fun b => isLetter b || isDigit b) :
    x.Alphanumeric :=
  fun b hb => Bool.or_eq_true_iff.mp (List.all_eq_true.mp h b hb)

end Bytes

inductive Identifier : Bytes → Prop
  | intro {b : UInt8} {x : Bytes} (hb : Bytes.isLetter b = true)
      (hx : x.Alphanumeric) : Identifier (b :: x)

inductive Numeral : Bytes → Prop
  | intro {b : UInt8} {x : Bytes} (hb : Bytes.isDigit b = true)
      (hx : ∀ c ∈ x, Bytes.isDigit c = true) : Numeral (b :: x)

theorem Identifier.alphanumeric {x : Bytes} (h : Identifier x) : x.Alphanumeric := by
  cases h with
  | intro hb hx => exact List.forall_mem_cons.mpr ⟨.inl hb, hx⟩

theorem Numeral.digits {x : Bytes} (h : Numeral x) : ∀ b ∈ x, Bytes.isDigit b = true := by
  cases h with
  | intro hb hx => exact List.forall_mem_cons.mpr ⟨hb, hx⟩

theorem Numeral.alphanumeric {x : Bytes} (h : Numeral x) : x.Alphanumeric :=
  fun b hb => .inr (h.digits b hb)

theorem utf8EncodeChar_of_lt {c : Char} (h : c.toNat < 128) :
    String.utf8EncodeChar c = [UInt8.ofNat c.toNat] := by
  have hc : c.toNat ≤ 127 := by omega
  simp only [String.utf8EncodeChar, Char.toNat_val, if_pos hc]

namespace CharClass

theorem utf8EncodeChar_of_range {a b c : Char} (ha : a ≤ c) (hb : c ≤ b) (hn : b.toNat < 128) :
    ∃ d, String.utf8EncodeChar c = [d] ∧ a.toNat ≤ d.toNat ∧ d.toNat ≤ b.toNat := by
  have hac : a.toNat ≤ c.toNat := by simpa [Char.le_def, UInt32.le_iff_toNat_le] using ha
  have hcb : c.toNat ≤ b.toNat := by simpa [Char.le_def, UInt32.le_iff_toNat_le] using hb
  refine ⟨_, utf8EncodeChar_of_lt (by omega), ?_⟩
  rw [UInt8.toNat_ofNat']
  omega

theorem utf8EncodeChar_of_letter {c : Char} (h : ofChar c = .letter) :
    ∃ d, String.utf8EncodeChar c = [d] ∧ Bytes.isLetter d = true := by
  have hr : ('a' ≤ c ∧ c ≤ 'z') ∨ ('A' ≤ c ∧ c ≤ 'Z') := by
    unfold ofChar ofChar? at h
    split at h
    · assumption
    · split at h
      · cases h
      · split at h <;> cases h
  simp only [Bytes.isLetter, Bool.or_eq_true, Bool.and_eq_true, decide_eq_true_eq,
    UInt8.le_iff_toNat_le]
  obtain ⟨ha, hb⟩ | ⟨ha, hb⟩ := hr
  · obtain ⟨d, hd, hl, hu⟩ := utf8EncodeChar_of_range ha hb (by decide)
    exact ⟨d, hd, .inr ⟨hl, hu⟩⟩
  · obtain ⟨d, hd, hl, hu⟩ := utf8EncodeChar_of_range ha hb (by decide)
    exact ⟨d, hd, .inl ⟨hl, hu⟩⟩

theorem utf8EncodeChar_of_digit {c : Char} (h : ofChar c = .digit) :
    ∃ d, String.utf8EncodeChar c = [d] ∧ Bytes.isDigit d = true := by
  have hr : '0' ≤ c ∧ c ≤ '9' := by
    unfold ofChar ofChar? at h
    split at h
    · cases h
    · split at h
      · assumption
      · split at h <;> cases h
  simp only [Bytes.isDigit, Bool.and_eq_true, decide_eq_true_eq, UInt8.le_iff_toNat_le]
  obtain ⟨d, hd, hl, hu⟩ := utf8EncodeChar_of_range hr.1 hr.2 (by decide)
  exact ⟨d, hd, hl, hu⟩

theorem ofChar_of_isDigit {c : Char} (h : c.isDigit = true) : ofChar c = .digit := by
  have hd : '0' ≤ c ∧ c ≤ '9' := by simpa [Char.isDigit, Char.le_def] using h
  have hl : ¬(('a' ≤ c ∧ c ≤ 'z') ∨ ('A' ≤ c ∧ c ≤ 'Z')) := by
    simp only [Char.le_def, UInt32.le_iff_toNat_le] at hd ⊢
    have hb : c.val.toNat ≤ 57 := hd.2
    have ha : 'a'.val.toNat = 97 := rfl
    have hA : 'A'.val.toNat = 65 := rfl
    omega
  unfold ofChar ofChar?
  rw [if_neg hl, if_pos hd]
  rfl

end CharClass

def IsWord (cs : List Char) : Prop :=
  ∃ c r, cs = c :: r ∧ CharClass.ofChar c = .letter ∧
    ∀ d ∈ r, CharClass.ofChar d = .letter ∨ CharClass.ofChar d = .digit

def IsDigits (cs : List Char) : Prop := cs ≠ [] ∧ ∀ d ∈ cs, CharClass.ofChar d = .digit

theorem IsWord.identifier {cs : List Char} (h : IsWord cs) : Identifier (encode cs) := by
  obtain ⟨c, r, rfl, hc, hr⟩ := h
  obtain ⟨b, hb, hl⟩ := CharClass.utf8EncodeChar_of_letter hc
  simp only [encode, List.flatMap_cons, hb, List.singleton_append]
  refine .intro hl fun d hd => ?_
  obtain ⟨e, he, hd⟩ := List.mem_flatMap.mp hd
  rcases hr e he with hk | hk
  · obtain ⟨b', hb', hl'⟩ := CharClass.utf8EncodeChar_of_letter hk
    rw [hb', List.mem_singleton] at hd
    exact .inl (hd ▸ hl')
  · obtain ⟨b', hb', hl'⟩ := CharClass.utf8EncodeChar_of_digit hk
    rw [hb', List.mem_singleton] at hd
    exact .inr (hd ▸ hl')

theorem IsDigits.numeral {cs : List Char} (h : IsDigits cs) : Numeral (encode cs) := by
  obtain ⟨hne, hd⟩ := h
  have hbyte : ∀ b ∈ encode cs, Bytes.isDigit b = true := by
    intro b hb
    obtain ⟨c, hc, hb⟩ := List.mem_flatMap.mp hb
    obtain ⟨d, he, hdigit⟩ := CharClass.utf8EncodeChar_of_digit (hd c hc)
    rw [he, List.mem_singleton] at hb
    exact hb ▸ hdigit
  cases hx : encode cs with
  | nil =>
    obtain ⟨c, cs, rfl⟩ := List.exists_cons_of_ne_nil hne
    obtain ⟨d, he, -⟩ := CharClass.utf8EncodeChar_of_digit (hd c (List.mem_cons_self ..))
    simp [encode, he] at hx
  | cons b x =>
    rw [hx] at hbyte
    exact .intro (hbyte b (List.mem_cons_self ..)) fun c hc => hbyte c (List.mem_cons_of_mem _ hc)

theorem numeral_decimal (n : Nat) : Numeral (decimal n) :=
  IsDigits.numeral ⟨Nat.toDigits_ne_nil, fun _ hc =>
    CharClass.ofChar_of_isDigit (Nat.isDigit_of_mem_toDigits (by decide) (by decide) hc)⟩

theorem decimal_injective {m n : Nat} (h : decimal m = decimal n) : m = n := by
  have hd := congrArg decode h
  simp only [decimal, decode_encode] at hd
  have hn := congrArg (Nat.ofDigitChars 10 · 0) hd
  simpa only [Nat.ofDigitChars_ten_toDigits] using hn

namespace Names

theorem temporaryName_inj {m n : Nat} : temporaryName m = temporaryName n ↔ m = n :=
  ⟨fun h => decimal_injective (List.append_cancel_left h), fun h => h ▸ rfl⟩

theorem labelName_inj {m n : Nat} : labelName m = labelName n ↔ m = n :=
  ⟨fun h => decimal_injective (List.append_cancel_left h), fun h => h ▸ rfl⟩

theorem identifier_of_letter {b : UInt8} (hb : Bytes.isLetter b = true) (n : Nat) :
    Identifier (b :: decimal n) :=
  .intro hb (numeral_decimal n).alphanumeric

theorem identifier_temporaryName (n : Nat) : Identifier (temporaryName n) :=
  identifier_of_letter (b := 84) rfl n

theorem identifier_labelName (n : Nat) : Identifier (labelName n) :=
  identifier_of_letter (b := 76) rfl n

end Names

end ThreeAddress
