namespace ThreeAddress

variable {α : Type}

def ofNumber (all : List α) (other : Int → α) (n : Int) : α :=
  if n < 0 then other n else all[n.toNat]?.getD (other n)

theorem number_ofNumber {all : List α} {other : Int → α} {number : α → Int}
    (listed : ∀ i, (h : i < all.length) → number all[i] = i)
    (unlisted : ∀ n, number (other n) = n) (n : Int) : number (ofNumber all other n) = n := by
  unfold ofNumber
  split
  · exact unlisted n
  · next nonneg =>
    obtain ⟨k, rfl⟩ := Int.eq_ofNat_of_zero_le (Int.not_lt.mp nonneg)
    by_cases inside : k < all.length
    · simpa [inside] using listed k inside
    · simpa [inside] using unlisted k

end ThreeAddress
