namespace Chartboard

/-- The last digits of a number in base sixteen. -/
def hexDigits : Nat → Nat → List Char
  | 0, _ => []
  | places + 1, n => hexDigits places (n / 16) ++ [Nat.digitChar (n % 16)]

/-- A universally unique identifier of the random kind; the seed gives its random digits, and the
number of the item tells it from the others of the same seed. -/
def identifier (seed n : Nat) : String :=
  String.ofList (hexDigits 8 seed ++ '-' :: hexDigits 4 (seed / 0x100000000) ++
    '-' :: '4' :: hexDigits 3 (seed / 0x1000000000000) ++
    '-' :: '8' :: hexDigits 3 (seed / 0x1000000000000000) ++
    '-' :: hexDigits 12 n)

theorem digitChar_inj {n m : Nat} (hn : n < 16) (hm : m < 16)
    (h : Nat.digitChar n = Nat.digitChar m) : n = m := by
  have hall : ∀ n < 16, ∀ m < 16, Nat.digitChar n = Nat.digitChar m → n = m := by decide
  exact hall n hn m hm h

theorem hexDigits_inj {places n m : Nat} (hn : n < Nat.pow 16 places) (hm : m < Nat.pow 16 places)
    (h : hexDigits places n = hexDigits places m) : n = m := by
  induction places generalizing n m with
  | zero => exact (Nat.lt_one_iff.1 hn).trans (Nat.lt_one_iff.1 hm).symm
  | succ places ih =>
    change n < Nat.pow 16 places * 16 at hn
    change m < Nat.pow 16 places * 16 at hm
    rw [Nat.mul_comm] at hn hm
    obtain ⟨hfront, hlast⟩ := List.append_inj' h rfl
    have hhigh : n / 16 = m / 16 :=
      ih (Nat.div_lt_of_lt_mul hn) (Nat.div_lt_of_lt_mul hm) hfront
    have hlow : n % 16 = m % 16 :=
      digitChar_inj (Nat.mod_lt n (by decide)) (Nat.mod_lt m (by decide)) (List.cons.inj hlast).1
    omega

/-- One seed serves as many items as twelve digits can count. -/
theorem identifier_inj {seed n m : Nat} (hn : n < 0x1000000000000) (hm : m < 0x1000000000000)
    (h : identifier seed n = identifier seed m) : n = m := by
  have hdigits := (List.append_right_inj _).1 (String.ofList_injective h)
  refine hexDigits_inj ?_ ?_ (List.cons.inj hdigits).2
  · exact hn
  · exact hm

end Chartboard
