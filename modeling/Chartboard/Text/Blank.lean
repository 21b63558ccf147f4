namespace Chartboard.Text

/-- The characters with the Unicode property White_Space. -/
def isBlank (c : Char) : Bool :=
  let n := c.toNat
  (9 ≤ n && n ≤ 13) || n == 0x20 || n == 0x85 || n == 0xA0 || n == 0x1680 ||
  (0x2000 ≤ n && n ≤ 0x200A) || n == 0x2028 || n == 0x2029 || n == 0x202F || n == 0x205F ||
  n == 0x3000

/-- Removes the longest run at the end in which every character satisfies `p`. -/
def dropEndWhile (p : Char → Bool) (cs : List Char) : List Char :=
  (cs.reverse.dropWhile p).reverse

def trimStart (cs : List Char) : List Char :=
  cs.dropWhile isBlank

def trimEnd (cs : List Char) : List Char :=
  dropEndWhile isBlank cs

def trim (cs : List Char) : List Char :=
  trimEnd (trimStart cs)

theorem trimStart_suffix (cs : List Char) : trimStart cs <:+ cs :=
  List.dropWhile_suffix _

theorem trimStart_length_le (cs : List Char) : (trimStart cs).length ≤ cs.length :=
  (trimStart_suffix cs).length_le

/-- What is left of a text without its leading blanks starts with no blank. -/
theorem trimStart_head {cs r : List Char} {c : Char} (h : trimStart cs = c :: r) :
    isBlank c = false := by
  induction cs with
  | nil => simp [trimStart] at h
  | cons d ds ih =>
    by_cases hd : isBlank d = true
    · exact ih (by simpa [trimStart, List.dropWhile_cons, hd] using h)
    · simp only [trimStart, List.dropWhile_cons, hd] at h
      cases h
      simpa using hd

/-- The maximal runs of characters that are not blank. -/
def words (cs : List Char) : List (List Char) :=
  match h : trimStart cs with
  | [] => []
  | c :: r =>
    have : (c :: r).length ≤ cs.length := h ▸ trimStart_length_le cs
    (c :: r).takeWhile (!isBlank ·) :: words (r.dropWhile (!isBlank ·))
termination_by cs.length
decreasing_by
  have := (List.dropWhile_suffix (l := r) (!isBlank ·)).length_le
  simp only [List.length_cons] at *
  omega

end Chartboard.Text
