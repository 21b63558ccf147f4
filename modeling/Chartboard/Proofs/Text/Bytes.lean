import Chartboard.Text.Search
import Mathlib.Algebra.GroupWithZero.Nat

namespace Chartboard.Text

variable {cs more part before after : List Char}

theorem byteSize_eq_sum (cs : List Char) : byteSize cs = (cs.map Char.utf8Size).sum := by
  have hfold : ∀ n, cs.foldl (fun n c => n + c.utf8Size) n = n + (cs.map Char.utf8Size).sum := by
    induction cs with
    | nil => simp
    | cons c cs ih =>
      intro n
      rw [List.foldl_cons, ih, List.map_cons, List.sum_cons, Nat.add_assoc]
  rw [byteSize, hfold, Nat.zero_add]

@[simp] theorem byteSize_nil : byteSize [] = 0 := rfl

@[simp] theorem byteSize_cons (c : Char) (cs : List Char) :
    byteSize (c :: cs) = c.utf8Size + byteSize cs := by
  simp [byteSize_eq_sum]

@[simp] theorem byteSize_append (cs more : List Char) :
    byteSize (cs ++ more) = byteSize cs + byteSize more := by
  simp [byteSize_eq_sum]

theorem byteSize_le_of_sublist (h : cs.Sublist more) : byteSize cs ≤ byteSize more := by
  induction h with
  | slnil => exact Nat.le_refl _
  | cons c _ ih =>
    rw [byteSize_cons]
    omega
  | cons_cons c _ ih =>
    rw [byteSize_cons, byteSize_cons]
    omega

theorem length_le_byteSize (cs : List Char) : cs.length ≤ byteSize cs := by
  induction cs with
  | nil => exact Nat.le_refl _
  | cons c cs ih =>
    have := c.utf8Size_pos
    rw [List.length_cons, byteSize_cons]
    omega

/-- Only letters of one byte are changed, into letters of one byte. -/
theorem utf8Size_toLower (c : Char) : c.toLower.utf8Size = c.utf8Size := by
  unfold Char.toLower
  split
  · next h =>
    have hz : c.val.toNat ≤ 90 := UInt32.le_iff_toNat_le.1 h.2
    have hsum : (c.val + ('a'.val - 'A'.val)).toNat = c.val.toNat + 32 := by
      rw [UInt32.toNat_add]
      exact Nat.mod_eq_of_lt (by change c.val.toNat + 32 < 2 ^ 32; omega)
    have hsmall : c.utf8Size = 1 := by
      refine Char.utf8Size_eq_one_iff.2 (UInt32.le_iff_toNat_le.2 ?_)
      change c.val.toNat ≤ 127
      omega
    rw [hsmall]
    refine Char.utf8Size_eq_one_iff.2 (UInt32.le_iff_toNat_le.2 ?_)
    change (c.val + ('a'.val - 'A'.val)).toNat ≤ 127
    omega
  · rfl

theorem byteSize_of_sameLetters (h : sameLetters cs more = true) : byteSize cs = byteSize more := by
  have hsize : ∀ cs : List Char, byteSize cs = byteSize (cs.map Char.toLower) := by
    intro cs
    rw [byteSize_eq_sum, byteSize_eq_sum, List.map_map]
    exact congrArg List.sum (List.map_congr_left fun c _ => (utf8Size_toLower c).symm)
  rw [hsize cs, hsize more, beq_iff_eq.1 h]

theorem length_of_sameLetters (h : sameLetters cs more = true) : cs.length = more.length := by
  simpa using congrArg List.length (beq_iff_eq.1 h)

/-- The part of a text between two places among its bytes. There is none if the first place is
behind the second, or if one is behind the end of the text or inside a character. -/
def slice? (cs : List Char) (start stop : Nat) : Option (List Char) :=
  let text := String.ofList cs
  if h : start ≤ stop ∧ String.Pos.Raw.IsValid text ⟨start⟩ ∧ String.Pos.Raw.IsValid text ⟨stop⟩ then
    some (text.extract ⟨⟨start⟩, h.2.1⟩ ⟨⟨stop⟩, h.2.2⟩).toList
  else
    none

theorem size_utf8Encode (cs : List Char) : cs.utf8Encode.size = byteSize cs := by
  induction cs with
  | nil => rfl
  | cons c cs ih =>
    rw [List.utf8Encode_cons, ByteArray.size_append, ih, byteSize_cons, List.utf8Encode_singleton]
    simp

theorem utf8ByteSize_ofList (cs : List Char) : (String.ofList cs).utf8ByteSize = byteSize cs := by
  rw [← size_utf8Encode, ← String.toByteArray_ofList, String.size_toByteArray]

theorem isValid_iff {place : Nat} : String.Pos.Raw.IsValid (String.ofList cs) ⟨place⟩ ↔
    ∃ before after, cs = before ++ after ∧ byteSize before = place := by
  rw [String.Pos.Raw.isValid_ofList]
  simp only [utf8ByteSize_ofList]
  constructor
  · rintro ⟨i, rfl⟩
    exact ⟨cs.take i, cs.drop i, (List.take_append_drop i cs).symm, rfl⟩
  · rintro ⟨before, after, rfl, rfl⟩
    exact ⟨before.length, by simp⟩

theorem toList_extract {h₁ h₂} : ((String.ofList (before ++ (part ++ after))).extract
    ⟨⟨byteSize before⟩, h₁⟩ ⟨⟨byteSize before + byteSize part⟩, h₂⟩).toList = part := by
  rw [← String.ofList_inj, String.ofList_toList, ← String.toByteArray_inj,
    String.toByteArray_extract]
  simp only [String.toByteArray_ofList, List.utf8Encode_append]
  have hb := size_utf8Encode before
  have hp := size_utf8Encode part
  have hskip : (before.utf8Encode ++ (part.utf8Encode ++ after.utf8Encode)).extract
      (byteSize before + 0) (byteSize before + byteSize part) =
        (part.utf8Encode ++ after.utf8Encode).extract 0 (byteSize part) :=
    ByteArray.extract_append_size_add' hb.symm
  rw [Nat.add_zero] at hskip
  rw [hskip]
  exact ByteArray.extract_append_eq_left hp.symm

/-- Two ends of a text at places that are in order leave a part between them. -/
theorem exists_between {rest : List Char} (h : before ++ after = more ++ rest)
    (hle : byteSize before ≤ byteSize more) : ∃ part, more = before ++ part := by
  rcases List.append_eq_append_iff.1 h with ⟨part, hp, -⟩ | ⟨part, hp, -⟩
  · exact ⟨part, hp⟩
  · have hn : part = [] := by
      have := length_le_byteSize part
      rw [hp, byteSize_append] at hle
      exact List.eq_nil_of_length_eq_zero (by omega)
    exact ⟨[], by rw [hp, hn, List.append_nil, List.append_nil]⟩

/-- A text is sliced exactly where it comes apart. -/
theorem slice?_eq_some_iff {start stop : Nat} : slice? cs start stop = some part ↔
    ∃ before after, cs = before ++ (part ++ after) ∧ byteSize before = start ∧
      byteSize before + byteSize part = stop := by
  constructor
  · intro h
    simp only [slice?] at h
    split at h
    · next hv =>
      obtain ⟨hle, hstart, hstop⟩ := hv
      obtain ⟨before, rest, hcs, rfl⟩ := isValid_iff.1 hstart
      obtain ⟨more, after, hmore, rfl⟩ := isValid_iff.1 hstop
      obtain ⟨between, rfl⟩ := exists_between (hcs.symm.trans hmore) hle
      obtain rfl : cs = before ++ (between ++ after) := by rw [hmore, List.append_assoc]
      simp only [byteSize_append, toList_extract, Option.some.injEq] at h
      subst h
      exact ⟨before, after, rfl, rfl, (byteSize_append before between).symm⟩
    · cases h
  · rintro ⟨before, after, rfl, rfl, rfl⟩
    have hstart : String.Pos.Raw.IsValid (String.ofList (before ++ (part ++ after)))
        ⟨byteSize before⟩ := isValid_iff.2 ⟨before, part ++ after, rfl, rfl⟩
    have hstop : String.Pos.Raw.IsValid (String.ofList (before ++ (part ++ after)))
        ⟨byteSize before + byteSize part⟩ :=
      isValid_iff.2 ⟨before ++ part, after, (List.append_assoc ..).symm, byteSize_append ..⟩
    rw [slice?, dif_pos ⟨Nat.le_add_right _ _, hstart, hstop⟩, toList_extract]

def bytes (cs : List Char) : List UInt8 :=
  cs.flatMap String.utf8EncodeChar

/-- The byte of a character that takes one. -/
def byte (c : Char) : UInt8 :=
  c.val.toUInt8

theorem utf8EncodeChar_of_lt {c : Char} (h : c.toNat < 128) :
    String.utf8EncodeChar c = [byte c] := by
  refine String.utf8EncodeChar_eq_singleton ?_
  rw [Char.utf8Size_eq_one_iff]
  exact Nat.le_of_lt_succ h

/-- No byte of a further character is one of the first 128. -/
theorem exists_head_utf8EncodeChar {c : Char} (h : 128 ≤ c.toNat) :
    ∃ b rest, String.utf8EncodeChar c = b :: rest ∧ 128 ≤ b.toNat := by
  have hval : c.val.toNat = c.toNat := rfl
  unfold String.utf8EncodeChar
  simp only [hval]
  split
  · omega
  · split
    · refine ⟨_, _, rfl, ?_⟩
      rw [UInt8.toNat_ofNat']
      omega
    · split
      · refine ⟨_, _, rfl, ?_⟩
        rw [UInt8.toNat_ofNat']
        omega
      · refine ⟨_, _, rfl, ?_⟩
        rw [UInt8.toNat_ofNat']
        omega

theorem toNat_byte {c : Char} (h : c.toNat < 128) : (byte c).toNat = c.toNat := by
  rw [byte, UInt32.toNat_toUInt8]
  exact Nat.mod_eq_of_lt (Nat.lt_trans h (by decide))

/-- A byte of the first 128 stands in a text only for its character. -/
theorem head?_bytes {fill : Char} (hf : fill.toNat < 128) (cs : List Char) :
    (bytes cs).head? = some (byte fill) ↔ cs.head? = some fill := by
  cases cs with
  | nil => simp [bytes]
  | cons c cs =>
    rw [bytes, List.flatMap_cons]
    by_cases hc : c.toNat < 128
    · have hinj : byte c = byte fill ↔ c = fill := by
        rw [← UInt8.toNat_inj, toNat_byte hc, toNat_byte hf]
        exact ⟨Char.toNat_inj.1, fun h => h ▸ rfl⟩
      simp [utf8EncodeChar_of_lt hc, hinj]
    · obtain ⟨b, rest, hb, hge⟩ := exists_head_utf8EncodeChar (Nat.not_lt.1 hc)
      have hbyte : b ≠ byte fill := by
        rintro rfl
        rw [toNat_byte hf] at hge
        omega
      have hchar : c ≠ fill := by
        rintro rfl
        exact hc hf
      simp [hb, hbyte, hchar]

/-- How many bytes there are at the start of a text that are the one of a character. -/
def leading (fill : Char) (cs : List Char) : Nat :=
  ((bytes cs).takeWhile (· == byte fill)).length

theorem leading_eq {fill : Char} (hf : fill.toNat < 128) (cs : List Char) :
    leading fill cs = (cs.takeWhile (· == fill)).length := by
  induction cs with
  | nil => rfl
  | cons c cs ih =>
    by_cases hc : c = fill
    · subst hc
      have hb : bytes (c :: cs) = byte c :: bytes cs := by
        rw [bytes, List.flatMap_cons, utf8EncodeChar_of_lt hf, List.singleton_append, bytes]
      rw [leading, hb]
      simp [← ih, leading]
    · have hne : (bytes (c :: cs)).head? ≠ some (byte fill) := by
        simp [head?_bytes hf, hc]
      rw [leading]
      cases hb : bytes (c :: cs) with
      | nil => simp [hc]
      | cons b rest =>
        have hbyte : b ≠ byte fill := by simpa [hb] using hne
        simp [hc, hbyte]

/-- The characters of a text with their places, counted in bytes from a given one. -/
def places (start : Nat) : List Char → List (Nat × Char)
  | [] => []
  | c :: cs => (start, c) :: places (start + c.utf8Size) cs

def find? (mark cs : List Char) : Option Nat :=
  (cut mark cs).map fun (before, _) => byteSize before

/-- A difference, unless it would be negative. -/
def minus? (a b : Nat) : Option Nat :=
  if b ≤ a then some (a - b) else none

@[simp] theorem slice?_front (part after : List Char) :
    slice? (part ++ after) 0 (byteSize part) = some part :=
  slice?_eq_some_iff.2 ⟨[], after, rfl, rfl, Nat.zero_add _⟩

@[simp] theorem slice?_back (before part : List Char) :
    slice? (before ++ part) (byteSize before) (byteSize (before ++ part)) = some part :=
  slice?_eq_some_iff.2 ⟨before, [], by rw [List.append_nil], rfl, (byteSize_append ..).symm⟩

theorem minus?_add (a b : Nat) : minus? (a + b) b = some a := by
  rw [minus?, if_pos (Nat.le_add_left b a), Nat.add_sub_cancel]

end Chartboard.Text
