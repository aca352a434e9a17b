import SmartCard.Tlv.Length
import SmartCard.Tlv.Tag

/-!
# Tags and length fields as bytes

What bytes make up a tag and what bytes make up a length field, said without the readers. Both
delimit themselves: a reader takes exactly those bytes off the front of a byte string, whatever
follows them. A tag's number has its bytes as digits. Among the length fields for a number, the one
that is written is the shortest.
-/

namespace SmartCard

namespace Bytes

/-- The number that the base-256 digits of `value` and then some bytes stand for. -/
def valueFrom (value : Nat) (bytes : Bytes) : Nat :=
  bytes.foldl (fun value byte => value * 256 + byte.toNat) value

theorem valueFrom_cons (value : Nat) (byte : UInt8) (bytes : Bytes) :
    valueFrom value (byte :: bytes) = valueFrom (value * 256 + byte.toNat) bytes :=
  rfl

theorem le_valueFrom (value : Nat) (bytes : Bytes) : value ≤ valueFrom value bytes := by
  induction bytes generalizing value with
  | nil => exact Nat.le_refl value
  | cons byte bytes ih =>
    have hnext := ih (value * 256 + byte.toNat)
    rw [valueFrom_cons]
    omega

/-- Leading zeros do not count. -/
theorem valueFrom_dropWhile (bytes : Bytes) :
    valueFrom 0 (bytes.dropWhile (· = 0)) = valueFrom 0 bytes := by
  induction bytes with
  | nil => rfl
  | cons byte bytes ih =>
    by_cases hzero : byte = 0
    · subst hzero
      exact ih
    · rw [List.dropWhile_cons_of_neg (by simpa using hzero)]

/-- Four bytes stand for two pairs. -/
theorem valueFrom_four (a b c d : UInt8) :
    valueFrom 0 [a, b, c, d] = pairValue a b * 0x10000 + pairValue c d := by
  simp only [valueFrom, List.foldl_cons, List.foldl_nil, pairValue]
  omega

theorem valueFrom_four_lt (a b c d : UInt8) : valueFrom 0 [a, b, c, d] < 0x100000000 := by
  have hhigh := pairValue_lt a b
  have hlow := pairValue_lt c d
  rw [valueFrom_four]
  omega

/-- Four digits in base 256 are those of the number that they stand for. -/
theorem ofPairs_valueFrom (a b c d : UInt8) :
    ofPair (valueFrom 0 [a, b, c, d] / 0x10000) ++ ofPair (valueFrom 0 [a, b, c, d]) =
      [a, b, c, d] := by
  have hvalue := valueFrom_four a b c d
  have hlow := pairValue_lt c d
  have hdiv : valueFrom 0 [a, b, c, d] / 0x10000 = pairValue a b := by omega
  have hmod : valueFrom 0 [a, b, c, d] % 0x10000 = pairValue c d := by omega
  rw [hdiv, ← ofPair_mod (valueFrom 0 [a, b, c, d]), hmod, ofPair_pairValue, ofPair_pairValue]
  rfl

/-- A number below 2 ^ 32 is what its four digits in base 256 stand for. -/
theorem valueFrom_ofPairs {value : Nat} (hvalue : value < 0x100000000) :
    valueFrom 0 (ofPair (value / 0x10000) ++ ofPair value) = value := by
  have hhigh := pairValue_ofNat (value / 0x10000)
  have hlow := pairValue_ofNat value
  simp only [ofPair, List.cons_append, List.nil_append, valueFrom_four, hhigh, hlow]
  omega

end Bytes

namespace Tag

/-- The bytes of a tag: the first one, and those that five set bits in it announce. -/
structure Form (tag : Tag) (first : UInt8) (more : Bytes) : Prop where
  bytes_eq : tag.bytes = first :: more
  not_padding : first ≠ 0x00 ∧ first ≠ 0xFF
  announced : more ≠ [] ↔ first &&& 0x1F = 0x1F
  /-- The top bit is set on all bytes that are announced except the last. -/
  continued : (∀ byte ∈ more.dropLast, byte &&& 0x80 ≠ 0) ∧
    ∀ last ∈ more.getLast?, last &&& 0x80 = 0
  length_le : (first :: more).length ≤ 4

theorem isContinuation_iff {limit : Nat} {bytes : Bytes} :
    isContinuation limit bytes = true ↔
      bytes ≠ [] ∧ bytes.length ≤ limit ∧ (∀ byte ∈ bytes.dropLast, byte &&& 0x80 ≠ 0) ∧
        ∀ last ∈ bytes.getLast?, last &&& 0x80 = 0 := by
  induction bytes generalizing limit with
  | nil => cases limit <;> simp [isContinuation]
  | cons byte rest ih =>
    cases limit with
    | zero => simp [isContinuation]
    | succ limit =>
      cases rest with
      | nil => simp [isContinuation]
      | cons next rest =>
        simp only [isContinuation, Bool.and_eq_true, decide_eq_true_eq, ih]
        simp [and_assoc, and_left_comm]

theorem exists_form (tag : Tag) : ∃ first more, tag.Form first more := by
  have hform := tag.wellFormed
  cases hbytes : tag.bytes with
  | nil => simp [hbytes, isEncoding] at hform
  | cons first more =>
    rw [hbytes] at hform
    simp only [isEncoding, Bool.and_eq_true, decide_eq_true_eq] at hform
    obtain ⟨hpadding, hmore⟩ := hform
    refine ⟨first, more, ?_⟩
    by_cases hlow : first &&& 0x1F = 0x1F
    · rw [if_pos hlow, isContinuation_iff] at hmore
      obtain ⟨hne, hlength, hcontinued⟩ := hmore
      exact ⟨hbytes, hpadding, iff_of_true hne hlow, hcontinued, Nat.succ_le_succ hlength⟩
    · rw [if_neg hlow, List.isEmpty_iff] at hmore
      subst hmore
      exact ⟨hbytes, hpadding, iff_of_false (by simp) hlow, by simp, by simp⟩

theorem Form.isConstructed_eq {tag : Tag} {first : UInt8} {more : Bytes}
    (form : tag.Form first more) : tag.isConstructed = decide (first &&& 0x20 ≠ 0) := by
  unfold isConstructed
  rw [form.bytes_eq]

theorem extentFrom?_append {limit passed : Nat} {more : Bytes}
    (hlimit : passed + limit = maxLength) (hmore : isContinuation limit more = true)
    (rest : Bytes) : extentFrom? passed (more ++ rest) = some (passed + more.length) := by
  induction more generalizing limit passed with
  | nil => cases limit <;> simp [isContinuation] at hmore
  | cons byte more ih =>
    cases limit with
    | zero => simp [isContinuation] at hmore
    | succ limit =>
      cases more with
      | nil =>
        have hlast : byte &&& 0x80 = 0 := by simpa [isContinuation] using hmore
        simp [extentFrom?, hlast]
      | cons next more =>
        have hparts : byte &&& 0x80 ≠ 0 ∧ isContinuation limit (next :: more) = true := by
          simpa [isContinuation] using hmore
        have hroom : passed + 1 ≠ maxLength := by
          rintro hfull
          obtain rfl : limit = 0 := by omega
          simp [isContinuation] at hparts
        have hleft : passed + 1 + limit = maxLength := by omega
        rw [List.cons_append, extentFrom?, if_neg hparts.1, if_neg hroom, ih hleft hparts.2]
        simp only [List.length_cons]
        congr 1
        omega

/-- The bytes of a tag are found to make up a tag, whatever follows them. -/
theorem extent?_append (tag : Tag) (rest : Bytes) :
    extent? (tag.bytes ++ rest) = some tag.bytes.length := by
  obtain ⟨first, more, form⟩ := tag.exists_form
  have hpadding : ¬ (first = 0x00 ∨ first = 0xFF) := not_or.mpr form.not_padding
  rw [form.bytes_eq]
  by_cases hlow : first &&& 0x1F = 0x1F
  · have hmore : isContinuation (maxLength - 1) more = true := isContinuation_iff.mpr
      ⟨form.announced.mpr hlow, Nat.le_of_succ_le_succ form.length_le, form.continued⟩
    have hlimit : 1 + (maxLength - 1) = maxLength := rfl
    rw [List.cons_append, extent?, if_neg hpadding, if_pos hlow, extentFrom?_append hlimit hmore,
      List.length_cons, Nat.add_comm]
  · have hmore : more = [] := by simpa [hlow] using form.announced
    subst hmore
    rw [List.cons_append, extent?, if_neg hpadding, if_neg hlow]
    rfl

/-- A tag as it is held in the space that there is for tags. -/
def held (tag : Tag) : Bytes.Within maxLength :=
  ⟨tag.bytes, by
    obtain ⟨first, more, form⟩ := tag.exists_form
    rw [form.bytes_eq]
    exact form.length_le⟩

/-- A tag is read from its own bytes, whatever follows them. -/
theorem take?_append (tag : Tag) (rest : Bytes) : take? (tag.bytes ++ rest) = some (tag, rest) := by
  have hextent := tag.extent?_append rest
  have hcut := Bytes.cut?_append tag.bytes rest
  have hcopy : Bytes.copy? maxLength tag.bytes = some tag.held := Bytes.copy?_val tag.held
  unfold take?
  split
  · next hnone => simp [hextent] at hnone
  next length hlength =>
    obtain rfl : tag.bytes.length = length := by simpa [hextent] using hlength
    split
    · next hnone => simp [hcut] at hnone
    next encoded left hleft =>
      obtain ⟨rfl, rfl⟩ : tag.bytes = encoded ∧ rest = left := by simpa [hcut] using hleft
      split
      · next hnone => simp [hcopy] at hnone
      next copied hcopied =>
        obtain rfl : tag.held = copied := by simpa [hcopy] using hcopied
        rfl

/-! ### Tags as numbers -/

theorem ofBytes?_bytes (tag : Tag) : ofBytes? tag.bytes = some tag := by
  have htake := take?_append tag []
  rw [List.append_nil] at htake
  rw [ofBytes?, htake]

/-- A tag fills up to four digits of its number when zeros are put before it. -/
theorem exists_digits (tag : Tag) :
    ∃ a b c d : UInt8, [a, b, c, d].dropWhile (· = 0) = tag.bytes := by
  obtain ⟨first, more, form⟩ := tag.exists_form
  have hfirst : first ≠ 0 := form.not_padding.1
  have hlength := form.length_le
  rw [form.bytes_eq]
  match more, hlength with
  | [], _ => exact ⟨0, 0, 0, first, by simp [hfirst]⟩
  | [b], _ => exact ⟨0, 0, first, b, by simp [hfirst]⟩
  | [b, c], _ => exact ⟨0, first, b, c, by simp [hfirst]⟩
  | [b, c, d], _ => exact ⟨first, b, c, d, by simp [hfirst]⟩
  | _ :: _ :: _ :: _ :: _, hlong =>
    simp only [List.length_cons] at hlong
    omega

/-- A byte is put behind a number that leaves room for it in 32 bits. -/
theorem toNat_shiftLeft_or {value : UInt32} (hvalue : value.toNat < 0x1000000) (byte : UInt8) :
    (value <<< 8 ||| byte.toUInt32).toNat = value.toNat * 256 + byte.toNat := by
  have hshift : (value <<< 8).toNat = value.toNat <<< 8 := by
    rw [UInt32.toNat_shiftLeft]
    apply Nat.mod_eq_of_lt
    rw [Nat.shiftLeft_eq]
    change value.toNat * 256 < 0x100000000
    omega
  rw [UInt32.toNat_or, hshift, UInt8.toNat_toUInt32, ← Nat.shiftLeft_add_eq_or_of_lt byte.toNat_lt,
    Nat.shiftLeft_eq]

/-- No bit is shifted out on the way to a number that fits in 32 bits. -/
theorem toNat_foldl_shiftLeft_or {bytes : Bytes} {value : UInt32}
    (hbound : Bytes.valueFrom value.toNat bytes < numberBound) :
    (bytes.foldl (fun (value : UInt32) byte => value <<< 8 ||| byte.toUInt32) value).toNat =
      Bytes.valueFrom value.toNat bytes := by
  induction bytes generalizing value with
  | nil => rfl
  | cons byte bytes ih =>
    rw [Bytes.valueFrom_cons] at hbound ⊢
    have hvalue : value.toNat < 0x1000000 := by
      have hle := Bytes.le_valueFrom (value.toNat * 256 + byte.toNat) bytes
      rw [numberBound] at hbound
      omega
    have hnext := toNat_shiftLeft_or hvalue byte
    rw [List.foldl_cons, ← hnext]
    exact ih (by rwa [hnext])

/-- The number of a tag is what its bytes stand for. -/
theorem toNat_eq_valueFrom (tag : Tag) : tag.toNat = Bytes.valueFrom 0 tag.bytes := by
  obtain ⟨a, b, c, d, hbytes⟩ := tag.exists_digits
  have hbound : Bytes.valueFrom 0 tag.bytes < numberBound := by
    rw [← hbytes, Bytes.valueFrom_dropWhile]
    exact Bytes.valueFrom_four_lt a b c d
  exact toNat_foldl_shiftLeft_or hbound

theorem toNat_lt (tag : Tag) : tag.toNat < numberBound :=
  tag.toUInt32.toNat_lt

/-- A tag is read from its number. -/
theorem ofNat?_toNat (tag : Tag) : ofNat? tag.toNat = some tag := by
  obtain ⟨a, b, c, d, hbytes⟩ := tag.exists_digits
  have hvalue : tag.toNat = Bytes.valueFrom 0 [a, b, c, d] := by
    rw [toNat_eq_valueFrom, ← hbytes, Bytes.valueFrom_dropWhile]
  rw [ofNat?, if_pos tag.toNat_lt, hvalue, Bytes.ofPairs_valueFrom, hbytes, ofBytes?_bytes]

end Tag

namespace Length

/-- The length fields for a number, the shortest of them or not. -/
inductive Form : Nat → Bytes → Prop
  | direct (low : UInt8) (hlow : low < 0x80) : Form low.toNat [low]
  | one (low : UInt8) : Form low.toNat [0x81, low]
  | two (high low : UInt8) : Form (high.toNat * 0x100 + low.toNat) [0x82, high, low]
  | three (top high low : UInt8) :
      Form (top.toNat * 0x10000 + (high.toNat * 0x100 + low.toNat)) [0x83, top, high, low]

/-- A length field for `n` that no other one for `n` undercuts. -/
structure Shortest (n : Nat) (field : Bytes) : Prop where
  form : Form n field
  least : ∀ other, Form n other → field.length ≤ other.length

/-- A length is read from any field for it, whatever follows the field. -/
theorem Form.take?_append {n : Nat} {field : Bytes} (form : Form n field) (rest : Bytes) :
    take? (field ++ rest) = some (n, rest) := by
  cases form with
  | direct low hlow => simp [take?, hlow]
  | one low => rfl
  | two high low => rfl
  | three top high low => rfl

theorem exists_form_of_take? {bytes rest : Bytes} {n : Nat} (h : take? bytes = some (n, rest)) :
    ∃ field, Form n field ∧ bytes = field ++ rest := by
  cases bytes with
  | nil => simp [take?] at h
  | cons form bytes =>
    simp only [take?] at h
    split at h
    · next hlow =>
      obtain ⟨rfl, rfl⟩ := Prod.mk.inj (Option.some.inj h)
      exact ⟨[form], .direct form hlow, rfl⟩
    split at h
    · next hform =>
      subst hform
      rcases bytes with _ | ⟨low, bytes⟩
      · simp at h
      · obtain ⟨rfl, rfl⟩ := Prod.mk.inj (Option.some.inj h)
        exact ⟨_, .one low, rfl⟩
    split at h
    · next hform =>
      subst hform
      rcases bytes with _ | ⟨high, _ | ⟨low, bytes⟩⟩
      · simp at h
      · simp at h
      · obtain ⟨rfl, rfl⟩ := Prod.mk.inj (Option.some.inj h)
        exact ⟨_, .two high low, rfl⟩
    split at h
    · next hform =>
      subst hform
      rcases bytes with _ | ⟨top, _ | ⟨high, _ | ⟨low, bytes⟩⟩⟩
      · simp at h
      · simp at h
      · simp at h
      · obtain ⟨rfl, rfl⟩ := Prod.mk.inj (Option.some.inj h)
        exact ⟨_, .three top high low, rfl⟩
    · simp at h

theorem Form.lt {n : Nat} {field : Bytes} (form : Form n field) : n < 0x1000000 := by
  cases form with
  | direct low =>
    have hlow := low.toNat_lt
    omega
  | one low =>
    have hlow := low.toNat_lt
    omega
  | two high low =>
    have hhigh := high.toNat_lt
    have hlow := low.toNat_lt
    omega
  | three top high low =>
    have htop := top.toNat_lt
    have hhigh := high.toNat_lt
    have hlow := low.toNat_lt
    omega

/-- A number is written as a field for its last three bytes. -/
theorem form_encode_mod (n : Nat) : Form (n % 0x1000000) (encode n) := by
  unfold encode Bytes.ofPair
  split
  · next hn =>
    have hvalue : (UInt8.ofNat n).toNat = n % 0x1000000 := by
      rw [UInt8.toNat_ofNat']
      omega
    rw [← hvalue]
    apply Form.direct
    apply UInt8.lt_iff_toNat_lt.mpr
    rw [hvalue]
    exact Nat.lt_of_le_of_lt (Nat.mod_le _ _) hn
  split
  · have hvalue : (UInt8.ofNat n).toNat = n % 0x1000000 := by
      rw [UInt8.toNat_ofNat']
      omega
    rw [← hvalue]
    exact .one _
  split
  · have hvalue : (UInt8.ofNat (n / 256)).toNat * 0x100 + (UInt8.ofNat n).toNat =
        n % 0x1000000 := by
      rw [UInt8.toNat_ofNat', UInt8.toNat_ofNat']
      omega
    rw [← hvalue]
    exact .two _ _
  · have hvalue : (UInt8.ofNat (n / 0x10000)).toNat * 0x10000 +
        ((UInt8.ofNat (n / 256)).toNat * 0x100 + (UInt8.ofNat n).toNat) = n % 0x1000000 := by
      rw [UInt8.toNat_ofNat', UInt8.toNat_ofNat', UInt8.toNat_ofNat']
      omega
    rw [← hvalue]
    exact .three _ _ _

/-- A number that three bytes can hold is written as a field for it. -/
theorem form_encode {n : Nat} (hn : n < 0x1000000) : Form n (encode n) := by
  have form := form_encode_mod n
  rwa [Nat.mod_eq_of_lt hn] at form

theorem length_encode (n : Nat) :
    (encode n).length =
      if n < 0x80 then 1 else if n < 0x100 then 2 else if n < 0x10000 then 3 else 4 := by
  unfold encode
  repeat' split
  all_goals rfl

/-- Larger numbers have no shorter fields. -/
theorem length_encode_mono {m n : Nat} (hmn : m ≤ n) : (encode m).length ≤ (encode n).length := by
  simp only [length_encode]
  repeat' split
  all_goals omega

/-- A field for a number is the one that is written, or longer than that. -/
theorem Form.eq_or_length_lt {n : Nat} {field : Bytes} (form : Form n field) :
    field = encode n ∨ (encode n).length < field.length := by
  rw [length_encode]
  cases form with
  | direct low hlow =>
    left
    have hlow : low.toNat < 0x80 := UInt8.lt_iff_toNat_lt.mp hlow
    rw [encode, if_pos hlow, UInt8.ofNat_toNat]
  | one low =>
    by_cases hshort : low.toNat < 0x80
    · right
      simp [hshort]
    · left
      rw [encode, if_neg hshort, if_pos low.toNat_lt, UInt8.ofNat_toNat]
  | two high low =>
    have hpair : high.toNat * 0x100 + low.toNat < 0x10000 := Bytes.pairValue_lt high low
    by_cases hshort : high.toNat * 0x100 + low.toNat < 0x100
    · right
      split <;> simp
    · left
      rw [encode, if_neg (by omega), if_neg hshort, if_pos hpair]
      exact congrArg _ (Bytes.ofPair_pairValue high low).symm
  | three top high low =>
    have hpair : high.toNat * 0x100 + low.toNat < 0x10000 := Bytes.pairValue_lt high low
    generalize hvalue : top.toNat * 0x10000 + (high.toNat * 0x100 + low.toNat) = n
    by_cases hshort : n < 0x10000
    · right
      repeat' split
      all_goals simp
    · left
      have htop : n / 0x10000 = top.toNat := by omega
      have hlast : n % 0x10000 = high.toNat * 0x100 + low.toNat := by omega
      rw [encode, if_neg (by omega), if_neg (by omega), if_neg hshort, htop, UInt8.ofNat_toNat,
        ← Bytes.ofPair_mod, hlast]
      exact congrArg _ (congrArg _ (Bytes.ofPair_pairValue high low).symm)

theorem Form.length_encode_le {n : Nat} {field : Bytes} (form : Form n field) :
    (encode n).length ≤ field.length := by
  rcases form.eq_or_length_lt with rfl | h
  · exact Nat.le_refl _
  · exact Nat.le_of_lt h

/-- The field that is written is the only shortest one. -/
theorem shortest_iff {n : Nat} {field : Bytes} :
    Shortest n field ↔ n < 0x1000000 ∧ field = encode n := by
  constructor
  · intro shortest
    refine ⟨shortest.form.lt, ?_⟩
    rcases shortest.form.eq_or_length_lt with h | h
    · exact h
    · exact absurd (shortest.least _ (form_encode shortest.form.lt)) (Nat.not_le.mpr h)
  · rintro ⟨hn, rfl⟩
    exact ⟨form_encode hn, fun other form => form.length_encode_le⟩

/-- What a length field gives back: of a number that was written, the last three bytes, and so the
number itself just if it has no more; of any bytes that are read, a number in one of the forms that
a field for it can have, none of which is shorter than the one that is written. -/
theorem codec_limits :
    (∀ (n : Nat) (rest : Bytes), take? (encode n ++ rest) = some (n % 0x1000000, rest) ∧
      (take? (encode n ++ rest) = some (n, rest) ↔ n < 0x1000000)) ∧
    ∀ (bytes : Bytes) (n : Nat) (rest : Bytes), take? bytes = some (n, rest) ↔
      ∃ field, Form n field ∧ bytes = field ++ rest ∧ (encode n).length ≤ field.length := by
  refine ⟨fun n rest => ?_, fun bytes n rest => ?_⟩
  · have hread := (form_encode_mod n).take?_append rest
    refine ⟨hread, ?_⟩
    constructor
    · intro hsame
      have hvalue := (Prod.mk.inj (Option.some.inj (hread.symm.trans hsame))).1
      omega
    · intro hn
      rw [hread, Nat.mod_eq_of_lt hn]
  · constructor
    · intro hread
      obtain ⟨field, form, rfl⟩ := exists_form_of_take? hread
      exact ⟨field, form, rfl, form.length_encode_le⟩
    · rintro ⟨field, form, rfl, -⟩
      exact form.take?_append rest

end Length

end SmartCard
