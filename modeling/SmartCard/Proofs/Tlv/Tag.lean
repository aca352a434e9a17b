import SmartCard.Proofs.Document.Lawful

/-!
# Tags delimit themselves and are numbered without loss

A tag can be told from its bytes, whatever follows them, and from its number. Each reader of tags
therefore inverts the writer beside it: it takes just what is written for a tag, and gives that tag.
Reading the bytes of a tag looks for their end first; what is found there can be cut off and held.
-/

namespace SmartCard

namespace Tag

/-! ### Bytes -/

theorem take?_eq_some_iff {bytes rest : Bytes} {tag : Tag} :
    take? bytes = some (tag, rest) ↔ bytes = tag.bytes ++ rest := by
  constructor
  · exact eq_append_of_take?
  · rintro rfl
    exact tag.take?_append rest

/-- A tag's bytes start with those of no other tag. -/
theorem bytes_isPrefix_iff {tag other : Tag} : tag.bytes <+: other.bytes ↔ tag = other := by
  constructor
  · rintro ⟨rest, hbytes⟩
    have hwhole : take? other.bytes = some (other, []) :=
      take?_eq_some_iff.mpr (List.append_nil _).symm
    have hstart : take? other.bytes = some (tag, rest) := take?_eq_some_iff.mpr hbytes.symm
    exact (Prod.mk.inj (Option.some.inj (hstart.symm.trans hwhole))).1
  · rintro rfl
    exact List.prefix_refl _

theorem ofBytes?_eq_some_iff {bytes : Bytes} {tag : Tag} :
    ofBytes? bytes = some tag ↔ bytes = tag.bytes := by
  constructor
  · intro h
    rw [ofBytes?] at h
    split at h
    · next found htake =>
      obtain rfl := Option.some.inj h
      rw [take?_eq_some_iff.mp htake, List.append_nil]
    · simp at h
  · rintro rfl
    exact tag.ofBytes?_bytes

/-- Wherever the end of a tag is found, all bytes up to there can be cut off, there is room to hold
them, and they make up a tag. -/
theorem extent?_eq_some_iff {bytes : Bytes} {length : Nat} :
    extent? bytes = some length ↔ ∃ (tag : Tag) (rest : Bytes),
      Bytes.cut? length bytes = some (tag.bytes, rest) ∧
        Bytes.copy? maxLength tag.bytes = some tag.held ∧ take? bytes = some (tag, rest) := by
  constructor
  · intro h
    obtain ⟨encoded, rest, rfl, rfl, hencoding⟩ := exists_append_of_extent? h
    let tag : Tag := ⟨encoded, hencoding⟩
    exact ⟨tag, rest, Bytes.cut?_append encoded rest, Bytes.copy?_val tag.held,
      tag.take?_append rest⟩
  · rintro ⟨tag, rest, hcut, -, -⟩
    obtain ⟨rfl, rfl⟩ := Bytes.cut?_eq_some_iff.mp hcut
    exact tag.extent?_append rest

/-! ### Numbers -/

theorem ofNat?_eq_some_iff {value : Nat} {tag : Tag} :
    ofNat? value = some tag ↔ value = tag.toNat := by
  constructor
  · intro h
    rw [ofNat?] at h
    split at h
    · next hvalue =>
      have hbytes := ofBytes?_eq_some_iff.mp h
      calc value
        _ = Bytes.valueFrom 0 (Bytes.ofPair (value / 0x10000) ++ Bytes.ofPair value) :=
          (Bytes.valueFrom_ofPairs hvalue).symm
        _ = Bytes.valueFrom 0 tag.bytes := by rw [← hbytes, Bytes.valueFrom_dropWhile]
        _ = tag.toNat := tag.toNat_eq_valueFrom.symm
    · simp at h
  · rintro rfl
    exact tag.ofNat?_toNat

theorem ofDocument?_eq_some_iff {document : Document} {tag : Tag} :
    ofDocument? document = some tag ↔ document = .number tag.toNat := by
  rw [Document.ofDocument?_tag, Option.bind_eq_some_iff]
  constructor
  · rintro ⟨value, hvalue, htag⟩
    rw [(Document.natBelow?_eq_some_iff.mp hvalue).1, ofNat?_eq_some_iff.mp htag]
  · rintro rfl
    exact ⟨tag.toNat, Document.natBelow?_number tag.toNat_lt, ofNat?_eq_some_iff.mpr rfl⟩

/-- A tag is read off the front of just the byte strings that start with its bytes, and the bytes of
no tag start with those of another. Its bytes, its number and its document are read as this tag, and
nothing else is. Wherever the end of a tag is found in a byte string, cutting its bytes off and
copying them into the space for tags both succeed. -/
theorem delimited_and_numbered :
    (∀ (tag : Tag) (bytes rest : Bytes),
      take? bytes = some (tag, rest) ↔ bytes = tag.bytes ++ rest) ∧
    (∀ tag other : Tag, tag.bytes <+: other.bytes ↔ tag = other) ∧
    (∀ (tag : Tag) (bytes : Bytes), ofBytes? bytes = some tag ↔ bytes = tag.bytes) ∧
    (∀ (tag : Tag) (value : Nat), ofNat? value = some tag ↔ value = tag.toNat) ∧
    (∀ (tag : Tag) (document : Document),
      ofDocument? document = some tag ↔ document = .number tag.toNat) ∧
    ∀ (bytes : Bytes) (length : Nat), extent? bytes = some length ↔
      ∃ (tag : Tag) (rest : Bytes), Bytes.cut? length bytes = some (tag.bytes, rest) ∧
        Bytes.copy? maxLength tag.bytes = some tag.held ∧ take? bytes = some (tag, rest) :=
  ⟨fun _ _ _ => take?_eq_some_iff, fun _ _ => bytes_isPrefix_iff,
    fun _ _ => ofBytes?_eq_some_iff, fun _ _ => ofNat?_eq_some_iff,
    fun _ _ => ofDocument?_eq_some_iff, fun _ _ => extent?_eq_some_iff⟩

example : ofNat? 0x7F4C = some ⟨[0x7F, 0x4C], rfl⟩ ∧ ofNat? 0x1F = none ∧ ofNat? 0 = none := by
  decide

end Tag

end SmartCard
