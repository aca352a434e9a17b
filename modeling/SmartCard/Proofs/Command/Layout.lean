import SmartCard.Command.Codec

/-!
# The layouts of a command

A command body has one of seven layouts, told apart by its first byte and its length. Each command
whose lengths fit its length fields is written in exactly one of them, and reading gives that
command back; no other bytes are read. What a command was derived from is not written.
-/

namespace SmartCard.Command

/-! ### Fields of the expected length -/

theorem shortNe_bounds (low : UInt8) : 1 ≤ shortNe low ∧ shortNe low ≤ 256 := by
  have hlow := low.toNat_lt
  unfold shortNe
  split
  · omega
  · next hne =>
    have hpos : low.toNat ≠ 0 := fun h => hne (UInt8.toNat_inj.mp h)
    omega

theorem ofNat_shortNe (low : UInt8) : UInt8.ofNat (shortNe low) = low := by
  unfold shortNe
  split
  · next h => exact h.symm
  · exact UInt8.ofNat_toNat

theorem shortNe_ofNat {ne : Nat} (hpos : 1 ≤ ne) (hle : ne ≤ 256) :
    shortNe (UInt8.ofNat ne) = ne := by
  unfold shortNe
  simp only [← UInt8.toNat_inj, UInt8.toNat_ofNat', UInt8.toNat_zero]
  split <;> omega

theorem extendedNe_bounds (high low : UInt8) :
    1 ≤ extendedNe high low ∧ extendedNe high low ≤ 65536 := by
  have hpair := Bytes.pairValue_lt high low
  unfold extendedNe
  split
  · omega
  · next hne =>
    have hpos : Bytes.pairValue high low ≠ 0 := by
      intro h
      unfold Bytes.pairValue at h
      have hhigh : high.toNat = 0 := by omega
      have hlow : low.toNat = 0 := by omega
      exact hne ⟨UInt8.toNat_inj.mp hhigh, UInt8.toNat_inj.mp hlow⟩
    omega

theorem ofPair_extendedNe (high low : UInt8) :
    Bytes.ofPair (extendedNe high low) = [high, low] := by
  unfold extendedNe
  split
  · next h =>
    rw [h.1, h.2]
    rfl
  · exact Bytes.ofPair_pairValue high low

theorem extendedNe_ofNat {ne : Nat} (hpos : 1 ≤ ne) (hle : ne ≤ 65536) :
    extendedNe (UInt8.ofNat (ne / 256)) (UInt8.ofNat ne) = ne := by
  unfold extendedNe
  rw [Bytes.pairValue_ofNat]
  simp only [← UInt8.toNat_inj, UInt8.toNat_ofNat', UInt8.toNat_zero]
  split <;> omega

/-! ### The layouts of a body -/

namespace Body

/-- The bytes of a body, layout by layout. -/
inductive Layout : Bytes → Body → Prop
  | empty : Layout [] ⟨[], none, false⟩
  | shortNe (low : UInt8) : Layout [low] ⟨[], some (shortNe low), false⟩
  | shortData {length : UInt8} {data : Bytes} (hne : data ≠ [])
      (hlength : data.length = length.toNat) : Layout (length :: data) ⟨data, none, false⟩
  | shortDataNe {length : UInt8} {data : Bytes} (hne : data ≠ [])
      (hlength : data.length = length.toNat) (low : UInt8) :
      Layout (length :: (data ++ [low])) ⟨data, some (shortNe low), false⟩
  | extendedNe (high low : UInt8) : Layout [0, high, low] ⟨[], some (extendedNe high low), true⟩
  | extendedData {high low : UInt8} {data : Bytes} (hne : data ≠ [])
      (hlength : data.length = Bytes.pairValue high low) :
      Layout (0 :: high :: low :: data) ⟨data, none, true⟩
  | extendedDataNe {high low : UInt8} {data : Bytes} (hne : data ≠ [])
      (hlength : data.length = Bytes.pairValue high low) (neHigh neLow : UInt8) :
      Layout (0 :: high :: low :: (data ++ [neHigh, neLow]))
        ⟨data, some (extendedNe neHigh neLow), true⟩

theorem ne_nil_iff {length : UInt8} {data : Bytes} (hlength : data.length = length.toNat) :
    data ≠ [] ↔ length ≠ 0 := by
  rw [← List.length_pos_iff, hlength, ne_eq, ← UInt8.toNat_inj]
  exact Nat.pos_iff_ne_zero

theorem layout_of_ofShort? {length : UInt8} {rest : Bytes} {body : Body} (hne : length ≠ 0)
    (h : ofShort? length.toNat rest = some body) : Layout (length :: rest) body := by
  unfold ofShort? at h
  split at h
  · next data hcut =>
    obtain ⟨rfl, hlength⟩ := Bytes.cut?_eq_some_iff.mp hcut
    obtain rfl := Option.some.inj h
    rw [List.append_nil]
    exact .shortData ((ne_nil_iff hlength).mpr hne) hlength
  · next data low hcut =>
    obtain ⟨rfl, hlength⟩ := Bytes.cut?_eq_some_iff.mp hcut
    obtain rfl := Option.some.inj h
    exact .shortDataNe ((ne_nil_iff hlength).mpr hne) hlength low
  · simp at h

theorem layout_of_ofExtended? {high low : UInt8} {rest : Bytes} {body : Body}
    (h : ofExtended? (Bytes.pairValue high low) rest = some body) :
    Layout (0 :: high :: low :: rest) body := by
  unfold ofExtended? at h
  split at h
  · simp at h
  · next hpos =>
    have hne : ∀ data : Bytes, data.length = Bytes.pairValue high low → data ≠ [] := by
      rintro data hlength rfl
      exact hpos hlength.symm
    split at h
    · next data hcut =>
      obtain ⟨rfl, hlength⟩ := Bytes.cut?_eq_some_iff.mp hcut
      obtain rfl := Option.some.inj h
      rw [List.append_nil]
      exact .extendedData (hne _ hlength) hlength
    · next data neHigh neLow hcut =>
      obtain ⟨rfl, hlength⟩ := Bytes.cut?_eq_some_iff.mp hcut
      obtain rfl := Option.some.inj h
      exact .extendedDataNe (hne _ hlength) hlength neHigh neLow
    · simp at h

theorem ofBytes?_of_ne_zero {first : UInt8} {rest : Bytes} (hfirst : first ≠ 0)
    (hrest : rest ≠ []) : ofBytes? (first :: rest) = ofShort? first.toNat rest := by
  obtain ⟨next, rest, rfl⟩ := List.exists_cons_of_ne_nil hrest
  simp only [ofBytes?, if_neg hfirst]

theorem ofBytes?_of_zero {high low : UInt8} {rest : Bytes} (hrest : rest ≠ []) :
    ofBytes? (0 :: high :: low :: rest) = ofExtended? (Bytes.pairValue high low) rest := by
  obtain ⟨next, rest, rfl⟩ := List.exists_cons_of_ne_nil hrest
  rfl

/-- A body is read exactly from the bytes of its layout. -/
theorem ofBytes?_eq_some_iff {bytes : Bytes} {body : Body} :
    ofBytes? bytes = some body ↔ Layout bytes body := by
  constructor
  · intro h
    match bytes with
    | [] =>
      obtain rfl := Option.some.inj h
      exact .empty
    | [low] =>
      obtain rfl := Option.some.inj h
      exact .shortNe low
    | first :: next :: rest =>
      simp only [ofBytes?] at h
      split at h
      · next hfirst =>
        subst hfirst
        match rest with
        | [] => simp at h
        | [low] =>
          obtain rfl := Option.some.inj h
          exact .extendedNe next low
        | low :: more :: rest => exact layout_of_ofExtended? h
      · next hne => exact layout_of_ofShort? hne h
  · intro layout
    cases layout with
    | empty => rfl
    | shortNe low => rfl
    | shortData hne hlength =>
      rw [ofBytes?_of_ne_zero ((ne_nil_iff hlength).mp hne) hne, ofShort?,
        Bytes.cut?_eq_some_iff.mpr ⟨(List.append_nil _).symm, hlength⟩]
    | shortDataNe hne hlength low =>
      rw [ofBytes?_of_ne_zero ((ne_nil_iff hlength).mp hne) (by simp), ofShort?,
        Bytes.cut?_eq_some_iff.mpr ⟨rfl, hlength⟩]
    | extendedNe high low => rfl
    | extendedData hne hlength =>
      have hpos : Bytes.pairValue _ _ ≠ 0 := hlength ▸ mt List.length_eq_zero_iff.mp hne
      rw [ofBytes?_of_zero hne, ofExtended?, if_neg hpos,
        Bytes.cut?_eq_some_iff.mpr ⟨(List.append_nil _).symm, hlength⟩]
    | extendedDataNe hne hlength neHigh neLow =>
      have hpos : Bytes.pairValue _ _ ≠ 0 := hlength ▸ mt List.length_eq_zero_iff.mp hne
      rw [ofBytes?_of_zero (by simp), ofExtended?, if_neg hpos,
        Bytes.cut?_eq_some_iff.mpr ⟨rfl, hlength⟩]

end Body

/-! ### Commands as bytes -/

/-- A command whose class byte is one and whose lengths fit its length fields. -/
structure Transmissible (command : Command) : Prop where
  cla_ne : command.cla ≠ 0xFF
  length_le : command.data.length ≤ 65535
  ne_bounds : ∀ ne ∈ command.ne, 1 ≤ ne ∧ ne ≤ 65536
  /-- Short fields hold one byte each; that fields are extended shows only where there are some. -/
  fields : (command.extended = false ∧ command.data.length ≤ 255 ∧ ∀ ne ∈ command.ne, ne ≤ 256) ∨
    (command.extended = true ∧ (command.data ≠ [] ∨ command.ne ≠ none))

/-- What the bytes after the header say. -/
def body (command : Command) : Body :=
  ⟨command.data, command.ne, command.extended⟩

theorem decode_eq_ok_iff_layout {bytes : Bytes} {command : Command} :
    decode bytes = .ok command ↔
      command.cla ≠ 0xFF ∧ ∃ rest, Body.Layout rest command.body ∧
        command.cla :: command.ins :: command.p1 :: command.p2 :: rest = bytes := by
  constructor
  · intro h
    unfold decode at h
    split at h
    · next cla ins p1 p2 rest =>
      split at h
      · simp at h
      · next hcla =>
        split at h
        · next body hbody =>
          obtain rfl := Except.ok.inj h
          exact ⟨hcla, rest, Body.ofBytes?_eq_some_iff.mp hbody, rfl⟩
        · simp at h
    · simp at h
  · rintro ⟨hcla, rest, layout, rfl⟩
    simp only [decode, if_neg hcla, Body.ofBytes?_eq_some_iff.mpr layout]
    rfl

theorem Body.Layout.transmissible {rest : Bytes} {command : Command}
    (layout : Layout rest command.body) (hcla : command.cla ≠ 0xFF) : command.Transmissible := by
  obtain ⟨cla, ins, p1, p2, data, ne, extended⟩ := command
  change Layout rest ⟨data, ne, extended⟩ at layout
  cases layout with
  | empty => exact ⟨hcla, Nat.zero_le _, nofun, .inl ⟨rfl, Nat.zero_le _, nofun⟩⟩
  | shortNe low =>
    have hne := shortNe_bounds low
    exact ⟨hcla, Nat.zero_le _, by rintro _ ⟨⟩; omega,
      .inl ⟨rfl, Nat.zero_le _, by rintro _ ⟨⟩; omega⟩⟩
  | @shortData length _ hdata hlength =>
    have hbound : data.length ≤ 255 := hlength ▸ Nat.le_of_lt_succ length.toNat_lt
    exact ⟨hcla, Nat.le_trans hbound (by decide), nofun, .inl ⟨rfl, hbound, nofun⟩⟩
  | @shortDataNe length _ hdata hlength low =>
    have hbound : data.length ≤ 255 := hlength ▸ Nat.le_of_lt_succ length.toNat_lt
    have hne := shortNe_bounds low
    exact ⟨hcla, Nat.le_trans hbound (by decide), by rintro _ ⟨⟩; omega,
      .inl ⟨rfl, hbound, by rintro _ ⟨⟩; omega⟩⟩
  | extendedNe high low =>
    have hne := extendedNe_bounds high low
    exact ⟨hcla, Nat.zero_le _, by rintro _ ⟨⟩; exact hne, .inr ⟨rfl, .inr nofun⟩⟩
  | @extendedData high low _ hdata hlength =>
    have hbound : data.length ≤ 65535 := hlength ▸ Nat.le_of_lt_succ (Bytes.pairValue_lt high low)
    exact ⟨hcla, hbound, nofun, .inr ⟨rfl, .inl hdata⟩⟩
  | @extendedDataNe high low _ hdata hlength neHigh neLow =>
    have hbound : data.length ≤ 65535 := hlength ▸ Nat.le_of_lt_succ (Bytes.pairValue_lt high low)
    have hne := extendedNe_bounds neHigh neLow
    exact ⟨hcla, hbound, by rintro _ ⟨⟩; exact hne, .inr ⟨rfl, .inl hdata⟩⟩

theorem Body.Layout.encode_eq {rest : Bytes} {command : Command}
    (layout : Layout rest command.body) : command.encodeData ++ command.encodeNe = rest := by
  obtain ⟨cla, ins, p1, p2, data, ne, extended⟩ := command
  change Layout rest ⟨data, ne, extended⟩ at layout
  cases layout with
  | empty => rfl
  | shortNe low => simp [encodeData, encodeNe, ofNat_shortNe]
  | shortData hdata hlength => simp [encodeData, encodeNe, hdata, hlength]
  | shortDataNe hdata hlength low =>
    simp [encodeData, encodeNe, hdata, hlength, ofNat_shortNe]
  | extendedNe high low => simp [encodeData, encodeNe, ofPair_extendedNe]
  | extendedData hdata hlength =>
    simp [encodeData, encodeNe, hdata, hlength, Bytes.ofPair_pairValue]
  | extendedDataNe hdata hlength neHigh neLow =>
    simp [encodeData, encodeNe, hdata, hlength, Bytes.ofPair_pairValue, ofPair_extendedNe]

theorem Transmissible.layout {command : Command} (transmissible : command.Transmissible) :
    Body.Layout (command.encodeData ++ command.encodeNe) command.body := by
  obtain ⟨hcla, hlength, hbounds, hfields⟩ := transmissible
  obtain ⟨cla, ins, p1, p2, data, ne, extended⟩ := command
  simp only at hcla hlength hbounds hfields
  change Body.Layout _ ⟨data, ne, extended⟩
  rcases hfields with ⟨rfl, hshort, hne⟩ | ⟨rfl, hpresent⟩
  · have hcount : data.length = (UInt8.ofNat data.length).toNat :=
      (UInt8.toNat_ofNat_of_lt' (Nat.lt_succ_of_le hshort)).symm
    by_cases hdata : data = []
    · subst hdata
      cases ne with
      | none => exact .empty
      | some ne =>
        have layout := Body.Layout.shortNe (UInt8.ofNat ne)
        rwa [shortNe_ofNat (hbounds ne rfl).1 (hne ne rfl)] at layout
    · cases ne with
      | none =>
        have layout := Body.Layout.shortData hdata hcount
        simpa [encodeData, encodeNe, hdata] using layout
      | some ne =>
        have layout := Body.Layout.shortDataNe hdata hcount (UInt8.ofNat ne)
        rw [shortNe_ofNat (hbounds ne rfl).1 (hne ne rfl)] at layout
        simpa [encodeData, encodeNe, hdata] using layout
  · have hcount : data.length =
        Bytes.pairValue (UInt8.ofNat (data.length / 256)) (UInt8.ofNat data.length) := by
      rw [Bytes.pairValue_ofNat, Nat.mod_eq_of_lt (Nat.lt_succ_of_le hlength)]
    by_cases hdata : data = []
    · subst hdata
      cases ne with
      | none => simp at hpresent
      | some ne =>
        have layout := Body.Layout.extendedNe (UInt8.ofNat (ne / 256)) (UInt8.ofNat ne)
        rwa [extendedNe_ofNat (hbounds ne rfl).1 (hbounds ne rfl).2] at layout
    · cases ne with
      | none =>
        have layout := Body.Layout.extendedData hdata hcount
        simpa [encodeData, encodeNe, hdata, Bytes.ofPair] using layout
      | some ne =>
        have layout := Body.Layout.extendedDataNe hdata hcount (UInt8.ofNat (ne / 256))
          (UInt8.ofNat ne)
        rw [extendedNe_ofNat (hbounds ne rfl).1 (hbounds ne rfl).2] at layout
        simpa [encodeData, encodeNe, hdata, Bytes.ofPair] using layout

theorem decode_eq_ok_iff {bytes : Bytes} {command : Command} :
    decode bytes = .ok command ↔ command.Transmissible ∧ command.encode = bytes := by
  rw [decode_eq_ok_iff_layout]
  constructor
  · rintro ⟨hcla, rest, layout, rfl⟩
    refine ⟨layout.transmissible hcla, ?_⟩
    rw [encode, layout.encode_eq]
  · rintro ⟨transmissible, rfl⟩
    exact ⟨transmissible.cla_ne, _, transmissible.layout, rfl⟩

/-- Reading and writing are inverse to each other between the byte strings that are read as a
command and the commands that can be transmitted. -/
theorem decode_bijection :
    (∀ bytes, (∃ command, decode bytes = .ok command) ↔
      ∃ command : Command, command.Transmissible ∧ command.encode = bytes) ∧
    ∀ bytes command, decode bytes = .ok command ↔
      command.Transmissible ∧ command.encode = bytes :=
  ⟨fun _ => exists_congr fun _ => decode_eq_ok_iff, fun _ _ => decode_eq_ok_iff⟩

end SmartCard.Command
