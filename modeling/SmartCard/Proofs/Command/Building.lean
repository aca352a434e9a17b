import SmartCard.Proofs.Command.Layout

/-!
# Commands built from their parts

A command that is built has lengths that its length fields can hold, but nothing is asked of its
class byte. So it is read back from its bytes unless the class byte is `FF`, which is read from no
bytes at all. Of the ways to write a command, building takes the shortest, and extended fields only
where the short ones do not suffice.
-/

namespace SmartCard.Command

variable {cla ins p1 p2 : UInt8} {data : Bytes} {ne : Option Nat}

/-- What is true of every command that is built: its lengths fit, and its length fields are the
extended ones just when one of them does not fit a short field. -/
structure Built (command : Command) : Prop where
  length_le : command.data.length ≤ 65535
  ne_bounds : ∀ ne ∈ command.ne, 1 ≤ ne ∧ ne ≤ 65536
  extended_iff : command.extended = true ↔
    255 < command.data.length ∨ ∃ ne ∈ command.ne, 256 < ne

theorem build_eq_ok_iff {command : Command} :
    build cla ins p1 p2 data ne = .ok command ↔
      command.Built ∧ command = ⟨cla, ins, p1, p2, data, ne, command.extended⟩ := by
  have hrefused : (maxData < data.length ∨ ne.any (fun ne => ne = 0 ∨ maxNe < ne)) ↔
      ¬ (data.length ≤ 65535 ∧ ∀ n ∈ ne, 1 ≤ n ∧ n ≤ 65536) := by
    cases ne with
    | none => simp [maxData]
    | some n =>
      simp only [Option.any_some, decide_eq_true_iff, Option.mem_some_iff, forall_eq']
      unfold maxData maxNe
      omega
  have hextended : (0xFF < data.length ∨ ne.any (0x100 < ·)) ↔
      255 < data.length ∨ ∃ n ∈ ne, 256 < n := by
    simp [Option.any_eq_true]
  simp only [build, hrefused, hextended]
  constructor
  · intro h
    split at h
    · simp at h
    · next hfits =>
      obtain ⟨hlength, hne⟩ := Classical.not_not.mp hfits
      obtain rfl := Except.ok.inj h
      exact ⟨⟨hlength, hne, decide_eq_true_iff⟩, rfl⟩
  · rintro ⟨⟨hlength, hne, hfields⟩, hcommand⟩
    obtain ⟨_, _, _, _, _, _, extended⟩ := command
    obtain ⟨rfl, rfl, rfl, rfl, rfl, rfl, -⟩ := Command.mk.inj hcommand
    rw [if_neg (Classical.not_not.mpr ⟨hlength, hne⟩)]
    congr 2
    exact Bool.eq_iff_iff.mpr (decide_eq_true_iff.trans hfields.symm)

theorem Built.transmissible {command : Command} (built : command.Built)
    (hcla : command.cla ≠ 0xFF) : command.Transmissible := by
  refine ⟨hcla, built.length_le, built.ne_bounds, ?_⟩
  cases hextended : command.extended with
  | false =>
    have hfits := mt built.extended_iff.mpr (by simp [hextended])
    simp only [not_or, not_exists, not_and, Nat.not_lt] at hfits
    exact .inl ⟨rfl, hfits⟩
  | true =>
    refine .inr ⟨rfl, ?_⟩
    rcases built.extended_iff.mp hextended with hlong | ⟨ne, hne, -⟩
    · exact .inl (List.ne_nil_of_length_pos (Nat.zero_lt_of_lt hlong))
    · exact .inr (Option.ne_none_iff_exists'.mpr ⟨ne, hne⟩)

/-- No command is read whose class byte is `FF`. -/
theorem decode_encode_of_cla {command : Command} (hcla : command.cla = 0xFF) :
    decode command.encode = .error .malformedCommand := by
  rw [encode, decode, if_pos hcla]

/-- What was built is read back from its bytes, unless its class byte is `FF`. -/
theorem decode_encode_of_build {command : Command}
    (h : build cla ins p1 p2 data ne = .ok command) :
    decode command.encode = if cla = 0xFF then .error .malformedCommand else .ok command := by
  obtain ⟨built, hcommand⟩ := build_eq_ok_iff.mp h
  have hclass : command.cla = cla := by rw [hcommand]
  split
  · next hcla => exact decode_encode_of_cla (hclass.trans hcla)
  · next hcla =>
    exact decode_eq_ok_iff.mpr ⟨built.transmissible (by rwa [hclass]), rfl⟩

/-- The largest expected length, which is written as `0000` and needs extended fields. -/
theorem decode_encode_of_build_largest :
    let command : Command := ⟨0x00, 0xCB, 0x3F, 0xFF, [0x5C, 0x00], some 65536, true⟩
    build 0x00 0xCB 0x3F 0xFF [0x5C, 0x00] (some 65536) = .ok command ∧
      command.encode =
        [0x00, 0xCB, 0x3F, 0xFF, 0x00, 0x00, 0x02, 0x5C, 0x00, 0x00, 0x00] ∧
      decode command.encode = .ok command := by
  intro command
  have h : build 0x00 0xCB 0x3F 0xFF [0x5C, 0x00] (some 65536) = .ok command := rfl
  have hread := decode_encode_of_build h
  rw [if_neg (by decide)] at hread
  exact ⟨h, by decide, hread⟩

/-- A command of the class `FF` is built, and its bytes are not read. So building and reading do not
agree on every command. -/
theorem built_and_not_read :
    (∃ command, build 0xFF 0x84 0x00 0x00 [] none = .ok command ∧
      command.encode = [0xFF, 0x84, 0x00, 0x00] ∧
      decode command.encode = .error .malformedCommand) ∧
    ¬ ∀ (cla ins p1 p2 : UInt8) (data : Bytes) (ne : Option Nat) (command : Command),
      build cla ins p1 p2 data ne = .ok command → decode command.encode = .ok command := by
  have hbuilt : build 0xFF 0x84 0x00 0x00 [] none =
      .ok ⟨0xFF, 0x84, 0x00, 0x00, [], none, false⟩ := rfl
  refine ⟨⟨_, hbuilt, rfl, rfl⟩, ?_⟩
  intro hread
  have hcontra := hread _ _ _ _ _ _ _ hbuilt
  rw [decode_encode_of_cla rfl] at hcontra
  cases hcontra

/-! ### The shortest way to write a command -/

/-- Two commands that are the same, except perhaps for the kind of their length fields. -/
def Agrees (a b : Command) : Prop :=
  { a with extended := false } = { b with extended := false }

theorem Agrees.cla_eq {a b : Command} (h : a.Agrees b) : a.cla = b.cla := by
  have hcla := congrArg Command.cla h
  exact hcla

theorem Agrees.data_eq {a b : Command} (h : a.Agrees b) : a.data = b.data := by
  have hdata := congrArg Command.data h
  exact hdata

theorem Agrees.ne_eq {a b : Command} (h : a.Agrees b) : a.ne = b.ne := by
  have hne := congrArg Command.ne h
  exact hne

theorem Agrees.eq_of_extended {a b : Command} (h : a.Agrees b) {extended : Bool}
    (ha : a.extended = extended) : a = { b with extended } := by
  subst ha
  exact congrArg (fun command : Command => { command with extended := a.extended }) h

/-- Short fields make a command shorter, where it has any fields. -/
theorem length_encode_short_lt (command : Command)
    (hpresent : command.data ≠ [] ∨ command.ne ≠ none) :
    { command with extended := false }.encode.length <
      { command with extended := true }.encode.length := by
  obtain ⟨cla, ins, p1, p2, data, ne, extended⟩ := command
  cases data <;> cases ne <;> simp [encode, encodeData, encodeNe, Bytes.ofPair] at hpresent ⊢

/-- What is built has extended fields only where they cannot be avoided. -/
theorem Built.extended_of_agrees {built other : Command} (hbuilt : built.Built)
    (hother : other.Transmissible) (hagrees : other.Agrees built)
    (hextended : built.extended = true) : other.extended = true := by
  rcases hother.fields with ⟨-, hlength, hne⟩ | ⟨hlong, -⟩
  · exfalso
    rw [hagrees.data_eq] at hlength
    rw [hagrees.ne_eq] at hne
    rcases hbuilt.extended_iff.mp hextended with hdata | ⟨n, hn, hlarge⟩
    · omega
    · have hsmall := hne n hn
      omega
  · exact hlong

/-- Every other way to write what is built takes more bytes. -/
theorem Built.eq_or_length_lt {built other : Command} (hbuilt : built.Built)
    (hother : other.Transmissible) (hagrees : other.Agrees built) :
    other = built ∨ built.encode.length < other.encode.length := by
  by_cases hsame : other.extended = built.extended
  · left
    exact hagrees.eq_of_extended hsame
  · right
    -- The fields differ, and those that are built are never extended where others are short.
    have hbuiltShort : built.extended = false := by
      apply eq_false_of_ne_true
      intro hextended
      exact hsame ((hbuilt.extended_of_agrees hother hagrees hextended).trans hextended.symm)
    have hotherLong : other.extended = true := by
      rw [hbuiltShort] at hsame
      exact eq_true_of_ne_false hsame
    have hpresent : built.data ≠ [] ∨ built.ne ≠ none := by
      rcases hother.fields with ⟨hshort, -⟩ | ⟨-, hpresent⟩
      · exact absurd (hshort.symm.trans hotherLong) (by decide)
      · rwa [hagrees.data_eq, hagrees.ne_eq] at hpresent
    have hlt := length_encode_short_lt built hpresent
    rwa [← hagrees.eq_of_extended hotherLong, ← hbuiltShort] at hlt

/-- The parts of a command that can be transmitted are those of one that is built. -/
theorem Transmissible.exists_build {command : Command} (transmissible : command.Transmissible) :
    ∃ built, build command.cla command.ins command.p1 command.p2 command.data command.ne =
        .ok built ∧ built.Built ∧ built.Agrees command := by
  let built : Command := { command with
    extended := 255 < command.data.length ∨ command.ne.any (256 < ·) }
  have hbuilt : built.Built := by
    refine ⟨transmissible.length_le, transmissible.ne_bounds, ?_⟩
    simp [built, Option.any_eq_true]
  exact ⟨built, build_eq_ok_iff.mpr ⟨hbuilt, rfl⟩, hbuilt, rfl⟩

/-- A command that has been read can be built anew from its parts. The result asks for the same, is
written in the shortest of all forms of this command that are read, and has extended length fields
only if each of these forms has them. -/
theorem build_shortest {bytes : Bytes} {command : Command} (h : decode bytes = .ok command) :
    ∃ built, build command.cla command.ins command.p1 command.p2 command.data command.ne =
        .ok built ∧
      built.Agrees command ∧ decode built.encode = .ok built ∧
      (∀ other read, decode other = .ok read → read.Agrees command →
        other = built.encode ∨ built.encode.length < other.length) ∧
      (built.extended = true ↔
        ∀ other read, decode other = .ok read → read.Agrees command → read.extended = true) := by
  obtain ⟨transmissible, -⟩ := decode_eq_ok_iff.mp h
  obtain ⟨built, hbuild, hbuilt, hagrees⟩ := transmissible.exists_build
  have hread : decode built.encode = .ok built := by
    have hclass : built.cla ≠ 0xFF := hagrees.cla_eq ▸ transmissible.cla_ne
    exact decode_eq_ok_iff.mpr ⟨hbuilt.transmissible hclass, rfl⟩
  refine ⟨built, hbuild, hagrees, hread, ?_, ?_⟩
  · intro other read hother hsame
    obtain ⟨hread, rfl⟩ := decode_eq_ok_iff.mp hother
    rcases hbuilt.eq_or_length_lt hread (Eq.trans hsame (Eq.symm hagrees)) with rfl | hlt
    · exact .inl rfl
    · exact .inr hlt
  · constructor
    · intro hextended other read hother hsame
      obtain ⟨hread, -⟩ := decode_eq_ok_iff.mp hother
      exact hbuilt.extended_of_agrees hread (Eq.trans hsame (Eq.symm hagrees)) hextended
    · intro hall
      exact hall _ _ hread hagrees

/-- A command that is read from extended fields, and built anew with a short one. -/
theorem build_shortest_reading :
    let reading : Command := ⟨0x00, 0xB0, 0x00, 0x00, [], some 256, true⟩
    decode [0x00, 0xB0, 0x00, 0x00, 0x00, 0x01, 0x00] = .ok reading ∧
      ∃ built, build 0x00 0xB0 0x00 0x00 [] (some 256) = .ok built ∧
        built.encode = [0x00, 0xB0, 0x00, 0x00, 0x00] ∧
        ∀ other read, decode other = .ok read → read.Agrees reading →
          other = built.encode ∨ 5 < other.length := by
  intro reading
  have h : decode [0x00, 0xB0, 0x00, 0x00, 0x00, 0x01, 0x00] = .ok reading := rfl
  obtain ⟨built, hbuild, -, -, hshortest, -⟩ := build_shortest h
  obtain rfl : (⟨0x00, 0xB0, 0x00, 0x00, [], some 256, false⟩ : Command) = built :=
    Except.ok.inj hbuild
  exact ⟨h, _, hbuild, rfl, hshortest⟩

end SmartCard.Command
