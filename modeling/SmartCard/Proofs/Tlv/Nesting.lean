import SmartCard.Proofs.Tlv.Canonical

/-!
# The limit of nesting

`Object.Denotes` is the grammar of data objects without a limit of nesting. It is unambiguous, and
reading agrees with it as long as no data object lies too deep: below the 16th level none is
accepted, and on the 16th level itself only primitive ones are, since the limit is looked at before
the content of a constructed object is.
-/

namespace SmartCard.Object

/-- The data objects that bytes stand for, however deeply these are nested. -/
inductive Denotes : Bytes → List Object → Prop
  | nil : Denotes [] []
  | primitive {tag : Tag} {first : UInt8} {more field content rest : Bytes}
      {objects : List Object} (htag : tag.Form first more) (hbit : first &&& 0x20 = 0)
      (hfield : Length.Form content.length field) (hrest : Denotes rest objects) :
      Denotes (tag.bytes ++ (field ++ (content ++ rest))) (.primitive tag content :: objects)
  | constructed {tag : Tag} {first : UInt8} {more field content rest : Bytes}
      {children objects : List Object} (htag : tag.Form first more) (hbit : first &&& 0x20 ≠ 0)
      (hfield : Length.Form content.length field) (hcontent : Denotes content children)
      (hrest : Denotes rest objects) :
      Denotes (tag.bytes ++ (field ++ (content ++ rest))) (.constructed tag children :: objects)

/-- The levels on which data objects lie: the outermost objects on level 1, and what an object
contains one level below it. -/
inductive LiesAt : List Object → Nat → Object → Prop
  | outermost {objects : List Object} {object : Object} (hmem : object ∈ objects) :
      LiesAt objects 1 object
  | inside {objects : List Object} {outer object : Object} {level : Nat} (hmem : outer ∈ objects)
      (h : LiesAt outer.children level object) : LiesAt objects (level + 1) object

/-! ### The grammar is unambiguous -/

theorem denotes_nil_iff {objects : List Object} : Denotes [] objects ↔ objects = [] := by
  constructor
  · intro h
    generalize hbytes : ([] : Bytes) = bytes at h
    cases h with
    | nil => rfl
    | @primitive tag | @constructed tag =>
      have hpos := tag.length_bytes_pos
      have hlength := congrArg List.length hbytes
      simp only [List.length_nil, List.length_append] at hlength
      omega
  · rintro rfl
    exact .nil

/-- What bytes stand for is what their first element stands for, and what the others do. -/
theorem Denotes.exists_of_take? {bytes rest : Bytes} {element : Element} {objects : List Object}
    (h : Denotes bytes objects) (htake : Element.take? bytes = some (element, rest)) :
    ∃ object others, objects = object :: others ∧ Denotes rest others ∧
      ((element.tag.isConstructed = false ∧ object = .primitive element.tag element.content) ∨
        (element.tag.isConstructed = true ∧ ∃ children, Denotes element.content children ∧
          object = .constructed element.tag children)) := by
  cases h with
  | nil => exact absurd (Element.length_rest_of_take? htake) (Nat.not_lt_zero _)
  | @primitive tag first more field content _ objects htag hbit hfield hrest =>
    rw [Element.take?_append ⟨tag, content⟩ hfield] at htake
    cases htake
    have hkind : tag.isConstructed = false := by simpa [htag.isConstructed_eq] using hbit
    exact ⟨_, objects, rfl, hrest, .inl ⟨hkind, rfl⟩⟩
  | @constructed tag first more field content _ children objects htag hbit hfield hcontent hrest =>
    rw [Element.take?_append ⟨tag, content⟩ hfield] at htake
    cases htake
    have hkind : tag.isConstructed = true := by simpa [htag.isConstructed_eq] using hbit
    exact ⟨_, objects, rfl, hrest, .inr ⟨hkind, children, hcontent, rfl⟩⟩

theorem Denotes.unique {bytes : Bytes} {objects other : List Object} (h : Denotes bytes objects)
    (hother : Denotes bytes other) : other = objects := by
  induction h generalizing other with
  | nil => exact denotes_nil_iff.mp hother
  | @primitive tag first more field content rest objects htag hbit hfield _ ih =>
    obtain ⟨object, others, rfl, hrest, ⟨_, rfl⟩ | ⟨hkind, _⟩⟩ :=
      hother.exists_of_take? (Element.take?_append ⟨tag, content⟩ hfield rest)
    · rw [ih hrest]
    · rw [htag.isConstructed_eq, decide_eq_true_eq] at hkind
      exact absurd hbit hkind
  | @constructed tag first more field content rest _ objects htag hbit hfield _ _ ihcontent
      ihrest =>
    obtain ⟨object, others, rfl, hrest, ⟨hkind, _⟩ | ⟨_, children, hcontent, rfl⟩⟩ :=
      hother.exists_of_take? (Element.take?_append ⟨tag, content⟩ hfield rest)
    · rw [htag.isConstructed_eq, decide_eq_false_iff_not] at hkind
      exact absurd hbit hkind
    · rw [ihcontent hcontent, ihrest hrest]

/-! ### Levels -/

section

variable {objects : List Object} {object : Object} {level : Nat}

theorem liesAt_cons_iff {head : Object} :
    LiesAt (head :: objects) level object ↔
      (level = 1 ∧ object = head) ∨
      (∃ inner, level = inner + 1 ∧ LiesAt head.children inner object) ∨
      LiesAt objects level object := by
  constructor
  · intro h
    cases h with
    | outermost hmem =>
      rcases List.mem_cons.mp hmem with rfl | hmem
      · exact .inl ⟨rfl, rfl⟩
      · exact .inr (.inr (.outermost hmem))
    | inside hmem h =>
      rcases List.mem_cons.mp hmem with rfl | hmem
      · exact .inr (.inl ⟨_, rfl, h⟩)
      · exact .inr (.inr (.inside hmem h))
  · rintro (⟨rfl, rfl⟩ | ⟨inner, rfl, h⟩ | h)
    · exact .outermost List.mem_cons_self
    · exact .inside List.mem_cons_self h
    · cases h with
      | outermost hmem => exact .outermost (List.mem_cons_of_mem _ hmem)
      | inside hmem h => exact .inside (List.mem_cons_of_mem _ hmem) h

theorem not_liesAt_nil : ¬ LiesAt [] level object := by
  intro h
  cases h with
  | outermost hmem => cases hmem
  | inside hmem => cases hmem

/-- Right above what lies below the first level, there is a constructed object. -/
theorem LiesAt.exists_above (h : LiesAt objects (level + 1) object) (hlevel : level ≠ 0) :
    ∃ tag children, LiesAt objects level (.constructed tag children) := by
  induction level generalizing objects with
  | zero => exact absurd rfl hlevel
  | succ level ih =>
    cases h with
    | @inside _ outer _ _ hmem h =>
      cases outer with
      | primitive tag value => exact absurd h not_liesAt_nil
      | constructed tag children =>
        by_cases hzero : level = 0
        · subst hzero
          exact ⟨tag, children, .outermost hmem⟩
        · obtain ⟨inner, below, habove⟩ := ih h hzero
          exact ⟨inner, below, .inside hmem habove⟩

end

/-- Constructed objects lie on the first levels only, as many of them as are given. -/
def Shallow (levels : Nat) (objects : List Object) : Prop :=
  ∀ level tag children, LiesAt objects level (.constructed tag children) → level ≤ levels

theorem shallow_nil (levels : Nat) : Shallow levels [] :=
  fun _ _ _ h => absurd h not_liesAt_nil

theorem shallow_cons_iff {levels : Nat} {object : Object} {objects : List Object} :
    Shallow levels (object :: objects) ↔
      (∀ tag children, object = .constructed tag children → 1 ≤ levels ∧
        Shallow (levels - 1) children) ∧ Shallow levels objects := by
  constructor
  · intro h
    refine ⟨?_, fun level tag children hlies => h _ _ _ (liesAt_cons_iff.mpr (.inr (.inr hlies)))⟩
    rintro tag children rfl
    refine ⟨h 1 tag children (.outermost List.mem_cons_self), ?_⟩
    intro level inner below hlies
    have hle := h (level + 1) inner below (.inside List.mem_cons_self hlies)
    omega
  · rintro ⟨hhead, hrest⟩ level tag children hlies
    rcases liesAt_cons_iff.mp hlies with ⟨rfl, hobject⟩ | ⟨inner, rfl, hinner⟩ | hlies
    · exact (hhead tag children hobject.symm).1
    · cases object with
      | primitive _ _ => exact absurd hinner not_liesAt_nil
      | constructed outer below =>
        obtain ⟨hone, hbelow⟩ := hhead outer below rfl
        have hle := hbelow inner tag children hinner
        omega
    · exact hrest level tag children hlies

/-! ### Reading agrees with the grammar up to the limit -/

theorem Spells.denotes {level : Nat} {bytes : Bytes} {objects : List Object}
    (spells : Spells Length.Form level bytes objects) : Denotes bytes objects := by
  induction spells with
  | nil => exact .nil
  | primitive htag hbit hfield _ ih => exact .primitive htag hbit hfield ih
  | constructed htag hbit _ hfield _ _ ihcontent ihrest =>
    exact .constructed htag hbit hfield ihcontent ihrest

theorem Faithful.denotes {level : Nat} {object : Object} (faithful : Faithful level object) :
    Denotes object.encode [object] := by
  have spells := (faithful.spells_append .nil).mono fun _ _ shortest => shortest.form
  rw [List.append_nil] at spells
  exact spells.denotes

theorem Spells.shallow {level levels : Nat} {bytes : Bytes} {objects : List Object}
    (spells : Spells Length.Form level bytes objects) (hlevels : level + levels = 16) :
    Shallow levels objects := by
  induction spells generalizing levels with
  | nil => exact shallow_nil levels
  | primitive _ _ _ _ ih => exact shallow_cons_iff.mpr ⟨nofun, ih hlevels⟩
  | constructed _ _ hlevel _ _ _ ihcontent ihrest =>
    refine shallow_cons_iff.mpr ⟨?_, ihrest hlevels⟩
    rintro _ _ ⟨⟩
    exact ⟨by omega, ihcontent (by omega)⟩

theorem Denotes.spells {level levels : Nat} {bytes : Bytes} {objects : List Object}
    (denotes : Denotes bytes objects) (hlevels : level + levels = 16)
    (hshallow : Shallow levels objects) : Spells Length.Form level bytes objects := by
  induction denotes generalizing level levels with
  | nil => exact .nil
  | primitive htag hbit hfield _ ih =>
    exact .primitive htag hbit hfield (ih hlevels (shallow_cons_iff.mp hshallow).2)
  | constructed htag hbit hfield _ _ ihcontent ihrest =>
    obtain ⟨hhead, hrest⟩ := shallow_cons_iff.mp hshallow
    obtain ⟨hone, hcontent⟩ := hhead _ _ rfl
    exact .constructed htag hbit (by omega) hfield (ihcontent (by omega) hcontent)
      (ihrest hlevels hrest)

theorem decodeAll_eq_ok_iff_shallow {bytes : Bytes} {objects : List Object} :
    decodeAll bytes = .ok objects ↔ Denotes bytes objects ∧ Shallow 15 objects := by
  rw [decodeAll_eq_ok_iff]
  constructor
  · exact fun spells => ⟨spells.denotes, spells.shallow rfl⟩
  · rintro ⟨denotes, hshallow⟩
    exact denotes.spells rfl hshallow

theorem decodeAll_eq_ok_or_malformed (bytes : Bytes) :
    (∃ objects, decodeAll bytes = .ok objects) ∨ decodeAll bytes = .error .malformedData := by
  unfold decodeAll
  cases (Element.takeAll? bytes).bind (ofElements? (maxNesting - 1)) with
  | none => exact .inr rfl
  | some objects => exact .inl ⟨objects, rfl⟩

theorem decodeAll_eq_malformed_iff {bytes : Bytes} {objects : List Object}
    (denotes : Denotes bytes objects) :
    decodeAll bytes = .error .malformedData ↔ ¬ Shallow 15 objects := by
  constructor
  · intro herror hshallow
    rw [decodeAll_eq_ok_iff_shallow.mpr ⟨denotes, hshallow⟩] at herror
    cases herror
  · intro hdeep
    rcases decodeAll_eq_ok_or_malformed bytes with ⟨other, hok⟩ | herror
    · obtain ⟨hother, hshallow⟩ := decodeAll_eq_ok_iff_shallow.mp hok
      rw [denotes.unique hother] at hshallow
      exact absurd hshallow hdeep
    · exact herror

/-- Bytes that stand for data objects are read as these if no object lies below the 16th level and
no constructed one on it. If there is such an object, the bytes are malformed. -/
theorem decodeAll_of_denotes {bytes : Bytes} {objects : List Object}
    (denotes : Denotes bytes objects) :
    ((∀ level object, LiesAt objects level object → level ≤ 16) ∧
        (∀ tag children, ¬ LiesAt objects 16 (.constructed tag children)) →
      decodeAll bytes = .ok objects) ∧
    ((∃ level object, LiesAt objects level object ∧ 16 < level) ∨
        (∃ tag children, LiesAt objects 16 (.constructed tag children)) →
      decodeAll bytes = .error .malformedData) := by
  constructor
  · rintro ⟨hlevels, hlast⟩
    refine decodeAll_eq_ok_iff_shallow.mpr ⟨denotes, ?_⟩
    intro level tag children hlies
    have hle := hlevels level _ hlies
    have hne : level ≠ 16 := by
      rintro rfl
      exact hlast tag children hlies
    omega
  · intro hdeep
    refine (decodeAll_eq_malformed_iff denotes).mpr fun hshallow => ?_
    rcases hdeep with ⟨level, object, hlies, hlevel⟩ | ⟨tag, children, hlies⟩
    · obtain ⟨above, rfl⟩ : ∃ above, level = above + 1 := ⟨level - 1, by omega⟩
      obtain ⟨tag, children, hbefore⟩ := hlies.exists_above (by omega)
      have hle := hshallow above tag children hbefore
      omega
    · have hle := hshallow 16 tag children hlies
      omega

/-! ### On the last level -/

/-- An object inside of as many others as are given, each with nothing else in it. -/
def wrapped (tag : Tag) (object : Object) : Nat → Object
  | 0 => object
  | depth + 1 => .constructed tag [wrapped tag object depth]

section

variable {tag : Tag} {object : Object}

theorem liesAt_wrapped (tag : Tag) (object : Object) (depth : Nat) :
    LiesAt [wrapped tag object depth] (depth + 1) object := by
  induction depth with
  | zero => exact .outermost List.mem_cons_self
  | succ depth ih => exact .inside List.mem_cons_self ih

theorem level_of_liesAt_wrapped (hchildren : object.children = []) {depth level : Nat}
    {other : Object} (h : LiesAt [wrapped tag object depth] level other) :
    level ≤ depth + 1 ∧ (level = depth + 1 → other = object) := by
  induction depth generalizing level with
  | zero =>
    rcases liesAt_cons_iff.mp h with ⟨rfl, rfl⟩ | ⟨inner, rfl, hinner⟩ | hnone
    · exact ⟨Nat.le_refl 1, fun _ => rfl⟩
    · rw [wrapped, hchildren] at hinner
      exact absurd hinner not_liesAt_nil
    · exact absurd hnone not_liesAt_nil
  | succ depth ih =>
    rcases liesAt_cons_iff.mp h with ⟨rfl, _⟩ | ⟨inner, rfl, hinner⟩ | hnone
    · exact ⟨by omega, by omega⟩
    · obtain ⟨hle, hlast⟩ := ih hinner
      exact ⟨by omega, fun hlevel => hlast (by omega)⟩
    · exact absurd hnone not_liesAt_nil

theorem denotes_wrapped (hbit : tag.isConstructed = true) (h : Denotes object.encode [object])
    {depth : Nat} (hlength : (wrapped tag object depth).encode.length < 0x1000000) :
    Denotes (wrapped tag object depth).encode [wrapped tag object depth] := by
  induction depth with
  | zero => exact h
  | succ depth ih =>
    obtain ⟨first, more, htag⟩ := tag.exists_form
    rw [htag.isConstructed_eq, decide_eq_true_eq] at hbit
    have hencode : (wrapped tag object (depth + 1)).encode =
        tag.bytes ++ (Length.encode (wrapped tag object depth).encode.length ++
          ((wrapped tag object depth).encode ++ [])) := by
      simp only [wrapped, encode, encodeAll, List.append_nil]
    rw [hencode] at hlength ⊢
    have hcontent : (wrapped tag object depth).encode.length < 0x1000000 := by
      simp only [List.length_append] at hlength
      omega
    exact .constructed htag hbit (Length.form_encode hcontent) (ih hcontent) .nil

end

/-- On the 16th level, a primitive object is read and a constructed one is not. -/
theorem decodeAll_of_denotes_last_level :
    let sequence : Tag := ⟨[0x30], rfl⟩
    let shallow := wrapped sequence (.primitive (.context 0#4) []) 15
    let deep := wrapped sequence (.constructed sequence []) 15
    Denotes shallow.encode [shallow] ∧ decodeAll shallow.encode = .ok [shallow] ∧
      Denotes deep.encode [deep] ∧ decodeAll deep.encode = .error .malformedData := by
  intro sequence shallow deep
  have hprimitive : Faithful 1 (.primitive (.context 0#4) []) := .primitive rfl (by decide)
  have hempty : Faithful 1 (.constructed sequence []) :=
    .constructed rfl (by decide) (by decide) (by simp)
  have hshallow : Denotes shallow.encode [shallow] :=
    denotes_wrapped rfl hprimitive.denotes (by decide +kernel)
  have hdeep : Denotes deep.encode [deep] :=
    denotes_wrapped rfl hempty.denotes (by decide +kernel)
  refine ⟨hshallow, (decodeAll_of_denotes hshallow).1 ⟨?_, ?_⟩, hdeep,
    (decodeAll_of_denotes hdeep).2 (.inr ⟨_, _, liesAt_wrapped sequence _ 15⟩)⟩
  · exact fun level object h => (level_of_liesAt_wrapped rfl h).1
  · intro tag children h
    cases (level_of_liesAt_wrapped rfl h).2 rfl

/-- An empty constructed object on the 16th level. Nothing lies below that level, and yet the bytes
are malformed. -/
theorem empty_on_last_level :
    let sequence : Tag := ⟨[0x30], rfl⟩
    let objects := [wrapped sequence (.constructed sequence []) 15]
    let bytes : Bytes := [0x30, 0x1E, 0x30, 0x1C, 0x30, 0x1A, 0x30, 0x18, 0x30, 0x16, 0x30, 0x14,
      0x30, 0x12, 0x30, 0x10, 0x30, 0x0E, 0x30, 0x0C, 0x30, 0x0A, 0x30, 0x08, 0x30, 0x06,
      0x30, 0x04, 0x30, 0x02, 0x30, 0x00]
    Denotes bytes objects ∧ (∀ level object, LiesAt objects level object → level ≤ 16) ∧
      decodeAll bytes = .error .malformedData := by
  intro sequence objects bytes
  have hbytes : bytes = (wrapped sequence (.constructed sequence []) 15).encode := by
    decide +kernel
  have hempty : Faithful 1 (.constructed sequence []) :=
    .constructed rfl (by decide) (by decide) (by simp)
  have hdenotes : Denotes bytes objects := by
    rw [hbytes]
    exact denotes_wrapped rfl hempty.denotes (by decide +kernel)
  refine ⟨hdenotes, fun level object h => (level_of_liesAt_wrapped rfl h).1, ?_⟩
  refine (decodeAll_eq_malformed_iff hdenotes).mpr fun hshallow => ?_
  exact absurd (hshallow 16 sequence [] (liesAt_wrapped sequence _ 15)) (by decide)

end SmartCard.Object
