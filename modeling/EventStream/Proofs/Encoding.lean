import EventStream.Proofs.RoundTrip

/-!
Bytes in which no fault is found are those of a text. A lead octet fixes the ranges of the octets
behind it so narrowly that the number they come to is that of a character, and one that needs as
many octets. So character after character can be taken off the front.
-/

namespace EventStream

namespace Utf8

def Meets (owed : List Range) (behind : Bytes) : Prop :=
  List.Forall₂ (fun range octet => range.holds octet = true) owed behind

theorem holds_iff {range : Range} {octet : UInt8} :
    range.holds octet = true ↔
      range.low.toNat ≤ octet.toNat ∧ octet.toNat ≤ range.high.toNat := by
  rw [Range.holds, Bool.and_eq_true, decide_eq_true_eq, decide_eq_true_eq, UInt8.le_iff_toNat_le,
    UInt8.le_iff_toNat_le]

theorem char_of_number {number : Nat} (valid : number.isValidChar) :
    ∃ c : Char, c.val.toNat = number :=
  ⟨Char.ofNatAux number valid, rfl⟩

theorem octet_of_number {number : Nat} {octet : UInt8} (same : number = octet.toNat) :
    UInt8.ofNat number = octet := by
  rw [same, UInt8.ofNat_toNat]

/-! The encodings by their length. The number of a character is put together from the octets, and
its encoding gives them back. -/

section Encoded

variable {lead second third fourth : UInt8} {number : Nat}

theorem encoded_one (least : lead.toNat ≤ 0x7F) : ∃ c, String.utf8EncodeChar c = [lead] := by
  obtain ⟨c, same⟩ := @char_of_number lead.toNat (.inl (by omega))
  refine ⟨c, ?_⟩
  rw [String.utf8EncodeChar, same, if_pos least, octet_of_number rfl]

theorem encoded_two (leads : 0xC2 ≤ lead.toNat ∧ lead.toNat ≤ 0xDF)
    (follows : 0x80 ≤ second.toNat ∧ second.toNat ≤ 0xBF) :
    ∃ c, String.utf8EncodeChar c = [lead, second] := by
  obtain ⟨c, same⟩ := @char_of_number ((lead.toNat - 0xC0) * 64 + (second.toNat - 0x80))
    (.inl (by omega))
  refine ⟨c, ?_⟩
  rw [String.utf8EncodeChar, same, if_neg (by omega), if_pos (by omega),
    octet_of_number (by omega : _ = lead.toNat), octet_of_number (by omega : _ = second.toNat)]

theorem encoded_three
    (whole : number = (lead.toNat - 0xE0) * 4096 + (second.toNat - 0x80) * 64 +
      (third.toNat - 0x80))
    (leads : 0xE0 ≤ lead.toNat ∧ lead.toNat ≤ 0xEF)
    (follows : 0x80 ≤ second.toNat ∧ second.toNat ≤ 0xBF)
    (last : 0x80 ≤ third.toNat ∧ third.toNat ≤ 0xBF)
    (least : 0x800 ≤ number) (valid : number.isValidChar) :
    ∃ c, String.utf8EncodeChar c = [lead, second, third] := by
  obtain ⟨c, same⟩ := char_of_number valid
  refine ⟨c, ?_⟩
  rw [String.utf8EncodeChar, same, if_neg (by omega), if_neg (by omega), if_pos (by omega),
    octet_of_number (by omega : _ = lead.toNat), octet_of_number (by omega : _ = second.toNat),
    octet_of_number (by omega : _ = third.toNat)]

theorem encoded_four
    (whole : number = (lead.toNat - 0xF0) * 262144 + (second.toNat - 0x80) * 4096 +
      (third.toNat - 0x80) * 64 + (fourth.toNat - 0x80))
    (leads : 0xF0 ≤ lead.toNat ∧ lead.toNat ≤ 0xF4)
    (follows : 0x80 ≤ second.toNat ∧ second.toNat ≤ 0xBF)
    (between : 0x80 ≤ third.toNat ∧ third.toNat ≤ 0xBF)
    (last : 0x80 ≤ fourth.toNat ∧ fourth.toNat ≤ 0xBF)
    (least : 0x10000 ≤ number) (most : number < 0x110000) :
    ∃ c, String.utf8EncodeChar c = [lead, second, third, fourth] := by
  obtain ⟨c, same⟩ := @char_of_number number (.inr ⟨by omega, most⟩)
  refine ⟨c, ?_⟩
  rw [String.utf8EncodeChar, same, if_neg (by omega), if_neg (by omega), if_neg (by omega),
    octet_of_number (by omega : _ = lead.toNat), octet_of_number (by omega : _ = second.toNat),
    octet_of_number (by omega : _ = third.toNat), octet_of_number (by omega : _ = fourth.toNat)]

end Encoded

theorem followers_numbers (lead : UInt8) : followers lead =
    if lead.toNat ≤ 0x7F then some []
    else if 0xC2 ≤ lead.toNat ∧ lead.toNat ≤ 0xDF then some [tail]
    else if lead.toNat = 0xE0 then some [⟨0xA0, 0xBF⟩, tail]
    else if lead.toNat = 0xED then some [⟨0x80, 0x9F⟩, tail]
    else if 0xE1 ≤ lead.toNat ∧ lead.toNat ≤ 0xEF then some [tail, tail]
    else if lead.toNat = 0xF0 then some [⟨0x90, 0xBF⟩, tail, tail]
    else if 0xF1 ≤ lead.toNat ∧ lead.toNat ≤ 0xF3 then some [tail, tail, tail]
    else if lead.toNat = 0xF4 then some [⟨0x80, 0x8F⟩, tail, tail]
    else none := by
  simp only [followers, UInt8.le_iff_toNat_le, ← UInt8.toNat_inj, UInt8.reduceToNat]

theorem followers_cases {lead : UInt8} {owed : List Range} (found : followers lead = some owed) :
    (lead.toNat ≤ 0x7F ∧ owed = []) ∨
    (0xC2 ≤ lead.toNat ∧ lead.toNat ≤ 0xDF ∧ owed = [tail]) ∨
    (0xE0 ≤ lead.toNat ∧ lead.toNat ≤ 0xEF ∧ ∃ range : Range, owed = [range, tail] ∧
      0x80 ≤ range.low.toNat ∧ range.high.toNat ≤ 0xBF ∧
      (lead.toNat = 0xE0 → 0xA0 ≤ range.low.toNat) ∧
      (lead.toNat = 0xED → range.high.toNat ≤ 0x9F)) ∨
    (0xF0 ≤ lead.toNat ∧ lead.toNat ≤ 0xF4 ∧ ∃ range : Range, owed = [range, tail, tail] ∧
      0x80 ≤ range.low.toNat ∧ range.high.toNat ≤ 0xBF ∧
      (lead.toNat = 0xF0 → 0x90 ≤ range.low.toNat) ∧
      (lead.toNat = 0xF4 → range.high.toNat ≤ 0x8F)) := by
  rw [followers_numbers] at found
  split_ifs at found with ascii two first surrogate three low four high
  all_goals cases found
  · exact .inl ⟨ascii, rfl⟩
  · exact .inr (.inl ⟨two.1, two.2, rfl⟩)
  · exact .inr (.inr (.inl ⟨by omega, by omega, _, rfl, by decide, by decide, by simp, by omega⟩))
  · exact .inr (.inr (.inl ⟨by omega, by omega, _, rfl, by decide, by decide, by omega, by simp⟩))
  · exact .inr (.inr (.inl ⟨by omega, three.2, _, rfl, by decide, by decide, by omega, by omega⟩))
  · exact .inr (.inr (.inr ⟨by omega, by omega, _, rfl, by decide, by decide, by simp, by omega⟩))
  · exact .inr (.inr (.inr ⟨by omega, by omega, _, rfl, by decide, by decide, by omega, by omega⟩))
  · exact .inr (.inr (.inr ⟨by omega, by omega, _, rfl, by decide, by decide, by omega, by simp⟩))

/-- A lead with the octets that it asks for is the encoding of a character. -/
theorem encoded_char {lead : UInt8} {owed : List Range} {behind : Bytes}
    (found : followers lead = some owed) (meets : Meets owed behind) :
    ∃ c : Char, String.utf8EncodeChar c = lead :: behind := by
  unfold Meets at meets
  have inner {octet : UInt8} (holds : tail.holds octet = true) :
      0x80 ≤ octet.toNat ∧ octet.toNat ≤ 0xBF := holds_iff.mp holds
  rcases followers_cases found with
    ⟨ascii, rfl⟩ | ⟨least, most, rfl⟩ | ⟨least, most, range, rfl, low, high, first, surrogate⟩ |
    ⟨least, most, range, rfl, low, high, first, last⟩
  · cases meets
    exact encoded_one ascii
  · rcases meets with - | ⟨second, - | _⟩
    exact encoded_two ⟨least, most⟩ (inner second)
  · rcases meets with - | ⟨second, - | ⟨third, - | _⟩⟩
    have within := holds_iff.mp second
    have ending := inner third
    -- Below this range lies an overlong form, and beyond it a surrogate.
    refine encoded_three rfl ⟨least, most⟩ (by omega) ending (by omega) ?_
    unfold Nat.isValidChar
    omega
  · rcases meets with - | ⟨second, - | ⟨third, - | ⟨fourth, - | _⟩⟩⟩
    have within := holds_iff.mp second
    have between := inner third
    have ending := inner fourth
    exact encoded_four rfl ⟨least, most⟩ (by omega) between ending (by omega) (by omega)

theorem faultFrom_none {start seen : Nat} {owed : List Range} {bytes : Bytes}
    (sound : faultFrom start seen owed bytes = none) :
    ∃ behind rest, bytes = behind ++ rest ∧ Meets owed behind ∧ fault? rest = none := by
  induction owed generalizing start seen bytes with
  | nil => exact ⟨[], bytes, rfl, .nil, faultFrom_elsewhere sound 0 0⟩
  | cons range more ih =>
    cases bytes with
    | nil => cases sound
    | cons octet bytes =>
      unfold faultFrom at sound
      dsimp only at sound
      split at sound
      next holds =>
        split at sound
        next last =>
          rw [List.isEmpty_iff] at last
          subst last
          exact ⟨[octet], bytes, rfl, .cons holds .nil, faultFrom_elsewhere sound 0 0⟩
        next =>
          obtain ⟨behind, rest, rfl, meets, later⟩ := ih sound
          exact ⟨octet :: behind, rest, rfl, .cons holds meets, later⟩
      next => cases sound

theorem fault?_cons {lead : UInt8} {bytes : Bytes} (sound : fault? (lead :: bytes) = none) :
    ∃ (c : Char) (rest : Bytes), lead :: bytes = String.utf8EncodeChar c ++ rest ∧
      fault? rest = none := by
  unfold fault? faultFrom at sound
  dsimp only at sound
  split at sound
  next => cases sound
  next alone =>
    obtain ⟨c, encoded⟩ := encoded_char alone .nil
    refine ⟨c, bytes, ?_, faultFrom_elsewhere sound 0 0⟩
    rw [encoded]
    rfl
  next owed found =>
    obtain ⟨behind, rest, rfl, meets, later⟩ := faultFrom_none sound
    obtain ⟨c, encoded⟩ := encoded_char found meets
    refine ⟨c, rest, ?_, later⟩
    rw [encoded]
    rfl

end Utf8

namespace Bytes

/-- The octets of some text. -/
def IsText (bytes : Bytes) : Prop := ∃ text : String, ofText text = bytes

theorem ofText_ofList (characters : List Char) :
    ofText (String.ofList characters) = characters.flatMap String.utf8EncodeChar := by
  rw [ofText, String.toUTF8_eq_toByteArray, String.toByteArray_ofList, List.utf8Encode]
  simp

theorem ofText_toList (text : String) :
    ofText text = text.toList.flatMap String.utf8EncodeChar := by
  rw [← ofText_ofList, String.ofList_toList]

theorem ofText_inj {left right : String} (same : ofText left = ofText right) : left = right :=
  String.toByteArray_inj.mp (ByteArray.ext (Array.toList_inj.mp same))

theorem isText_characters (characters : List Char) :
    IsText (characters.flatMap String.utf8EncodeChar) := ⟨_, ofText_ofList characters⟩

theorem isText_ofText (text : String) : IsText (ofText text) := ⟨text, rfl⟩

theorem ofText_append (first second : String) :
    ofText (first ++ second) = ofText first ++ ofText second := by
  simp [ofText, String.toUTF8_eq_toByteArray]

theorem isText_nil : IsText [] := ⟨"", rfl⟩

theorem IsText.append {first second : Bytes} (one : IsText first) (two : IsText second) :
    IsText (first ++ second) := by
  obtain ⟨one, rfl⟩ := one
  obtain ⟨two, rfl⟩ := two
  exact ⟨one ++ two, ofText_append one two⟩

theorem isText_intercalate {lines : List Bytes} (texts : ∀ line ∈ lines, IsText line) :
    IsText (List.intercalate [lineFeed] lines) := by
  induction lines with
  | nil => exact isText_nil
  | cons line rest ih =>
    rw [List.forall_mem_cons] at texts
    by_cases more : rest = []
    · rw [more, List.intercalate_singleton]
      exact texts.1
    · rw [List.intercalate_cons_of_ne_nil more]
      exact (texts.1.append (isText_ofText "\n")).append (ih texts.2)

theorem isText_of_sound {bytes : Bytes} (sound : Utf8.fault? bytes = none) : IsText bytes := by
  -- Each step takes off a character, so that what is left is shorter.
  induction size : bytes.length using Nat.strong_induction_on generalizing bytes with
  | _ size ih =>
    subst size
    cases bytes with
    | nil => exact isText_nil
    | cons lead bytes =>
      obtain ⟨c, rest, whole, later⟩ := Utf8.fault?_cons sound
      have shorter : rest.length < (lead :: bytes).length := by
        rw [whole, List.length_append]
        have long := c.utf8Size_pos
        rw [String.length_utf8EncodeChar]
        omega
      rw [whole]
      have first : IsText (String.utf8EncodeChar c) := by
        simpa using isText_characters [c]
      exact first.append (ih _ shorter later rfl)

end Bytes

namespace Utf8

/-! The other way round: each character is a lead and what it asks for, so a text has no fault. -/

/-- A lead and the octets behind it, as many as it asks for and in their ranges. -/
def Begins (octets : Bytes) : Prop :=
  ∃ lead owed behind, octets = lead :: behind ∧ followers lead = some owed ∧ Meets owed behind

section Begins

variable {lead second third fourth : UInt8}

theorem begins_one (alone : lead.toNat ≤ 0x7F) : Begins [lead] :=
  ⟨lead, [], [], rfl, by rw [followers_numbers, if_pos alone], .nil⟩

theorem begins_two (leads : 0xC2 ≤ lead.toNat ∧ lead.toNat ≤ 0xDF)
    (follows : tail.holds second = true) : Begins [lead, second] :=
  ⟨lead, [tail], [second], rfl, by rw [followers_numbers, if_neg (by omega), if_pos leads],
    .cons follows .nil⟩

theorem begins_three (leads : 0xE0 ≤ lead.toNat ∧ lead.toNat ≤ 0xEF)
    (follows : tail.holds second = true) (last : tail.holds third = true)
    (overlong : lead.toNat = 0xE0 → 0xA0 ≤ second.toNat)
    (surrogate : lead.toNat = 0xED → second.toNat ≤ 0x9F) : Begins [lead, second, third] := by
  have begins {range : Range} (asks : followers lead = some [range, tail])
      (holds : range.holds second = true) : Begins [lead, second, third] :=
    ⟨lead, _, _, rfl, asks, .cons holds (.cons last .nil)⟩
  obtain ⟨least, most⟩ := holds_iff.mp follows
  have asks := followers_numbers lead
  rw [if_neg (by omega), if_neg (by omega)] at asks
  by_cases first : lead.toNat = 0xE0
  · rw [if_pos first] at asks
    exact begins asks (holds_iff.mpr ⟨overlong first, most⟩)
  · rw [if_neg first] at asks
    by_cases inner : lead.toNat = 0xED
    · rw [if_pos inner] at asks
      exact begins asks (holds_iff.mpr ⟨least, surrogate inner⟩)
    · rw [if_neg inner, if_pos (by omega)] at asks
      exact begins asks follows

theorem begins_four (leads : 0xF0 ≤ lead.toNat ∧ lead.toNat ≤ 0xF4)
    (follows : tail.holds second = true) (between : tail.holds third = true)
    (last : tail.holds fourth = true) (overlong : lead.toNat = 0xF0 → 0x90 ≤ second.toNat)
    (beyond : lead.toNat = 0xF4 → second.toNat ≤ 0x8F) :
    Begins [lead, second, third, fourth] := by
  have begins {range : Range} (asks : followers lead = some [range, tail, tail])
      (holds : range.holds second = true) : Begins [lead, second, third, fourth] :=
    ⟨lead, _, _, rfl, asks, .cons holds (.cons between (.cons last .nil))⟩
  obtain ⟨least, most⟩ := holds_iff.mp follows
  have asks := followers_numbers lead
  rw [if_neg (by omega), if_neg (by omega), if_neg (by omega), if_neg (by omega),
    if_neg (by omega)] at asks
  by_cases first : lead.toNat = 0xF0
  · rw [if_pos first] at asks
    exact begins asks (holds_iff.mpr ⟨overlong first, most⟩)
  · rw [if_neg first] at asks
    by_cases inner : lead.toNat = 0xF4
    · rw [if_neg (by omega), if_pos inner] at asks
      exact begins asks (holds_iff.mpr ⟨least, beyond inner⟩)
    · rw [if_pos (by omega)] at asks
      exact begins asks follows

end Begins

theorem toNat_octet {number : Nat} (fits : number < 256) : (UInt8.ofNat number).toNat = number :=
  UInt8.toNat_ofNat_of_lt' fits

theorem tail_octet (bits : Nat) : tail.holds (UInt8.ofNat (bits % 64 + 128)) = true := by
  apply holds_iff.mpr
  rw [toNat_octet (by omega)]
  show 0x80 ≤ _ ∧ _ ≤ 0xBF
  omega

theorem encoded_begins (c : Char) : Begins (String.utf8EncodeChar c) := by
  have valid : c.val.toNat.isValidChar := c.valid
  unfold Nat.isValidChar at valid
  rw [String.utf8EncodeChar]
  generalize c.val.toNat = number at valid
  split_ifs with one two three
  · exact begins_one (by rw [toNat_octet (by omega)]; exact one)
  · apply begins_two _ (tail_octet _)
    rw [toNat_octet (by omega)]
    omega
  · apply begins_three _ (tail_octet _) (tail_octet _) <;>
      simp only [toNat_octet (show number / 4096 % 16 + 224 < 256 by omega),
        toNat_octet (show number / 64 % 64 + 128 < 256 by omega)] <;> omega
  · apply begins_four _ (tail_octet _) (tail_octet _) (tail_octet _) <;>
      simp only [toNat_octet (show number / 262144 % 8 + 240 < 256 by omega),
        toNat_octet (show number / 4096 % 64 + 128 < 256 by omega)] <;> omega

theorem faultFrom_meets {owed : List Range} {behind : Bytes} (meets : Meets owed behind)
    (start seen : Nat) {rest : Bytes} (sound : fault? rest = none) :
    faultFrom start seen owed (behind ++ rest) = none := by
  unfold Meets at meets
  induction meets generalizing seen with
  | nil => exact faultFrom_elsewhere sound start seen
  | @cons range octet more behind holds meets ih =>
    rw [List.cons_append, faultFrom, if_pos holds]
    split
    next last =>
      rw [List.isEmpty_iff] at last
      subst last
      cases meets
      exact faultFrom_elsewhere sound _ _
    next => exact ih (seen + 1)

theorem fault?_begins {octets : Bytes} (begins : Begins octets) {rest : Bytes}
    (sound : fault? rest = none) : fault? (octets ++ rest) = none := by
  obtain ⟨lead, owed, behind, rfl, asks, meets⟩ := begins
  rw [fault?, List.cons_append, faultFrom, asks]
  cases owed with
  | nil =>
    cases meets
    exact faultFrom_elsewhere sound _ _
  | cons range more => exact faultFrom_meets meets 0 1 sound

/-- No fault is found in a text. -/
theorem fault?_ofText (text : String) : fault? (Bytes.ofText text) = none := by
  rw [Bytes.ofText_toList]
  induction text.toList with
  | nil => rfl
  | cons c rest ih =>
    rw [List.flatMap_cons]
    exact fault?_begins (encoded_begins c) ih

end Utf8

end EventStream
