import CommandLine.Proofs.CaseFold

/-! Comparing the bytes of two texts.

The size of what is typed may fall anywhere into a longer text, also between two
bytes of one character. The byte at that place tells, and a text is only cut where
a character begins. The bytes of a character other than an ASCII letter are no
letters either, so that folding bytes comes to folding characters.
-/

set_option autoImplicit false

namespace CommandLine.Text

def bytes (text : String) : List UInt8 :=
  text.toByteArray.data.toList

theorem bytes_eq_flatMap (text : String) :
    bytes text = text.toList.flatMap String.utf8EncodeChar := by
  rw [bytes, ← String.utf8Encode_toList, List.utf8Encode, List.toList_data_toByteArray]

theorem length_bytes (text : String) : (bytes text).length = text.utf8ByteSize := by
  rw [bytes, Array.length_toList]
  rfl

theorem bytes_inj {left right : String} : bytes left = bytes right ↔ left = right := by
  refine ⟨fun same => ?_, congrArg bytes⟩
  exact String.toByteArray_inj.mp (ByteArray.ext (Array.toList_inj.mp same))

def begins (byte : UInt8) : Bool :=
  byte < 0x80 || 0xC0 ≤ byte

/-- Whether `index` is between two characters or at an end, as the byte behind it tells. -/
def onBoundary (text : String) (index : Nat) : Bool :=
  index == 0 ||
    match (bytes text)[index]? with
    | some byte => begins byte
    | none => index == (bytes text).length

def upTo? (text : String) (stop : Nat) : Option String :=
  if valid : (String.Pos.Raw.mk stop).IsValid text then
    some (text.extract text.startPos ⟨⟨stop⟩, valid⟩)
  else none

def lowerByte (byte : UInt8) : UInt8 :=
  if 0x41 ≤ byte ∧ byte ≤ 0x5A then byte + 0x20 else byte

/-- Sizes first, then the byte behind the size, and at last the bytes before it. Nothing if the
text cannot be cut there. -/
def startsOnBytes? (text lead : String) : Option Bool :=
  if lead.utf8ByteSize ≤ text.utf8ByteSize && onBoundary text lead.utf8ByteSize then
    (upTo? text lead.utf8ByteSize).map fun front =>
      (bytes front).map lowerByte == (bytes lead).map lowerByte
  else some false

section Characters

variable {c : Char} {byte : UInt8}

theorem within_of_mem_utf8EncodeChar (long : ¬c.val.toNat ≤ 0x7F)
    (inside : byte ∈ String.utf8EncodeChar c) : 0x80 ≤ byte.toNat ∧ byte.toNat < 0xF8 := by
  unfold String.utf8EncodeChar at inside
  simp only [long, if_false] at inside
  split at inside
  · simp only [List.mem_cons, List.not_mem_nil, or_false] at inside
    obtain rfl | rfl := inside <;> simp only [UInt8.toNat_ofNat'] <;> omega
  · split at inside
    · simp only [List.mem_cons, List.not_mem_nil, or_false] at inside
      obtain rfl | rfl | rfl := inside <;> simp only [UInt8.toNat_ofNat'] <;> omega
    · simp only [List.mem_cons, List.not_mem_nil, or_false] at inside
      obtain rfl | rfl | rfl | rfl := inside <;> simp only [UInt8.toNat_ofNat'] <;> omega

theorem toNat_lt_of_mem_utf8EncodeChar (inside : byte ∈ String.utf8EncodeChar c) :
    byte.toNat < 0xF8 := by
  by_cases short : c.val.toNat ≤ 0x7F
  · have single : String.utf8EncodeChar c = [UInt8.ofNat c.val.toNat] := if_pos short
    rw [single, List.mem_singleton] at inside
    rw [inside, UInt8.toNat_ofNat']
    omega
  · exact (within_of_mem_utf8EncodeChar short inside).2

theorem lowerByte_of_le (high : 0x80 ≤ byte.toNat) : lowerByte byte = byte := by
  refine if_neg fun letter => ?_
  have below : byte.toNat ≤ 0x5A := UInt8.le_iff_toNat_le.mp letter.2
  omega

theorem map_lowerByte_utf8EncodeChar (c : Char) :
    (String.utf8EncodeChar c).map lowerByte = String.utf8EncodeChar c.toLower := by
  by_cases short : c.val.toNat ≤ 0x7F
  · have ascii : ∀ code < 0x80, (String.utf8EncodeChar (Char.ofNat code)).map lowerByte =
        String.utf8EncodeChar (Char.ofNat code).toLower := by decide +kernel
    simpa using ascii c.toNat (Nat.lt_succ_of_le short)
  · have same : c.toLower = c := by
      unfold Char.toLower
      exact dif_neg fun letter => short (Nat.le_trans (m := 90) letter.2 (by decide))
    have kept : ∀ byte ∈ String.utf8EncodeChar c, lowerByte byte = id byte := fun byte inside =>
      lowerByte_of_le (within_of_mem_utf8EncodeChar short inside).1
    rw [same, List.map_congr_left kept, List.map_id]

end Characters

section Boundary

variable {text : String}

theorem begins_iff {byte : UInt8} (small : byte.toNat < 0xF8) :
    begins byte = true ↔ byte.IsUTF8FirstByte := by
  have all : ∀ code < 0xF8, begins (UInt8.ofNat code) = true ↔
      (UInt8.ofNat code).IsUTF8FirstByte := by decide +kernel
  simpa using all byte.toNat small

theorem toNat_lt_of_mem_bytes {byte : UInt8} (inside : byte ∈ bytes text) :
    byte.toNat < 0xF8 := by
  rw [bytes_eq_flatMap] at inside
  obtain ⟨c, -, ofC⟩ := List.mem_flatMap.mp inside
  exact toNat_lt_of_mem_utf8EncodeChar ofC

/-- The byte tells, since no character has a byte inside that could begin another one. -/
theorem onBoundary_iff (text : String) (index : Nat) :
    onBoundary text index = true ↔ (String.Pos.Raw.mk index).IsValid text := by
  by_cases start : index = 0
  · subst start
    exact iff_of_true rfl String.Pos.Raw.isValid_zero
  · rw [← String.Pos.Raw.isValid_eq_true_iff, String.Pos.Raw.isValid]
    by_cases inside : String.Pos.Raw.mk index < text.rawEndPos
    · have byte : (bytes text)[index]? = some (text.getUTF8Byte ⟨index⟩ inside) := by
        simp [bytes, String.getUTF8Byte, ByteArray.getElem_eq_getElem_data]
      have tells := begins_iff (toNat_lt_of_mem_bytes (List.mem_of_getElem? byte))
      rw [dif_pos inside, decide_eq_true_iff, ← tells]
      simp [onBoundary, start, byte]
    · have behind : (bytes text).length ≤ index := by
        rw [length_bytes]
        exact Nat.le_of_not_lt inside
      rw [dif_neg inside, decide_eq_true_iff, String.Pos.Raw.ext_iff]
      simp [onBoundary, start, List.getElem?_eq_none behind, length_bytes]

theorem utf8Len_of_takeBytes? {size : Nat} {cs front : List Char}
    (taken : takeBytes? size cs = some front) : String.utf8Len front = size := by
  induction cs generalizing size front with
  | nil =>
    rw [takeBytes?] at taken
    split at taken
    next none =>
      cases taken
      exact none.symm
    next => cases taken
  | cons c rest ih =>
    rw [takeBytes?] at taken
    split at taken
    next none =>
      cases taken
      exact none.symm
    next =>
      split at taken
      next fits =>
        obtain ⟨more, takenRest, rfl⟩ := Option.map_eq_some_iff.mp taken
        rw [String.utf8Len_cons, ih takenRest]
        omega
      next => cases taken

theorem extract_of_splits {front middle rest : String} {start stop : text.Pos}
    (first : start.Splits front (middle ++ rest)) (second : stop.Splits (front ++ middle) rest) :
    text.extract start stop = middle := by
  apply String.toByteArray_inj.mp
  have begins : start.offset.byteIdx = front.toByteArray.size + 0 :=
    congrArg String.Pos.Raw.byteIdx first.offset_eq_rawEndPos
  have ends : stop.offset.byteIdx = front.toByteArray.size + middle.toByteArray.size := by
    rw [second.offset_eq_rawEndPos, String.byteIdx_rawEndPos, String.utf8ByteSize_append]
    rfl
  have bytes : text.toByteArray =
      front.toByteArray ++ (middle.toByteArray ++ rest.toByteArray) := by
    rw [first.eq_append, String.toByteArray_append, String.toByteArray_append]
  rw [String.toByteArray_extract, begins, ends, bytes, ByteArray.extract_append_size_add]
  exact ByteArray.extract_append_eq_left rfl

theorem extract_startPos_of_splits {front rest : String} {stop : text.Pos}
    (splits : stop.Splits front rest) : text.extract text.startPos stop = front := by
  have first : text.startPos.Splits "" (front ++ rest) := splits.eq_append ▸ text.splits_startPos
  have second : stop.Splits ("" ++ front) rest := String.empty_append.symm ▸ splits
  exact extract_of_splits first second

theorem extract_endPos_of_splits {front rest : String} {start : text.Pos}
    (splits : start.Splits front rest) : text.extract start text.endPos = rest := by
  have first : start.Splits front (rest ++ "") := String.append_empty.symm ▸ splits
  have second : text.endPos.Splits (front ++ rest) "" := splits.eq_append ▸ text.splits_endPos
  exact extract_of_splits first second

theorem takeBytes?_toList (text : String) (stop : Nat) :
    takeBytes? stop text.toList = (upTo? text stop).map String.toList := by
  unfold upTo?
  split
  next valid =>
    obtain ⟨front, rest, rfl, size⟩ := String.Pos.Raw.isValid_iff_exists_append.mp valid
    obtain rfl : stop = front.utf8ByteSize := congrArg String.Pos.Raw.byteIdx size
    have splits : String.Pos.Splits (s := front ++ rest) ⟨_, valid⟩ front rest := ⟨rfl, rfl⟩
    rw [extract_startPos_of_splits splits, String.toList_append, ← String.utf8Len_toList,
      takeBytes?_append, Option.map_some]
  next invalid =>
    cases taken : takeBytes? stop text.toList with
    | none => rfl
    | some front =>
      obtain ⟨rest, split⟩ := prefix_of_takeBytes? taken
      refine absurd (String.Pos.Raw.isValid_iff_exists_append.mpr ?_) invalid
      refine ⟨.ofList front, .ofList rest, ?_, ?_⟩
      · rw [← String.ofList_append, split, String.ofList_toList]
      · rw [String.Pos.Raw.ext_iff, String.byteIdx_rawEndPos, String.utf8ByteSize_ofList,
          utf8Len_of_takeBytes? taken]

end Boundary

theorem map_lowerByte_bytes (text : String) : (bytes text).map lowerByte = bytes (lower text) := by
  rw [bytes_eq_flatMap, bytes_eq_flatMap, lower, String.toList_ofList, List.map_flatMap,
    List.flatMap_map]
  exact List.flatMap_congr fun c _ => map_lowerByte_utf8EncodeChar c

theorem map_lowerByte_eq_iff {left right : String} :
    (bytes left).map lowerByte = (bytes right).map lowerByte ↔
      left.toList.map Char.toLower = right.toList.map Char.toLower := by
  rw [map_lowerByte_bytes, map_lowerByte_bytes, bytes_inj, lower, lower, String.ofList_inj]

/-- The bytes give an answer for all texts, and the one that the characters give. -/
theorem startsOnBytes?_eq (text lead : String) :
    startsOnBytes? text lead = some (startsIgnoringCase text lead) := by
  unfold startsOnBytes? startsIgnoringCase
  rw [takeBytes?_toList]
  by_cases valid : (String.Pos.Raw.mk lead.utf8ByteSize).IsValid text
  · have fits : lead.utf8ByteSize ≤ text.utf8ByteSize := valid.le_utf8ByteSize
    have boundary := (onBoundary_iff text _).mpr valid
    rw [if_pos (by simp [fits, boundary]), upTo?, dif_pos valid, Option.map_some, Option.map_some,
      Option.some_inj, Bool.eq_iff_iff, beq_iff_eq, beq_iff_eq, map_lowerByte_eq_iff]
  · have between : onBoundary text lead.utf8ByteSize = false :=
      Bool.eq_false_iff.mpr (mt (onBoundary_iff text _).mp valid)
    rw [if_neg (by simp [between]), upTo?, dif_neg valid]
    rfl

/-- A text starts with another one, ASCII letters in any case, exactly if its characters in lower
case start with those of the other one. The bytes alone tell whether the text can be cut at the
size of the other one, and it is only cut where it can be. -/
theorem startsIgnoringCase_on_bytes (text lead : String) :
    (startsIgnoringCase text lead = true ↔ (lower lead).toList <+: (lower text).toList) ∧
      (∀ index, onBoundary text index = true ↔ (String.Pos.Raw.mk index).IsValid text) ∧
      startsOnBytes? text lead = some (startsIgnoringCase text lead) := by
  refine ⟨?_, onBoundary_iff text, startsOnBytes?_eq text lead⟩
  rw [lower, lower, String.toList_ofList, String.toList_ofList]
  exact startsIgnoringCase_iff

/-- The first byte of a character of two is not the character, and its bytes are no letters. -/
example : startsOnBytes? "über" "u" = some false ∧ startsOnBytes? "Über" "Üb" = some true ∧
    startsOnBytes? "Über" "üb" = some false := by decide +kernel

end CommandLine.Text
