import PjmediaApps.ConfMenu

/-!
# The scan of `input` comes to an end

The scan of `input` has no bound of its own, and it goes on past every NUL it writes. What stops
it is the NUL behind the bytes `fgets` stored (`exists_scanEnd_store`), whatever those bytes are
and whatever the array held before. The string it leaves is the text that the bytes start
with (`inputRight`).
-/

namespace PjmediaApps

open Interactive ByteStream CString

/-! ## The scan of `input` -/

/-- The place where the scan of `input` stops, `none` if it runs off the array. -/
def scanEnd : List Byte → Option ℕ
  | [] => none
  | b :: buf =>
    if b = ch '\r' ∨ b = ch '\n' then (scanEnd buf).map (· + 1)
    else if b = 0 then some 0
    else (scanEnd buf).map (· + 1)

/-- The scan stops at the NUL behind the bytes stored, or before it. -/
theorem exists_scanEnd_store (buf got : List Byte) :
    ∃ p ≤ got.length, scanEnd (store buf got) = some p := by
  rw [store]
  generalize buf.drop (got.length + 1) = stale
  induction got with
  | nil =>
    have h0 : ¬((0 : Byte) = ch '\r' ∨ (0 : Byte) = ch '\n') := by decide
    exact ⟨0, le_rfl, by simp [scanEnd, h0]⟩
  | cons b got ih =>
    obtain ⟨p, hp, hscan⟩ := ih
    rw [List.cons_append, scanEnd, hscan]
    split_ifs
    · exact ⟨p + 1, by simpa using hp, rfl⟩
    · exact ⟨0, Nat.zero_le _, rfl⟩
    · exact ⟨p + 1, by simpa using hp, rfl⟩

/-- The scan stops at a NUL, and leaves it and everything behind it as it was. -/
theorem drop_stripNewlines : ∀ {buf : List Byte} {p : ℕ}, scanEnd buf = some p →
    buf[p]? = some 0 ∧ (stripNewlines buf).drop p = buf.drop p
  | [], p, h => by simp [scanEnd] at h
  | b :: buf, p, h => by
    unfold scanEnd at h
    unfold stripNewlines
    split_ifs at h ⊢ with hb h0
    · obtain ⟨q, hq, rfl⟩ := Option.map_eq_some_iff.mp h
      exact drop_stripNewlines hq
    · cases h
      exact ⟨by rw [h0]; rfl, rfl⟩
    · obtain ⟨q, hq, rfl⟩ := Option.map_eq_some_iff.mp h
      exact drop_stripNewlines hq

/-! ## The string of `input` -/

/-- A prefix of text is a prefix of the longest one. -/
theorem prefix_takeWhile {α : Type*} {p : α → Bool} : ∀ {s l : List α}, s <+: l →
    (∀ a ∈ s, p a) → s <+: l.takeWhile p
  | [], l, _, _ => List.nil_prefix
  | a :: s, [], h, _ => by simp at h
  | a :: s, b :: l, h, hs => by
    obtain ⟨rfl, htail⟩ := List.cons_prefix_cons.mp h
    rw [List.takeWhile_cons_of_pos (hs a (by simp))]
    exact List.cons_prefix_cons.mpr ⟨rfl, prefix_takeWhile htail fun b hb => hs b (by simp [hb])⟩

/-- `input` on an array where `fgets` has stored some bytes. -/
structure InputRight (buf got : List Byte) : Prop where
  /-- The scan stops at a NUL, at most as far as the one `fgets` stored, and from there on the
  array is as before. -/
  stops : ∃ p ≤ got.length, scanEnd (store buf got) = some p ∧ (store buf got)[p]? = some 0 ∧
    (stripNewlines (store buf got)).drop p = (store buf got).drop p
  /-- The string it leaves is how the bytes read start. -/
  isPrefix : cstr (stripNewlines (store buf got)) <+: got
  text : ∀ b ∈ cstr (stripNewlines (store buf got)), b ≠ ch '\r' ∧ b ≠ ch '\n' ∧ b ≠ 0
  longest : ∀ s, s <+: got → (∀ b ∈ s, b ≠ ch '\r' ∧ b ≠ ch '\n' ∧ b ≠ 0) →
    s <+: cstr (stripNewlines (store buf got))
  /-- It answers true if that string is not empty. -/
  answers : input (some got) =
    if cstr (stripNewlines (store buf got)) = [] then none
    else some (cstr (stripNewlines (store buf got)))

theorem isText_iff {b : Byte} : isText b ↔ b ≠ ch '\r' ∧ b ≠ ch '\n' ∧ b ≠ 0 := by
  simp [isText, and_assoc]

/-- Whatever `fgets` reads, the scan of `input` ends and leaves the text the bytes start with. -/
theorem inputRight (buf got : List Byte) : InputRight buf got := by
  have hstr : cstr (stripNewlines (store buf got)) = got.takeWhile isText :=
    cstr_stripNewlines _ got
  obtain ⟨p, hp, hscan⟩ := exists_scanEnd_store buf got
  refine ⟨⟨p, hp, hscan, drop_stripNewlines hscan⟩, ?_, ?_, ?_, ?_⟩
  all_goals rw [hstr]
  · exact List.takeWhile_prefix isText
  · exact fun b hb => isText_iff.mp (List.mem_takeWhile_imp hb)
  · exact fun s hs htext => prefix_takeWhile hs fun b hb => isText_iff.mpr (htext b hb)
  · exact input_some got

end PjmediaApps
