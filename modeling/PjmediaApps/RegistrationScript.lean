import PjmediaApps.Decimal
import PjmediaApps.Registration

/-!
# Typing requests for `pjsua_phone`

The numbers typed for the registration loop are read back, whatever white space stands between
them and whatever follows that starts neither a number nor a sign, and then the last one counts
for good (`requests_spaced`). So the loop can be made to send exactly the sequences of requests that
stay the same from some point on (`exists_requests_iff`) : it cannot be made to stop, nor to go
back and forth for ever.
-/

namespace PjmediaApps

open Interactive ByteStream CString

/-! ## Numbers with white space -/

/-- Where `strtol` reads a number, `scanf` reads it too. -/
theorem scanInt_of_strtol {s : List Byte} (h : (strtol s).2 ≠ s) :
    scanInt s = (some (toInt32 (strtol s).1), (strtol s).2) := by
  have hd : (takeSign (s.dropWhile isSpace)).2.takeWhile isDigit ≠ [] := by
    intro hd
    refine h ?_
    simp only [strtol, hd, if_true]
  rw [scanInt_of_ne_nil hd, strtol, if_neg hd]

/-- A number with white space before it. -/
structure Spaced where
  space : List Byte
  number : ℤ
  space_ne_nil : space ≠ []
  isSpace : ∀ b ∈ space, isSpace b = true
  /-- The number fits in an `int`. -/
  fits : -2147483648 ≤ number ∧ number < 2147483648

/-- The text of a number. -/
def Spaced.text (p : Spaced) : List Byte :=
  p.space ++ showInt p.number

theorem not_isDigit_of_isSpace {b : Byte} (h : isSpace b = true) : isDigit b = false := by
  rw [← Bool.not_eq_true]
  intro hd
  rw [isSpace_of_isDigit hd] at h
  cases h

/-- `scanf` reads a number and stops behind it. -/
theorem scanInt_text_append (p : Spaced) {rest : List Byte}
    (hrest : ∀ b u, rest = b :: u → isDigit b = false) :
    scanInt (p.text ++ rest) = (some p.number, rest) := by
  obtain ⟨neg, sg, hs, hsg, hn⟩ := showInt_eq p.number
  have h := @strtol_append p.space sg (showNat p.number.natAbs) rest neg p.isSpace hsg
    (showNat_ne_nil _) (fun b hb => isDigit_of_mem_showNat hb) hrest
  rw [value_showNat, ← hn] at h
  have htext : p.text ++ rest = p.space ++ (sg ++ (showNat p.number.natAbs ++ rest)) := by
    rw [Spaced.text, hs, List.append_assoc, List.append_assoc]
  rw [htext, scanInt_of_strtol, h, clampLong_of_mem p.fits.1 p.fits.2,
    toInt32_of_mem p.fits.1 p.fits.2]
  rw [h]
  intro heq
  have hlen := congrArg List.length heq
  have hpos := List.length_pos_iff.mpr p.space_ne_nil
  simp only [List.length_append] at hlen
  omega

/-- Behind its white space, the text starts neither a number nor a sign. -/
def StartsNoNumber (tail : List Byte) : Prop :=
  ∀ b u, tail.dropWhile isSpace = b :: u → isDigit b = false ∧ b ≠ ch '+' ∧ b ≠ ch '-'

theorem startsNoNumber_nil : StartsNoNumber [] := by
  simp [StartsNoNumber]

namespace StartsNoNumber

variable {tail : List Byte} (h : StartsNoNumber tail)

include h

/-- Nothing is read of it. -/
theorem scanInt_fst : (scanInt tail).1 = none := by
  refine congrArg Prod.fst (scanInt_of_eq_nil ?_)
  cases htail : tail.dropWhile isSpace with
  | nil => rfl
  | cons b u =>
    obtain ⟨hdigit, hplus, hminus⟩ := h b u htail
    rw [takeSign, if_neg hminus, if_neg hplus]
    simp [hdigit]

/-- It does not go on with digits. -/
theorem isDigit_head (b : Byte) (u : List Byte) (htail : tail = b :: u) : isDigit b = false := by
  cases hb : isSpace b with
  | true => exact not_isDigit_of_isSpace hb
  | false => exact (h b u (by rw [htail, List.dropWhile_cons_of_neg (by simp [hb])])).1

end StartsNoNumber

/-- The text of numbers, in order. -/
def spacedText (ps : List Spaced) : List Byte :=
  ps.flatMap Spaced.text

/-- Numbers with white space between them are the numbers read, up to a rest that starts with
none. -/
theorem drain_spacedText : ∀ (ps : List Spaced) {tail : List Byte}, StartsNoNumber tail →
    scanSource.drain (spacedText ps ++ tail) = ps.map Spaced.number
  | [], tail, htail => scanSource.drain_of_none htail.scanInt_fst
  | p :: ps, tail, htail => by
    have hrest : ∀ b u, spacedText ps ++ tail = b :: u → isDigit b = false := by
      intro b u h
      cases ps with
      | nil => exact htail.isDigit_head b u h
      | cons q ps =>
        -- the next number starts with white space
        obtain ⟨c, v, hc⟩ := List.exists_cons_of_ne_nil q.space_ne_nil
        have hb : c = b := by
          simp only [spacedText, List.flatMap_cons, Spaced.text, hc, List.cons_append] at h
          exact (List.cons.inj h).1
        refine not_isDigit_of_isSpace (q.isSpace b ?_)
        rw [hc, hb]
        exact List.mem_cons_self ..
    have hread : scanSource.read (p.text ++ (spacedText ps ++ tail)) =
        (some p.number, spacedText ps ++ tail) := scanInt_text_append p hrest
    rw [spacedText, List.flatMap_cons, ← spacedText, List.append_assoc,
      scanSource.drain_of_some (a := p.number) (by rw [hread]), hread,
      drain_spacedText ps htail, List.map_cons]

/-! ## The requests, one by one -/

/-- The `k`-th request is for the `k`-th number, and for the last once there are no more. -/
theorem getElem?_requests (acc input : ℤ) (stdin : List Byte) {n k : ℕ} (hk : k < n) :
    (requests acc input stdin n)[k]? = some (request acc
      (((scanSource.drain stdin)[k]?).getD ((scanSource.drain stdin).getLastD input))) := by
  rw [requests_eq]
  generalize scanSource.drain stdin = ns
  by_cases hkn : k < ns.length
  · rw [List.getElem?_append_left (by simp [hk, hkn]), List.getElem?_map,
      List.getElem?_take_of_lt hk, List.getElem?_eq_getElem hkn]
    rfl
  · have hlen : ns.length ≤ n := by omega
    rw [List.take_of_length_le hlen, List.getElem?_append_right (by simpa using hkn),
      List.getElem?_replicate_of_lt (by rw [List.length_map]; omega),
      List.getElem?_eq_none (by omega)]
    rfl

/-- A number on a new line. -/
def onLine (n : ℤ) (h : -2147483648 ≤ n ∧ n < 2147483648) : Spaced where
  space := [newline]
  number := n
  space_ne_nil := by simp
  isSpace b hb := by
    rw [List.mem_singleton.mp hb]
    decide
  fits := h

/-- A line with 1 or 0. -/
def bit (b : Bool) : Spaced :=
  onLine (if b then 1 else 0) (by cases b <;> simp)

theorem request_bit (acc : ℤ) (b : Bool) :
    request acc (bit b).number = ⟨acc, if b then 1 else 0⟩ := by
  cases b <;> rfl

/-- The requests that can be sent for ever are those that stay the same from some point on. -/
theorem exists_requests_iff (acc input : ℤ) (f : ℕ → Bool) :
    (∃ stdin, ∀ n k, k < n → (requests acc input stdin n)[k]? =
      some ⟨acc, if f k then 1 else 0⟩) ↔ ∃ m, ∀ k, m ≤ k → f k = f m := by
  refine ⟨?_, ?_⟩
  · rintro ⟨stdin, h⟩
    obtain ⟨ns, hns⟩ : ∃ ns, ns = scanSource.drain stdin := ⟨_, rfl⟩
    have hlast : ∀ k, ns.length ≤ k →
        (⟨acc, if f k then 1 else 0⟩ : SetRegistration) = request acc (ns.getLastD input) := by
      intro k hk
      have := getElem?_requests acc input stdin (Nat.lt_succ_self k)
      rw [h _ k (Nat.lt_succ_self k), ← hns, List.getElem?_eq_none hk] at this
      exact Option.some.inj this
    refine ⟨ns.length, fun k hk => ?_⟩
    have := (hlast k hk).trans (hlast _ le_rfl).symm
    simp only [SetRegistration.mk.injEq, true_and] at this
    cases hfk : f k <;> cases hfm : f ns.length <;> simp [hfk, hfm] at this ⊢
  · rintro ⟨m, hm⟩
    -- type the requests up to the one that stays
    have hdrain : scanSource.drain (spacedText ((List.range (m + 1)).map fun k => bit (f k))) =
        (List.range (m + 1)).map fun k => (bit (f k)).number := by
      have := drain_spacedText ((List.range (m + 1)).map fun k => bit (f k)) startsNoNumber_nil
      rwa [List.append_nil, List.map_map] at this
    refine ⟨spacedText ((List.range (m + 1)).map fun k => bit (f k)), fun n k hk => ?_⟩
    rw [getElem?_requests acc input _ hk, hdrain, ← request_bit]
    by_cases hkm : k < m + 1
    · rw [List.getElem?_map, List.getElem?_range hkm]
      rfl
    · rw [List.getElem?_eq_none (by simpa using hkm), List.range_succ, List.map_append,
        Option.getD_none, List.map_singleton, List.getLastD_concat, hm k (by omega)]

end PjmediaApps
