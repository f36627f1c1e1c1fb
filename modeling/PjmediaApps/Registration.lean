import PjmediaApps.CString
import Mathlib.Data.List.DropRight

/-!
# The registration loop of `pjsua_phone`

The last loop of `main` reads a number with `scanf` and registers or unregisters the account.
It looks neither at the number of items read nor for the end of input. `scanf` hands
out the numbers that stdin starts with (`scanSource`), and then nothing for good : at the
end of input, or at a token that starts no number, which stays where it is. From there
on the loop repeats its last request with every round (`requests_eq`), so for no text at
all does it send one request for each number and stop (`not_registersOnce`).
-/

namespace PjmediaApps

open Interactive ByteStream CString

/-! ## `scanf` -/

/-- `scanf("%d", &input)` : the number stored, if there is one, and the stream left. Of a
token that starts no number it takes no byte. So a sign with no digits behind it stays in the
stream too, which a C library takes : texts with such a sign are read differently there. -/
def scanInt (s : List Byte) : Option ℤ × List Byte :=
  let t := s.dropWhile isSpace
  let u := takeSign t
  if u.2.takeWhile isDigit = [] then (none, t)
  else (some (toInt32 (clampLong (signed u.1 (value (u.2.takeWhile isDigit))))),
    u.2.dropWhile isDigit)

section

variable {s : List Byte}

theorem scanInt_of_eq_nil (h : (takeSign (s.dropWhile isSpace)).2.takeWhile isDigit = []) :
    scanInt s = (none, s.dropWhile isSpace) := by
  simp only [scanInt, h, if_true]

theorem scanInt_of_ne_nil (h : (takeSign (s.dropWhile isSpace)).2.takeWhile isDigit ≠ []) :
    scanInt s = (some (toInt32 (clampLong (signed (takeSign (s.dropWhile isSpace)).1
      (value ((takeSign (s.dropWhile isSpace)).2.takeWhile isDigit))))),
      (takeSign (s.dropWhile isSpace)).2.dropWhile isDigit) := by
  simp only [scanInt, if_neg h]

/-- A number takes at least one byte. -/
theorem length_scanInt_lt (h : (takeSign (s.dropWhile isSpace)).2.takeWhile isDigit ≠ []) :
    (scanInt s).2.length < s.length := by
  have hspace := (List.dropWhile_suffix (l := s) isSpace).length_le
  have hsign : (takeSign (s.dropWhile isSpace)).2.length ≤ (s.dropWhile isSpace).length := by
    cases s.dropWhile isSpace with
    | nil => exact le_rfl
    | cons b t =>
      simp only [takeSign]
      split_ifs <;> simp
  have hsplit := congrArg List.length
    (List.takeWhile_append_dropWhile (p := isDigit) (l := (takeSign (s.dropWhile isSpace)).2))
  have hpos := List.length_pos_iff.mpr h
  rw [List.length_append] at hsplit
  rw [scanInt_of_ne_nil h]
  simp only
  omega

end

/-- Standard input as `scanf` reads numbers from it. -/
def scanSource : Source ℤ (List Byte) where
  read := scanInt
  size := List.length
  size_lt s a h := by
    by_cases hd : (takeSign (s.dropWhile isSpace)).2.takeWhile isDigit = []
    · simp [scanInt_of_eq_nil hd] at h
    · exact length_scanInt_lt hd
  size_le s := by
    by_cases hd : (takeSign (s.dropWhile isSpace)).2.takeWhile isDigit = []
    · rw [scanInt_of_eq_nil hd]
      exact (List.dropWhile_suffix _).length_le
    · exact (length_scanInt_lt hd).le
  ended s h := by
    by_cases hd : (takeSign (s.dropWhile isSpace)).2.takeWhile isDigit = []
    · rw [scanInt_of_eq_nil hd, scanInt_of_eq_nil]
      rwa [List.dropWhile_idempotent]
    · simp [scanInt_of_ne_nil hd] at h

/-! ## The loop -/

/-- `pjsua_acc_set_registration(acc, renew)`. -/
structure SetRegistration where
  acc : ℤ
  renew : ℤ
  deriving DecidableEq, Repr

/-- The request for a number. -/
def request (acc input : ℤ) : SetRegistration :=
  ⟨acc, if input ≠ 0 then 1 else 0⟩

/-- The body of the loop. Where nothing is read, `input` stays. -/
def registerStep (acc input : ℤ) (read : Option ℤ) : ℤ × List SetRegistration :=
  let input := read.getD input
  (input, [request acc input])

/-- The requests of `n` rounds. What `input` is before the first is not known. -/
def requests (acc input : ℤ) (stdin : List Byte) (n : ℕ) : List SetRegistration :=
  (rounds scanSource (polling (registerStep acc)) n input stdin).trace.flatMap actions

/-- The loop sends one request for each number on stdin, in order, and no other. -/
def RegistersOnce (acc input : ℤ) (stdin : List Byte) : Prop :=
  ∃ m, ∀ n, m ≤ n → requests acc input stdin n = (scanSource.drain stdin).map (request acc)

/-- On numbers, the loop sends the request for each and keeps the last. -/
theorem reactions_some (acc : ℤ) : ∀ (input : ℤ) (l : List ℤ),
    (reactions (registerStep acc) input (l.map some)).flatten = l.map (request acc) ∧
      after (registerStep acc) input (l.map some) = l.getLastD input
  | _, [] => ⟨rfl, rfl⟩
  | input, i :: l => by
    obtain ⟨hr, ha⟩ := reactions_some acc i l
    refine ⟨?_, ?_⟩
    · rw [List.map_cons, reactions_cons, List.flatten_cons]
      exact congrArg (request acc i :: ·) hr
    · rw [List.map_cons, after_cons, List.getLastD_cons]
      exact ha

/-- On nothing, the loop repeats the request for the number it has. -/
theorem reactions_none (acc input : ℤ) : ∀ n : ℕ,
    (reactions (registerStep acc) input (List.replicate n none)).flatten =
      List.replicate n (request acc input)
  | 0 => rfl
  | n + 1 => by
    rw [List.replicate_succ, reactions_cons, List.flatten_cons, List.replicate_succ]
    exact congrArg (request acc input :: ·) (reactions_none acc input n)

/-- The requests for the numbers on stdin, and then the last one over and over. -/
theorem requests_eq (acc input : ℤ) (stdin : List Byte) (n : ℕ) :
    requests acc input stdin n = ((scanSource.drain stdin).take n).map (request acc) ++
      List.replicate (n - (scanSource.drain stdin).length)
        (request acc (((scanSource.drain stdin).take n).getLastD input)) := by
  obtain ⟨hr, ha⟩ := reactions_some acc input ((scanSource.drain stdin).take n)
  rw [requests, (rounds_polling _ _ _ _ _).1, Source.reads, reactions_append, List.flatten_append,
    hr, ha, reactions_none]

/-- Every round sends a request. -/
theorem length_requests (acc input : ℤ) (stdin : List Byte) (n : ℕ) :
    (requests acc input stdin n).length = n := by
  rw [requests_eq]
  simp only [List.length_append, List.length_map, List.length_take, List.length_replicate]
  omega

/-- Whatever is on stdin, the loop does not stop at one request for each number. -/
theorem not_registersOnce (acc input : ℤ) (stdin : List Byte) :
    ¬RegistersOnce acc input stdin := by
  rintro ⟨m, hm⟩
  have hlen : ∀ n, m ≤ n → n = (scanSource.drain stdin).length := by
    intro n hn
    have := congrArg List.length (hm n hn)
    rwa [length_requests, List.length_map] at this
  have h1 := hlen m le_rfl
  have h2 := hlen (m + 1) (Nat.le_succ m)
  omega

/-- Nothing is typed, and a request is sent. -/
theorem not_registersOnce_empty : ¬RegistersOnce 0 0 [] := by
  rintro ⟨m, hm⟩
  have := congrArg List.length (hm (m + 1) (Nat.le_succ m))
  rw [length_requests] at this
  exact absurd this (by simp [scanSource.drain_of_none (s := []) rfl])

end PjmediaApps
