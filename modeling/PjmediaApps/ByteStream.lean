import PjmediaApps.Loop

/-!
# Byte streams read by lines

The C library's `fgets` on a stream of bytes, and the lines of the stream. `fgets n`
stores at most `n − 1` bytes, up to and including the first newline, and leaves the
rest. A line longer than that is read in `pieces`, so successive calls hand out the
pieces of the lines (`pieces_eq_flatMap`) and not the lines themselves. They hand out the
lines as long as each has fewer than `n` bytes (`agree_lines`).
-/

namespace ByteStream

open Interactive

/-- A byte of a stream. -/
abbrev Byte := UInt8

/-- The byte of an ASCII character. -/
def ch (c : Char) : Byte :=
  UInt8.ofNat c.toNat

/-- The bytes of a text. -/
def bytes (cs : List Char) : List Byte :=
  cs.map ch

/-- The byte that ends a line. -/
def newline : Byte := 10

/-! ## Lines -/

/-- The bytes up to and including the first newline. -/
def firstLine : List Byte → List Byte
  | [] => []
  | b :: s => if b = newline then [b] else b :: firstLine s

/-- The bytes after the first newline. -/
def afterLine : List Byte → List Byte
  | [] => []
  | b :: s => if b = newline then s else afterLine s

/-- The lines of a stream, each with its newline. The last one may have none. -/
def lines : List Byte → List (List Byte)
  | [] => []
  | b :: s =>
    if b = newline then [b] :: lines s
    else match lines s with
      | [] => [[b]]
      | l :: ls => (b :: l) :: ls

/-- A line with its newline. -/
def Terminated (l : List Byte) : Prop :=
  ∃ p, newline ∉ p ∧ l = p ++ [newline]

/-- One line, with or without its newline. -/
def IsLine (l : List Byte) : Prop :=
  l ≠ [] ∧ firstLine l = l

instance (l : List Byte) : Decidable (IsLine l) :=
  inferInstanceAs (Decidable (_ ∧ _))

/-- A text without newline, and then a newline or nothing, is a line. -/
theorem isLine_append {p nl : List Byte} (hp : newline ∉ p) (hnl : nl = [] ∨ nl = [newline])
    (hne : p ++ nl ≠ []) : IsLine (p ++ nl) := by
  refine ⟨hne, ?_⟩
  clear hne
  induction p with
  | nil => rcases hnl with rfl | rfl <;> rfl
  | cons b p ih =>
    simp only [List.mem_cons, not_or] at hp
    rw [List.cons_append, firstLine, if_neg fun h => hp.1 h.symm, ih hp.2]

@[simp] theorem firstLine_append_afterLine : ∀ s, firstLine s ++ afterLine s = s
  | [] => rfl
  | b :: s => by
    by_cases hb : b = newline
    · simp [firstLine, afterLine, hb]
    · simp [firstLine, afterLine, hb, firstLine_append_afterLine s]

theorem firstLine_ne_nil {s : List Byte} (h : s ≠ []) : firstLine s ≠ [] := by
  cases s with
  | nil => exact (h rfl).elim
  | cons b s => by_cases hb : b = newline <;> simp [firstLine, hb]

theorem lines_cons (b : Byte) (s : List Byte) :
    lines (b :: s) = firstLine (b :: s) :: lines (afterLine (b :: s)) := by
  induction s generalizing b with
  | nil => by_cases hb : b = newline <;> simp [lines, firstLine, afterLine, hb]
  | cons c s ih =>
    by_cases hb : b = newline
    · simp [lines, firstLine, afterLine, hb]
    · rw [lines, if_neg hb, ih c]
      simp [firstLine, afterLine, hb]

/-- No line is empty. -/
theorem ne_nil_of_mem_lines {l : List Byte} : ∀ {s : List Byte}, l ∈ lines s → l ≠ []
  | [], h => by simp [lines] at h
  | b :: s, h => by
    by_cases hb : b = newline
    · rw [lines, if_pos hb] at h
      rcases List.mem_cons.mp h with rfl | h
      · simp
      · exact ne_nil_of_mem_lines h
    · rw [lines, if_neg hb] at h
      cases hs : lines s with
      | nil =>
        rw [hs] at h
        rw [List.mem_singleton.mp h]
        simp
      | cons m ls =>
        rw [hs] at h
        rcases List.mem_cons.mp h with rfl | h
        · simp
        · exact ne_nil_of_mem_lines (s := s) (by rw [hs]; exact List.mem_cons_of_mem _ h)

@[simp] theorem flatten_lines : ∀ s, (lines s).flatten = s
  | [] => rfl
  | b :: s => by
    have ih := flatten_lines s
    by_cases hb : b = newline
    · simp [lines, hb, ih]
    · cases hs : lines s with
      | nil =>
        rw [hs] at ih
        simp [lines, hb, ← ih]
      | cons l ls =>
        rw [hs] at ih
        simpa [lines, hb, hs] using ih

theorem drop_length_firstLine (s : List Byte) : s.drop (firstLine s).length = afterLine s := by
  have h : (firstLine s ++ afterLine s).drop (firstLine s).length = afterLine s :=
    List.drop_left
  rwa [firstLine_append_afterLine] at h

theorem length_firstLine_add (s : List Byte) :
    (firstLine s).length + (afterLine s).length = s.length := by
  rw [← List.length_append, firstLine_append_afterLine]

/-- A line that another one follows has its newline. -/
theorem terminated_firstLine {s : List Byte} (h : afterLine s ≠ []) : Terminated (firstLine s) := by
  induction s with
  | nil => exact (h rfl).elim
  | cons b s ih =>
    by_cases hb : b = newline
    · exact ⟨[], by simp, by simp [firstLine, hb]⟩
    · simp only [afterLine, if_neg hb] at h
      obtain ⟨p, hp, hl⟩ := ih h
      refine ⟨b :: p, ?_, by simp [firstLine, hb, hl]⟩
      simpa [hp] using fun h => hb h.symm

theorem firstLine_append {l : List Byte} (h : Terminated l) (s : List Byte) :
    firstLine (l ++ s) = l := by
  obtain ⟨p, hp, rfl⟩ := h
  induction p with
  | nil => simp [firstLine]
  | cons b p ih =>
    simp only [List.mem_cons, not_or] at hp
    have hb : b ≠ newline := fun h => hp.1 h.symm
    simpa [firstLine, hb] using ih hp.2

/-- What some lines of a stream leave has the other lines. -/
theorem lines_flatten_of_eq_append : ∀ {ls ls' : List (List Byte)} {s : List Byte},
    lines s = ls ++ ls' → lines ls'.flatten = ls'
  | [], _, s, h => by rw [List.nil_append] at h; rw [← h, flatten_lines]
  | _ :: _, _, [], h => by simp [lines] at h
  | _ :: _, _, b :: s, h => by
    rw [lines_cons, List.cons_append] at h
    exact lines_flatten_of_eq_append (List.cons.inj h).2

/-! ## Reading with a buffer -/

/-- The bytes one call of `fgets` stores. -/
def stored (n : ℕ) (s : List Byte) : List Byte :=
  (firstLine s).take (n - 1)

/-- `fgets(buf, n, stream)` : the bytes it stores, or `none` at end of file, and the
stream it leaves. -/
def fgets (n : ℕ) (s : List Byte) : Option (List Byte) × List Byte :=
  if s = [] then (none, []) else (some (stored n s), s.drop (stored n s).length)

@[simp] theorem fgets_nil (n : ℕ) : fgets n [] = (none, []) :=
  rfl

theorem fgets_of_ne_nil (n : ℕ) {s : List Byte} (h : s ≠ []) :
    fgets n s = (some (stored n s), s.drop (stored n s).length) :=
  if_neg h

theorem length_stored_le (n : ℕ) (s : List Byte) : (stored n s).length ≤ n - 1 :=
  List.length_take_le _ _

/-- A call stores the front of the stream and leaves the rest. -/
theorem stored_append_drop (n : ℕ) (s : List Byte) :
    stored n s ++ s.drop (stored n s).length = s := by
  refine List.prefix_iff_eq_append.mp ?_
  exact (List.take_prefix _ _).trans ⟨afterLine s, firstLine_append_afterLine s⟩

theorem stored_ne_nil {n : ℕ} (hn : 2 ≤ n) {s : List Byte} (hs : s ≠ []) : stored n s ≠ [] := by
  have hpos := List.length_pos_iff.mpr (firstLine_ne_nil hs)
  refine List.length_pos_iff.mp ?_
  simp only [stored, List.length_take]
  omega

/-- A line that fits in the buffer is stored whole. -/
theorem stored_of_length_lt {n : ℕ} {s : List Byte} (h : (firstLine s).length < n) :
    stored n s = firstLine s :=
  List.take_of_length_le (by omega)

theorem fgets_eq_some {n : ℕ} {s l : List Byte} (h : (fgets n s).1 = some l) :
    s ≠ [] ∧ l = stored n s := by
  unfold fgets at h
  split_ifs at h with hs
  exact ⟨hs, (Option.some.inj h).symm⟩

/-- A line that fits in the buffer is read whole. -/
theorem fgets_of_length_lt {n : ℕ} {s : List Byte} (hs : s ≠ []) (h : (firstLine s).length < n) :
    fgets n s = (some (firstLine s), afterLine s) := by
  rw [fgets_of_ne_nil n hs, stored_of_length_lt h, drop_length_firstLine]

/-- The stream as read by `fgets` with a buffer of `n` bytes. -/
def fgetsSource (n : ℕ) (hn : 2 ≤ n) : Source (List Byte) (List Byte) where
  read := fgets n
  size := List.length
  size_lt s l h := by
    obtain ⟨hs, rfl⟩ := fgets_eq_some h
    have hpos := List.length_pos_iff.mpr (stored_ne_nil hn hs)
    have hlen := congrArg List.length (stored_append_drop n s)
    rw [fgets_of_ne_nil n hs]
    simp only [List.length_append] at hlen ⊢
    omega
  size_le s := by
    unfold fgets
    split_ifs <;> simp
  ended s h := by
    unfold fgets at h
    split_ifs at h with hs
    simp [hs]

@[simp] theorem fgetsSource_read {n : ℕ} (hn : 2 ≤ n) (s : List Byte) :
    (fgetsSource n hn).read s = fgets n s :=
  rfl

/-- `fgets` hands out the lines as long as they fit in its buffer. -/
theorem agree_lines {n : ℕ} (hn : 2 ≤ n) : Agree (fgetsSource n hn) (popSource (List Byte))
    (fun l => l.length < n) fun s ls => lines s = ls := by
  rintro s _ rfl hok
  cases s with
  | nil => exact ⟨rfl, rfl⟩
  | cons b s =>
    rw [lines_cons] at hok ⊢
    have hlt := hok _ rfl
    rw [fgetsSource_read, fgets_of_length_lt (by simp) hlt]
    exact ⟨rfl, rfl⟩

/-! ## Pieces -/

section Pieces

variable {n : ℕ} (hn : 2 ≤ n)

/-- What successive calls of `fgets` store, to the end of the stream. -/
def pieces (s : List Byte) : List (List Byte) :=
  (fgetsSource n hn).drain s

@[simp] theorem pieces_nil : pieces hn [] = [] :=
  (fgetsSource n hn).drain_of_none rfl

theorem pieces_of_ne_nil {s : List Byte} (h : s ≠ []) :
    pieces hn s = stored n s :: pieces hn (s.drop (stored n s).length) := by
  have hr := fgets_of_ne_nil n h
  rw [pieces, (fgetsSource n hn).drain_of_some (a := stored n s) (by simp [hr]),
    fgetsSource_read, hr, pieces]

/-- A line that fits in the buffer is one piece. -/
theorem pieces_of_length_lt {s : List Byte} (hs : s ≠ []) (h : (firstLine s).length < n) :
    pieces hn s = firstLine s :: pieces hn (afterLine s) := by
  rw [pieces_of_ne_nil hn hs, stored_of_length_lt h, drop_length_firstLine]

/-- A stream that is one line and fits in the buffer is one piece. -/
theorem pieces_of_isLine {l : List Byte} (h : IsLine l) (hlen : l.length < n) :
    pieces hn l = [l] := by
  have ha : afterLine l = [] := by
    have := firstLine_append_afterLine l
    rwa [h.2, List.append_right_eq_self] at this
  rw [pieces_of_length_lt hn h.1 (by rw [h.2]; exact hlen), ha, h.2, pieces_nil]

/-- The pieces of a stream put together. -/
theorem flatten_pieces (s : List Byte) : (pieces hn s).flatten = s := by
  induction hk : s.length using Nat.strong_induction_on generalizing s with
  | _ k ih =>
    by_cases hs : s = []
    · rw [hs, pieces_nil, List.flatten_nil]
    · have hlen := congrArg List.length (stored_append_drop n s)
      have hpos := List.length_pos_iff.mpr (stored_ne_nil hn hs)
      rw [List.length_append] at hlen
      rw [pieces_of_ne_nil hn hs, List.flatten_cons, ih _ (by omega) _ rfl, stored_append_drop]

theorem flatten_flatMap_pieces (ls : List (List Byte)) :
    (ls.flatMap (pieces hn)).flatten = ls.flatten := by
  induction ls with
  | nil => rfl
  | cons l ls ih =>
    rw [List.flatMap_cons, List.flatten_append, flatten_pieces, ih, List.flatten_cons]

/-- What is left of a terminated line, if anything, is terminated. -/
theorem terminated_drop {l : List Byte} (h : Terminated l) {m : ℕ} (hm : l.drop m ≠ []) :
    Terminated (l.drop m) := by
  obtain ⟨p, hp, rfl⟩ := h
  have hle : m ≤ p.length := by
    by_contra hlt
    exact hm (List.drop_of_length_le (by simp; omega))
  exact ⟨p.drop m, fun h => hp (List.mem_of_mem_drop h), List.drop_append_of_le_length hle⟩

/-- The pieces of a line before a stream come first. -/
theorem pieces_append {l : List Byte} (h : Terminated l) (s : List Byte) :
    pieces hn (l ++ s) = pieces hn l ++ pieces hn s := by
  induction hk : l.length using Nat.strong_induction_on generalizing l with
  | _ k ih =>
    have hl : l ≠ [] := by
      obtain ⟨p, -, rfl⟩ := h
      simp
    have hst : stored n (l ++ s) = stored n l := by
      have hl' := firstLine_append h []
      rw [List.append_nil] at hl'
      rw [stored, stored, firstLine_append h, hl']
    have hlen := congrArg List.length (stored_append_drop n l)
    have hpos := List.length_pos_iff.mpr (stored_ne_nil hn hl)
    rw [List.length_append] at hlen
    rw [pieces_of_ne_nil hn (s := l ++ s) (by simp [hl]), pieces_of_ne_nil hn hl, hst,
      List.drop_append_of_le_length (by omega), List.cons_append]
    congr 1
    by_cases hd : l.drop (stored n l).length = []
    · rw [hd, List.nil_append, pieces_nil, List.nil_append]
    · exact ih _ (by omega) (terminated_drop h hd) rfl

/-- The pieces of a stream are the pieces of its lines. -/
theorem pieces_eq_flatMap (s : List Byte) : pieces hn s = (lines s).flatMap (pieces hn) := by
  induction hk : s.length using Nat.strong_induction_on generalizing s with
  | _ k ih =>
    cases s with
    | nil => simp [lines]
    | cons b s =>
      have hsplit := firstLine_append_afterLine (b :: s)
      have hlen := length_firstLine_add (b :: s)
      have hpos := List.length_pos_iff.mpr (firstLine_ne_nil (s := b :: s) (by simp))
      rw [lines_cons, List.flatMap_cons]
      by_cases ha : afterLine (b :: s) = []
      · rw [ha, List.append_nil] at hsplit
        rw [ha, hsplit]
        simp [lines]
      · conv_lhs => rw [← hsplit]
        rw [pieces_append hn (terminated_firstLine ha),
          ih _ (by omega) (afterLine (b :: s)) rfl]

/-- The pieces of terminated lines before a stream come first. -/
theorem pieces_flatten_append : ∀ {ls : List (List Byte)}, (∀ l ∈ ls, Terminated l) →
    ∀ s, pieces hn (ls.flatten ++ s) = pieces hn ls.flatten ++ pieces hn s
  | [], _, s => by rw [List.flatten_nil, pieces_nil, List.nil_append, List.nil_append]
  | l :: ls, h, s => by
    rw [List.forall_mem_cons] at h
    rw [List.flatten_cons, List.append_assoc, pieces_append hn h.1, pieces_append hn h.1,
      pieces_flatten_append h.2, List.append_assoc]

/-- The first piece of a stream starts like the stream. -/
theorem exists_pieces_eq_cons (b : Byte) (s : List Byte) :
    ∃ l ps, pieces hn (b :: s) = (b :: l) :: ps := by
  rw [pieces_of_ne_nil hn (by simp)]
  obtain ⟨m, hm⟩ : ∃ m, n - 1 = m + 1 := ⟨n - 2, by omega⟩
  unfold stored
  rw [hm]
  by_cases hb : b = newline
  · exact ⟨[], _, by simp [firstLine, hb]; rfl⟩
  · exact ⟨(firstLine s).take m, _, by simp [firstLine, hb]; rfl⟩

end Pieces

end ByteStream
