import Mathlib.Dynamics.PeriodicPts.Defs
import Mathlib.Data.List.Basic

/-!
# Rings of cells

Cells that each point to a next one. A loop that starts behind a cell `head` and goes on until it
is back at `head` ends exactly if `head` is on a ring (`loop_eq_some_iff`), and it is on one exactly
if it is a periodic point of `next` (`exists_isRing_iff`). There is only one ring of
it (`IsRing.unique`), and no cell is on the ring twice (`IsRing.nodup`), so the loop folds over
each of the other cells once.
-/

namespace RingList

variable {A B : Type*} (next : A → A)

/-- From `p` on the cells `l` come before `q`. -/
def Path : A → List A → A → Prop
  | p, [], q => p = q
  | p, a :: l, q => p = a ∧ Path (next a) l q

/-- The cells on the ring of `head`, up to `head` itself. -/
structure IsRing (head : A) (l : List A) : Prop where
  path : Path next (next head) l head
  head_notMem : head ∉ l

/-- Go from `p` to `head`, with at most `n` looks at a cell, and fold over the cells before
`head`. -/
def loop [DecidableEq A] (head : A) (body : B → A → B) : ℕ → A → B → Option B
  | 0, _, _ => none
  | n + 1, p, b => if p = head then some b else loop head body n (next p) (body b p)

variable {next}

/-! ## Paths -/

theorem Path.split : ∀ {p q : A} {l m : List A} {a : A}, Path next p (l ++ a :: m) q →
    Path next a (a :: m) q
  | _, _, [], _, _, h => ⟨rfl, h.2⟩
  | _, _, _ :: _, _, _, h => Path.split h.2

/-- Two paths that meet their end once are one. -/
theorem Path.unique : ∀ {p q : A} {l m : List A}, Path next p l q → Path next p m q →
    q ∉ l → q ∉ m → l = m
  | _, _, [], [], _, _, _, _ => rfl
  | _, _, [], _ :: _, h, h', _, hm => absurd (h'.1.symm.trans h) fun heq => hm (by simp [heq])
  | _, _, _ :: _, [], h, h', hl, _ => absurd (h.1.symm.trans h') fun heq => hl (by simp [heq])
  | _, _, a :: l, b :: m, h, h', hl, hm => by
    obtain rfl : a = b := h.1.symm.trans h'.1
    rw [Path.unique h.2 h'.2 (fun hq => hl (List.mem_cons_of_mem _ hq))
      fun hq => hm (List.mem_cons_of_mem _ hq)]

theorem Path.nodup : ∀ {p q : A} {l : List A}, Path next p l q → q ∉ l → l.Nodup
  | _, _, [], _, _ => List.nodup_nil
  | _, q, a :: l, h, hq => by
    have hql : q ∉ l := fun hm => hq (List.mem_cons_of_mem _ hm)
    refine List.nodup_cons.mpr ⟨fun ha => ?_, h.2.nodup hql⟩
    -- a second visit would start the same path over, which is shorter
    obtain ⟨s, t, rfl⟩ := List.append_of_mem ha
    have hshort : Path next a (a :: t) q := h.2.split
    have hlong : Path next a (a :: (s ++ a :: t)) q := ⟨rfl, h.2⟩
    have hlen := congrArg List.length (hlong.unique hshort hq fun hm => hql (by simp [hm]))
    simp only [List.length_cons, List.length_append] at hlen
    omega

theorem Path.iterate : ∀ {p q : A} {l : List A}, Path next p l q → next^[l.length] p = q
  | _, _, [], h => h
  | _, _, a :: l, h => by
    obtain ⟨rfl, h⟩ := h
    exact h.iterate

/-- Where iterating gets, some path gets that meets its end once. -/
theorem exists_path {q : A} : ∀ (n : ℕ) {p : A}, next^[n] p = q → ∃ l, Path next p l q ∧ q ∉ l
  | 0, _, h => ⟨[], h, List.not_mem_nil⟩
  | n + 1, p, h => by
    by_cases hp : p = q
    · exact ⟨[], hp, List.not_mem_nil⟩
    · obtain ⟨l, hl, hq⟩ := exists_path n h
      exact ⟨p :: l, ⟨rfl, hl⟩, by simp [hq, Ne.symm hp]⟩

/-! ## Rings -/

section

variable {head : A} {l : List A}

theorem IsRing.unique {m : List A} (h : IsRing next head l) (h' : IsRing next head m) : l = m :=
  h.path.unique h'.path h.head_notMem h'.head_notMem

theorem IsRing.nodup (h : IsRing next head l) : (head :: l).Nodup :=
  List.nodup_cons.mpr ⟨h.head_notMem, h.path.nodup h.head_notMem⟩

/-- A cell is on a ring exactly if it is a periodic point. -/
theorem exists_isRing_iff : (∃ l, IsRing next head l) ↔ head ∈ Function.periodicPts next := by
  refine ⟨fun ⟨l, hl⟩ => ⟨l.length + 1, Nat.succ_pos _, ?_⟩, fun ⟨n, hn, h⟩ => ?_⟩
  · exact hl.path.iterate
  · obtain ⟨m, rfl⟩ : ∃ m, n = m + 1 := ⟨n - 1, by omega⟩
    obtain ⟨l, hl, hq⟩ := exists_path m (p := next head) h
    exact ⟨l, hl, hq⟩

end

/-! ## The loop -/

section

variable [DecidableEq A] {head : A} {body : B → A → B}

/-- The loop gets to its end exactly along a path to `head`, and folds over the path. -/
theorem loop_eq_some_iff_path : ∀ {n : ℕ} {p : A} {b b' : B},
    loop next head body n p b = some b' ↔
      ∃ l, Path next p l head ∧ head ∉ l ∧ l.length < n ∧ b' = l.foldl body b
  | 0, _, _, _ => by simp [loop]
  | n + 1, p, b, b' => by
    rw [loop]
    by_cases hp : p = head
    · rw [if_pos hp]
      refine ⟨fun h => ⟨[], hp, by simp, by simp, (Option.some.inj h).symm⟩, ?_⟩
      rintro ⟨l, hl, hq, -, rfl⟩
      have hnil : Path next p [] head := hp
      rw [hl.unique hnil hq (by simp), List.foldl_nil]
    · rw [if_neg hp, loop_eq_some_iff_path]
      refine ⟨?_, ?_⟩
      · rintro ⟨l, hl, hq, hlen, rfl⟩
        exact ⟨p :: l, ⟨rfl, hl⟩, by simp [hq, Ne.symm hp], by simpa using hlen, rfl⟩
      · rintro ⟨l, hl, hq, hlen, rfl⟩
        cases l with
        | nil => exact (hp hl).elim
        | cons a l =>
          obtain ⟨rfl, hl⟩ := hl
          exact ⟨l, hl, fun hm => hq (List.mem_cons_of_mem _ hm), by simpa using hlen, rfl⟩

/-- Started behind `head`, the loop gets to its end exactly on a ring, and folds over it. -/
theorem loop_eq_some_iff {n : ℕ} {b b' : B} : loop next head body n (next head) b = some b' ↔
    ∃ l, IsRing next head l ∧ l.length < n ∧ b' = l.foldl body b := by
  rw [loop_eq_some_iff_path]
  refine ⟨?_, ?_⟩
  · rintro ⟨l, hl, hq, h⟩
    exact ⟨l, ⟨hl, hq⟩, h⟩
  · rintro ⟨l, ⟨hl, hq⟩, h⟩
    exact ⟨l, hl, hq, h⟩

end

end RingList
