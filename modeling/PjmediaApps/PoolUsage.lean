import PjmediaApps.CString
import PjmediaApps.RingList
import Mathlib.Algebra.BigOperators.Group.List.Basic
import Mathlib.Algebra.Order.Ring.Nat

/-!
# Pool usage

`dump_pool_usage` of `util.h` goes along the list of used pools of a caching pool, a ring of cells
that starts and ends in the caching pool itself, and adds up what the pools have allocated and
used. It ends exactly if the list is a ring, and then counts every pool on it once
(`dumpPoolUsage_right`). The totals are `pj_size_t`, but they are printed with `%d`, so what is
logged is right up to 2^31 thousand bytes only.
-/

namespace PjmediaApps

open CString RingList

/-- The pools of a caching pool in memory. -/
structure PoolHeap (Addr : Type*) where
  /-- `p->next`, and `cp->used_list.next` for the cell of the list itself. -/
  next : Addr → Addr
  /-- `pj_pool_get_capacity`. -/
  capacity : Addr → ℕ
  /-- `pj_pool_get_used_size`. -/
  usedSize : Addr → ℕ

/-- `total_alloc` and `total_used`. -/
structure PoolTotals where
  alloc : ℕ
  used : ℕ
  deriving DecidableEq, Repr

/-- The number of values of a `pj_size_t`. -/
def sizeRange : ℕ := 18446744073709551616

section

variable {Addr : Type*} (heap : PoolHeap Addr)

/-- The body of the loop. -/
def addPool (t : PoolTotals) (p : Addr) : PoolTotals :=
  ⟨(t.alloc + heap.capacity p) % sizeRange, (t.used + heap.usedSize p) % sizeRange⟩

/-- The numbers logged for the totals : thousands of bytes, of which `%d` takes 32 bits. -/
def logTotals (t : PoolTotals) : ℤ × ℤ :=
  (toInt32 ↑(t.alloc / 1000), toInt32 ↑(t.used / 1000))

/-- `dump_pool_usage` for the list at `usedList`, with at most `n` looks at `p`. -/
def dumpPoolUsage [DecidableEq Addr] (usedList : Addr) (n : ℕ) : Option (ℤ × ℤ) :=
  (loop heap.next usedList (addPool heap) n (heap.next usedList) ⟨0, 0⟩).map logTotals

/-- The totals are the sums, wrapped. -/
theorem foldl_addPool : ∀ (ps : List Addr) (t : PoolTotals),
    t.alloc < sizeRange → t.used < sizeRange → ps.foldl (addPool heap) t =
      ⟨(t.alloc + (ps.map heap.capacity).sum) % sizeRange,
        (t.used + (ps.map heap.usedSize).sum) % sizeRange⟩
  | [], t, ha, hu => by
    simp only [List.foldl_nil, List.map_nil, List.sum_nil, Nat.add_zero, Nat.mod_eq_of_lt ha,
      Nat.mod_eq_of_lt hu]
  | p :: ps, t, _, _ => by
    have hpos : 0 < sizeRange := by decide
    rw [List.foldl_cons, foldl_addPool ps _ (Nat.mod_lt _ hpos) (Nat.mod_lt _ hpos)]
    simp only [addPool, Nat.mod_add_mod, List.map_cons, List.sum_cons, Nat.add_assoc]

/-- The totals of the pools at some addresses. -/
def totalsOf (ps : List Addr) : PoolTotals :=
  ⟨(ps.map heap.capacity).sum % sizeRange, (ps.map heap.usedSize).sum % sizeRange⟩

/-- What the walk over the list at `usedList` does. -/
structure PoolUsageRight [DecidableEq Addr] (usedList : Addr) : Prop where
  /-- It ends exactly if following the list comes back to its start. -/
  ends : (∃ n res, dumpPoolUsage heap usedList n = some res) ↔
    usedList ∈ Function.periodicPts heap.next
  /-- Then it has met the pools of the list, each once, in one look for each and one for the start,
  and logs their totals. -/
  counts : ∀ n res, dumpPoolUsage heap usedList n = some res ↔
    ∃ ps, IsRing heap.next usedList ps ∧ ps.Nodup ∧ ps.length < n ∧
      res = logTotals (totalsOf heap ps)
  /-- There is one list of pools at most. -/
  unique : ∀ ps qs, IsRing heap.next usedList ps → IsRing heap.next usedList qs → ps = qs
  /-- Below 2^31 thousand bytes, the sums themselves are logged. -/
  exact_below : ∀ ps, (ps.map heap.capacity).sum < 2147483648000 →
    (ps.map heap.usedSize).sum < 2147483648000 → logTotals (totalsOf heap ps) =
      (↑((ps.map heap.capacity).sum / 1000), ↑((ps.map heap.usedSize).sum / 1000))

/-- Totals that are small enough are logged as they are. -/
theorem logTotals_totalsOf {ps : List Addr} (ha : (ps.map heap.capacity).sum < 2147483648000)
    (hu : (ps.map heap.usedSize).sum < 2147483648000) : logTotals (totalsOf heap ps) =
      (↑((ps.map heap.capacity).sum / 1000), ↑((ps.map heap.usedSize).sum / 1000)) := by
  have hfit : ∀ n : ℕ, n < 2147483648000 → toInt32 ↑(n % sizeRange / 1000) = ↑(n / 1000) := by
    intro n hn
    have hmod : n % sizeRange = n := Nat.mod_eq_of_lt (hn.trans (by unfold sizeRange; omega))
    rw [hmod, toInt32_of_mem (by omega) (by omega)]
  exact Prod.ext (hfit _ ha) (hfit _ hu)

/-- `dump_pool_usage` is right for any cells in memory. -/
theorem dumpPoolUsage_right [DecidableEq Addr] (usedList : Addr) :
    PoolUsageRight heap usedList := by
  have hcounts : ∀ n res, dumpPoolUsage heap usedList n = some res ↔
      ∃ ps, IsRing heap.next usedList ps ∧ ps.Nodup ∧ ps.length < n ∧
        res = logTotals (totalsOf heap ps) := by
    intro n res
    have htotals : ∀ ps : List Addr, ps.foldl (addPool heap) ⟨0, 0⟩ = totalsOf heap ps := by
      intro ps
      have h := foldl_addPool heap ps ⟨0, 0⟩ (by decide) (by decide)
      simpa [totalsOf] using h
    rw [dumpPoolUsage, Option.map_eq_some_iff]
    refine ⟨?_, ?_⟩
    · rintro ⟨t, ht, rfl⟩
      obtain ⟨ps, hring, hlen, rfl⟩ := loop_eq_some_iff.mp ht
      exact ⟨ps, hring, (List.nodup_cons.mp hring.nodup).2, hlen, by rw [htotals]⟩
    · rintro ⟨ps, hring, -, hlen, rfl⟩
      exact ⟨_, loop_eq_some_iff.mpr ⟨ps, hring, hlen, rfl⟩, by rw [htotals]⟩
  refine ⟨?_, hcounts, fun ps qs => IsRing.unique, fun ps => logTotals_totalsOf heap⟩
  rw [← exists_isRing_iff]
  refine ⟨?_, fun ⟨ps, hring⟩ => ?_⟩
  · rintro ⟨n, res, h⟩
    obtain ⟨ps, hring, -⟩ := (hcounts n res).mp h
    exact ⟨ps, hring⟩
  · exact ⟨ps.length + 1, _, (hcounts _ _).mpr
      ⟨ps, hring, (List.nodup_cons.mp hring.nodup).2, Nat.lt_succ_self _, rfl⟩⟩

end

end PjmediaApps
